import Conform.Proofs.Validation.Finish

/-!
# The rules of a node on two sides

A rule meets what the base check of its node lets through, so its bounds are stated for values that are
`fit`, and it hands on such values.
-/

namespace Conform

def RuleEntry.spec (kind : Kind) (e : RuleEntry) : RuleSpec := (kind.rule? e.name).getD { name := e.name }

def RuleSpec.arg (spec : RuleSpec) (name : String) : ArgSpec :=
  (spec.args.find? fun a => a.name == name).getD { name := name }

/-- The arguments with one of them replaced. -/
def RuleEntry.setArg (name : String) (v : Value) (args : List (String × Value)) : List (String × Value) :=
  args.map fun a => if a.1 == name then (name, v) else a

namespace Bounds

variable (B : Bounds) (ε : Effects) (h : Hooks)

def ReplyIn (fit : Value → Prop) : Reply → Prop
  | .value v => B.value v ∧ fit v
  | .reports rs => ∀ r ∈ rs, B.issue (.report r)

/-- A rule of a node that stays within bounds. `ready` holds of the arguments on their way to the test, with
the references that still stand for some of them. -/
structure RuleIn (fit : Value → Prop) (kind : Kind) (e : RuleEntry)
    (ready : List (String × Reference) → List (String × Value) → Prop) : Prop where
  refs : ∀ a ∈ e.refs, B.ResolvesIn h a.2
  checked : ∀ a ∈ e.refs, ∀ v, B.value v →
    B.Meets (fun _ => True) (((e.spec kind).arg a.1).check (((e.spec kind).arg a.1).normalize v))
  given : ready e.refs e.args
  resolved : ∀ a rest v args, B.value v → ready (a :: rest) args →
    ((e.spec kind).arg a.1).check (((e.spec kind).arg a.1).normalize v) = .ok true →
    ready rest (RuleEntry.setArg a.1 (((e.spec kind).arg a.1).normalize v) args)
  test : ∀ f f' v args, B.Frames f f' → f.kind = kind → B.value v → fit v → ready [] args →
    Alike B ε (fun reply => B.ReplyIn fit reply.normal) (Rule.test h e.name { f with current := v } v args)
      (Rule.test h e.name { f' with current := v } v args)
  message : ∀ r, B.issue (.report r) → B.issue (.report (r.withMessage e.message))
  warns : e.warn.truthy → ∀ r, B.issue (.report r) → ε.warning (r.withMessage e.message)

end Bounds

variable {B : Bounds} {ε : Effects} {h : Hooks}

theorem Alike.warnAll {rs : List Report} (admitted : ∀ r ∈ rs, ε.warning r) :
    Alike B ε (fun _ => True) (rs.forM Eval.warn) (rs.forM Eval.warn) := by
  induction rs with
  | nil => exact Alike.pure trivial
  | cons r rs ih =>
      change Alike B ε _ (Eval.warn r >>= fun _ => rs.forM Eval.warn) (Eval.warn r >>= fun _ => rs.forM Eval.warn)
      exact (Alike.warn (admitted r (by simp))).bind fun _ _ =>
        ih fun q member => admitted q (by simp [member])

namespace Bounds.Frames

variable {f f' : Frame} {fit : Value → Prop}

theorem resolveArgs (frames : B.Frames f f') (laws : B.Lawful) {v : Value} (value : B.value v)
    {spec : RuleSpec} {ready : List (String × Reference) → List (String × Value) → Prop}
    {refs : List (String × Reference)}
    (resolves : ∀ a ∈ refs, B.ResolvesIn h a.2)
    (checked : ∀ a ∈ refs, ∀ v, B.value v →
      B.Meets (fun _ => True) ((spec.arg a.1).check ((spec.arg a.1).normalize v)))
    (resolved : ∀ a rest v args, B.value v → ready (a :: rest) args →
      (spec.arg a.1).check ((spec.arg a.1).normalize v) = .ok true →
      ready rest (RuleEntry.setArg a.1 ((spec.arg a.1).normalize v) args))
    {args : List (String × Value)} (given : ready refs args) :
    Alike B ε (fun o => match o with
        | .error r => B.issue (.report r)
        | .ok args => ready [] args)
      (Node.resolveArgs h f v spec refs args) (Node.resolveArgs h f' v spec refs args) := by
  -- On the references that are left: `ready` says what the arguments are good for once these are resolved.
  induction refs generalizing args with
  | nil => exact Alike.pure given
  | cons a rest ih =>
      obtain ⟨name, r⟩ := a
      rw [Node.resolveArgs, Node.resolveArgs]
      refine (frames.resolve laws (resolves (name, r) (by simp)) value).bind fun found foundIn => ?_
      have check := checked (name, r) (by simp) found foundIn
      change Alike B ε _ (liftM ((spec.arg name).check ((spec.arg name).normalize found)) >>= _)
        (liftM ((spec.arg name).check ((spec.arg name).normalize found)) >>= _)
      cases passes : (spec.arg name).check ((spec.arg name).normalize found) with
      | error fault =>
          rw [passes] at check
          exact Alike.throw check
      | ok accepted =>
          refine Alike.bind (Q := fun b => b = accepted) (Alike.lift rfl) fun b same => ?_
          subst same
          split
          · rename_i holds
            rw [holds] at passes
            exact ih (fun q member => resolves q (by simp [member]))
              (fun q member => checked q (by simp [member]))
              (resolved (name, r) rest found args foundIn given passes)
          · rw [frames.report_eq]
            exact Alike.pure (frames.reported laws f.site "any.ref" found _ (by simp [Datum.isText]))

theorem reply (frames : B.Frames f f') (laws : B.Lawful) {e : RuleEntry}
    {ready : List (String × Reference) → List (String × Value) → Prop} (rule : B.RuleIn ε h fit f.kind e ready)
    {v : Value}
    (value : B.value v) (isFit : fit v) :
    Alike B ε (B.ReplyIn fit) (Node.reply h f v (e.spec f.kind) e) (Node.reply h f' v (e.spec f.kind) e) := by
  unfold Node.reply
  refine (frames.resolveArgs laws value rule.refs rule.checked rule.resolved rule.given).bind ?_
  intro o outcome
  cases o with
  | error r => exact Alike.pure fun q member => by rwa [List.mem_singleton.mp member]
  | ok args =>
      exact (rule.test f f' v args frames rfl value isFit outcome).bind fun reply bounded =>
        Alike.pure bounded

theorem applyRules (frames : B.Frames f f') (laws : B.Lawful) {rules : List RuleEntry}
    (bounded : ∀ e ∈ rules, ∃ ready, B.RuleIn ε h fit f.kind e ready) {v : Value} {errors : List Issue}
    (value : B.value v) (isFit : fit v) (issues : B.Issues errors) :
    Alike B ε B.StateIn (Node.applyRules h f rules v errors) (Node.applyRules h f' rules v errors) := by
  obtain ⟨c, prefs⟩ := frames.prefs.context
  induction rules generalizing v errors with
  | nil => exact Alike.pure ⟨value, issues⟩
  | cons e rest ih =>
      have others : ∀ q ∈ rest, ∃ ready, B.RuleIn ε h fit f.kind q ready :=
        fun q member => bounded q (by simp [member])
      obtain ⟨ready, rule⟩ := bounded e (by simp)
      rw [Node.applyRules, Node.applyRules, frames.kind]
      have sameConvert : f'.prefs.convert = f.prefs.convert := by rw [prefs]
      have sameAbort : f'.prefs.abortEarly = f.prefs.abortEarly := by rw [prefs]
      rw [sameConvert, sameAbort]
      change Alike B ε _ (if (e.spec f.kind).byConversion && f.prefs.convert then _ else
          Node.reply h f v (e.spec f.kind) e >>= _)
        (if (e.spec f.kind).byConversion && f.prefs.convert then _ else
          Node.reply h f' v (e.spec f.kind) e >>= _)
      split
      · exact ih others value isFit issues
      · refine (frames.reply laws rule value isFit).bind fun answer replied => ?_
        cases answer with
        | value w => exact ih others replied.1 replied.2 issues
        | reports rs =>
            have worded : B.Issues ((rs.map (ReportOf.withMessage e.message)).map .report) := by
              intro i member
              simp only [List.map_map, List.mem_map, Function.comp_apply] at member
              obtain ⟨r, isReport, rfl⟩ := member
              exact rule.message r (replied r isReport)
            simp only
            split
            · rename_i warns
              refine (Alike.warnAll ?_).bind fun _ _ => ih others value isFit issues
              intro r member
              obtain ⟨q, isReport, rfl⟩ := List.mem_map.mp member
              exact rule.warns warns q (replied q isReport)
            · split
              · exact Alike.pure ⟨value, worded⟩
              · exact ih others value isFit (issues.append worded)

end Bounds.Frames

end Conform
