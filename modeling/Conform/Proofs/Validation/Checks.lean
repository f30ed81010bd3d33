import Conform.Proofs.Validation.Rules

/-!
# The checks of a node on two sides

Conversion, emptiness, presence, allowed and denied values, the base check and the rules.
-/

namespace Conform

namespace Bounds

variable (B : Bounds) (h : Hooks)

/-- Outcomes of a conversion step. -/
def OutcomeIn (o : Outcome) : Prop := B.value o.value ∧ B.Issues o.errors

structure ConvertIn (core : Core) (content : Content) : Prop where
  prepare : ∀ f v o, B.prefs f.prefs → B.value v → prepare content.kind f v = some o → B.OutcomeIn o
  coerce : ∀ f v o, B.prefs f.prefs → B.value v → coerce core content f v = some o → B.OutcomeIn o

def OptionSetIn (s : Option ValueSet) : Prop := ∀ t, s = some t → B.SetIn h t

def VerdictIn : Node.Verdict → Prop
  | .goOn v errors => B.StateIn (v, errors)
  | .finished v errors => B.StateIn (v, errors)

/-- What a base check lets through of a value: the value itself or another one, which is fit, or
issues. -/
def BaseIn (fit : Value → Prop) (v : Value) : Option Outcome → Prop
  | none => fit v
  | some ⟨w, []⟩ => B.value w ∧ fit w
  | some ⟨w, e :: es⟩ => B.value w ∧ B.Issues (e :: es)

end Bounds

variable {B : Bounds} {ε : Effects} {h : Hooks}

theorem Bounds.BaseIn.mono {fit wider : Value → Prop} (weaker : ∀ v, fit v → wider v) {v : Value}
    {o : Option Outcome} (outcome : B.BaseIn fit v o) : B.BaseIn wider v o := by
  rcases o with _ | ⟨w, _ | ⟨e, es⟩⟩
  · exact weaker v outcome
  · exact ⟨outcome.1, weaker w outcome.2⟩
  · exact outcome

namespace Bounds.Frames

variable {f f' : Frame}

theorem convert_eq (frames : B.Frames f f') {n n' : Node} (core : n'.core = n.core)
    (content : n'.content = n.content) : n'.convert f' = n.convert f := by
  obtain ⟨c, prefs⟩ := frames.prefs.context
  have prepared : ∀ v, prepare f'.kind f' v = prepare f.kind f v := by
    intro v
    unfold prepare
    rw [frames.kind]
    simp only [frames.fail_eq]
  have coerced : ∀ v, coerce n'.core n'.content f' v = coerce n.core n.content f v := by
    intro v
    rw [core, content]
    unfold coerce coerceProbe
    simp only [frames.fail_eq]
  have stepped : ∀ step v, Node.convertStep f' step v = Node.convertStep f step v := by
    intro step v
    unfold Node.convertStep
    rw [prefs]
  funext v
  unfold Node.convert
  simp only [stepped, funext prepared, funext coerced]

theorem convertStep_in (f : Frame) (step : Value → Option Outcome) {v : Value} (value : B.value v)
    (bounded : ∀ o, step v = some o → B.OutcomeIn o) : B.VerdictIn (Node.convertStep f step v) := by
  unfold Node.convertStep
  split
  · exact ⟨value, nofun⟩
  · cases stepped : step v with
    | none => exact ⟨value, nofun⟩
    | some o =>
        obtain ⟨w, errors⟩ := o
        cases errors with
        | nil => exact bounded _ stepped
        | cons e es => exact bounded _ stepped

theorem convert_in (frames : B.Frames f f') {n : Node} (bounded : B.ConvertIn n.core n.content)
    (kind : f.kind = n.content.kind) {v : Value} (value : B.value v) : B.VerdictIn (n.convert f v) := by
  unfold Node.convert
  have prepared := convertStep_in f (prepare f.kind f) value fun o some =>
    bounded.prepare f v o frames.prefs.left value (kind ▸ some)
  split
  · rename_i finished
    rwa [finished] at prepared
  · rename_i w _ goesOn
    rw [goesOn] at prepared
    exact convertStep_in f _ prepared.1 fun o some =>
      bounded.coerce f w o frames.prefs.left prepared.1 some

theorem checkAllowed (frames : B.Frames f f') (laws : B.Lawful) {core : Core}
    (bounded : B.OptionSetIn h core.allowed) {v : Value} (value : B.value v) :
    Alike B ε B.VerdictIn (Node.checkAllowed h core f v) (Node.checkAllowed h core f' v) := by
  obtain ⟨c, prefs⟩ := frames.prefs.context
  have issue : ∀ vs, B.Issues [.report (f.report "any.only" v [(.str "valids", vs)])] := fun vs =>
    issues_singleton (frames.reported laws f.site "any.only" v _ (by simp [Datum.isText]))
  unfold Node.checkAllowed
  cases allowed : core.allowed with
  | none => exact Alike.pure ⟨value, List.forall_mem_nil _⟩
  | some s =>
      refine (frames.find laws (bounded s allowed) core.insensitive value).bind fun o found => ?_
      simp only [frames.report_eq, prefs]
      cases o with
      | some x =>
          refine Alike.pure ⟨?_, List.forall_mem_nil _⟩
          split
          · exact found x rfl
          · exact value
      | none =>
          simp only
          split
          · split
            · exact Alike.pure ⟨value, issue _⟩
            · exact Alike.pure ⟨value, issue _⟩
          · exact Alike.pure ⟨value, List.forall_mem_nil _⟩

theorem checkDenied (frames : B.Frames f f') (laws : B.Lawful) {core : Core}
    (bounded : B.OptionSetIn h core.denied) {v : Value} {errors : List Issue}
    (state : B.StateIn (v, errors)) :
    Alike B ε B.VerdictIn (Node.checkDenied h core f v errors) (Node.checkDenied h core f' v errors) := by
  obtain ⟨c, prefs⟩ := frames.prefs.context
  have issue : ∀ vs, B.Issues [.report (f.report "any.invalid" v [(.str "invalids", vs)])] := fun vs =>
    issues_singleton (frames.reported laws f.site "any.invalid" v _ (by simp [Datum.isText]))
  unfold Node.checkDenied
  cases denied : core.denied with
  | none => exact Alike.pure state
  | some s =>
      refine (frames.find laws (bounded s denied) core.insensitive state.1).bind fun o _ => ?_
      simp only [frames.report_eq, prefs]
      cases o with
      | none => exact Alike.pure state
      | some x =>
          simp only
          split
          · exact Alike.pure ⟨state.1, issue _⟩
          · exact Alike.pure ⟨state.1, state.2.append (issue _)⟩

theorem accepts {e e' : Evaluator} {v : Value} {s s' : Site} {p p' : Preferences}
    (alike : Alike B .all B.ResultIn (e v s p.forMatching) (e' v s' p'.forMatching)) :
    Alike B ε (fun _ => True) (Node.accepts e v s p) (Node.accepts e' v s' p') :=
  alike.withoutTrace.bind fun _ _ => Alike.pure trivial

end Bounds.Frames

namespace Bounds

/-- Schemas for empty values that give the same on both sides. -/
def EmptyIn (B : Bounds) (s s' : Site) : Option Evaluator → Option Evaluator → Prop
  | none, none => True
  | some e, some e' => ∀ v, B.value v →
    Alike B .all B.ResultIn (e v s ({} : Preferences).forMatching) (e' v s' ({} : Preferences).forMatching)
  | _, _ => False

/-- The settings of a node, apart from its cache, that keep to the bounds where the node is checked at a
path under preferences. `fit` holds of what the base check lets through. -/
structure CoreIn (B : Bounds) (ε : Effects) (h : Hooks) (fit : Value → Prop) (core : Core)
    (content : Content) (path : Path) (prefs : Preferences) : Prop where
  convert : B.ConvertIn core content
  trimmed : ∀ v, B.value v → B.value (trimmed core v)
  allowed : B.OptionSetIn h core.allowed
  denied : B.OptionSetIn h core.denied
  rules : ∀ e ∈ core.rules, ∃ ready, B.RuleIn ε h fit content.kind e ready
  default : B.FallbackIn ε h core.default
  failover : B.FallbackIn ε h core.failover
  error : B.ErrorIn ε h core.error
  cast : ∀ c, core.cast = some c → ∀ v, B.value v → v.isUndefined = false →
    B.Meets B.value (castValue content.kind c v)
  hooks : prefs.externals → ∀ fn ∈ core.externals,
    ε.hook ⟨fn, path, nodeLabel core.label path prefs.errorLabel⟩
  captures : core.result.isSome → ε.captures

/-- Two nodes with the same settings whose child schemas run alike from the frames `f` and `f'`. -/
structure NodesIn (B : Bounds) (ε : Effects) (h : Hooks) (fit : Value → Prop) (n n' : Node)
    (f f' : Frame) : Prop where
  core : n'.core = n.core
  content : n'.content = n.content
  frames : B.Frames f f'
  kind : f.kind = n.content.kind
  label : f.label = n.core.label
  settings : B.CoreIn ε h fit n.core n.content f.site.path f.prefs
  empty : B.EmptyIn f.site f'.site n.empty n'.empty
  base : ∀ v, B.value v → Alike B ε (B.BaseIn fit v) (n.base { f with current := v } v)
    (n'.base { f' with current := v } v)

namespace NodesIn

variable {fit : Value → Prop} {n n' : Node} {f f' : Frame}

theorem emptied (nodes : B.NodesIn ε h fit n n' f f') (laws : B.Lawful) {v : Value} (value : B.value v) :
    Alike B ε B.value (Node.emptied n f v) (Node.emptied n' f' v) := by
  have both := nodes.empty
  unfold Node.emptied
  rw [nodes.core]
  cases left : n.empty with
  | none =>
      cases right : n'.empty with
      | none => exact Alike.pure value
      | some e' => simp [left, right, EmptyIn] at both
  | some e =>
      cases right : n'.empty with
      | none => simp [left, right, EmptyIn] at both
      | some e' =>
          simp only [left, right, EmptyIn] at both
          refine (Frames.accepts (both _ (nodes.settings.trimmed v value))).bind fun isEmpty _ => ?_
          cases isEmpty with
          | true => exact Alike.pure laws.undefined
          | false => exact Alike.pure value

theorem checkBase (nodes : B.NodesIn ε h fit n n' f f') (laws : B.Lawful) {v : Value}
    {errors : List Issue} (state : B.StateIn (v, errors)) :
    Alike B ε B.StateIn (Node.checkBase h n f v errors) (Node.checkBase h n' f' v errors) := by
  have rules := nodes.settings.rules
  rw [← nodes.kind] at rules
  unfold Node.checkBase
  rw [nodes.core]
  refine (nodes.base v state.1).bind fun o outcome => ?_
  rcases o with _ | ⟨w, _ | ⟨e, es⟩⟩
  · exact nodes.frames.applyRules laws rules state.1 outcome state.2
  · exact nodes.frames.applyRules laws rules outcome.1 outcome.2 state.2
  · exact Alike.pure ⟨outcome.1, state.2.append outcome.2⟩

theorem check (nodes : B.NodesIn ε h fit n n' f f') (laws : B.Lawful) {v : Value} (value : B.value v) :
    Alike B ε B.StateIn (Node.check h n f v) (Node.check h n' f' v) := by
  unfold Node.check
  rw [nodes.core]
  refine (nodes.frames.checkAllowed laws nodes.settings.allowed value).bind fun verdict allowed => ?_
  cases verdict with
  | finished w errors => exact Alike.pure allowed
  | goOn w errors =>
      refine (nodes.frames.checkDenied laws nodes.settings.denied allowed).bind fun verdict denied => ?_
      cases verdict with
      | finished u errors => exact Alike.pure denied
      | goOn u errors => exact nodes.checkBase laws denied

theorem presence_eq (nodes : B.NodesIn ε h fit n n' f f') : n'.presence f' = n.presence f := by
  obtain ⟨c, prefs⟩ := nodes.frames.prefs.context
  unfold Node.presence
  rw [nodes.core, nodes.content, prefs]

theorem checkPresence (nodes : B.NodesIn ε h fit n n' f f') (laws : B.Lawful) {v : Value}
    (value : B.value v) :
    Alike B ε B.StateIn (Node.checkPresence h n f v) (Node.checkPresence h n' f' v) := by
  have issue : ∀ code, B.Issues [.report (f.report code v [])] := fun code =>
    issues_singleton (nodes.frames.reported laws f.site code v [] nofun)
  have emptyDict : B.value (.dict []) := (laws.dict []).mpr nofun
  unfold Node.checkPresence
  rw [nodes.presence_eq, nodes.core]
  simp only [nodes.frames.report_eq]
  split
  · split
    · exact Alike.pure ⟨value, nofun⟩
    · exact Alike.pure ⟨value, issue _⟩
    · split
      · exact nodes.check laws emptyDict
      · exact Alike.pure ⟨value, nofun⟩
    · exact nodes.check laws value
  · split
    · exact Alike.pure ⟨value, issue _⟩
    · exact nodes.check laws value

theorem body (nodes : B.NodesIn ε h fit n n' f f') (laws : B.Lawful) :
    Alike B ε B.StateIn (Node.body h n f) (Node.body h n' f') := by
  have converted := nodes.frames.convert_in nodes.settings.convert nodes.kind nodes.frames.value
  unfold Node.body
  rw [nodes.frames.convert_eq nodes.core nodes.content, nodes.frames.given]
  cases verdict : n.convert f f.given with
  | finished v es =>
      rw [verdict] at converted
      exact Alike.pure converted
  | goOn v es =>
      rw [verdict] at converted
      exact (nodes.emptied laws converted.1).bind fun w value => nodes.checkPresence laws value

end NodesIn

end Bounds

end Conform
