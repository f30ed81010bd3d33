import Conform.Proofs.Strict.Rules

/-!
# Rules that only warn

A mark on a rule decides where the reports of its failure go, and nothing else. What each rule finds is the same under
all markings, and the run over the rules hands the findings on in their order.
-/

namespace Conform

/-! ## Computations that read nothing but what is captured -/

/-- From all runs with the same captures a computation has one outcome, which has a property if there is one, and adds
the same warnings. -/
def Steady (shadow : Option Shadow) {α : Type} (Q : α → Prop) (x : Eval α) : Prop :=
  ∃ outcome ws, (∀ a, outcome = .ok a → Q a) ∧ ∀ r : Run, r.journal.shadow = shadow → x.exec r = (outcome, r.warned ws)

namespace Steady

variable {shadow : Option Shadow} {α β : Type} {P Q : α → Prop} {R : β → Prop} {x : Eval α}

theorem lift {e : Except Fault α} (holds : ∀ a, e = .ok a → Q a) : Steady shadow Q (liftM e) := by
  refine ⟨e, [], holds, fun r _ => ?_⟩
  rw [Eval.exec_lift, Run.warned_nil]

theorem pure {a : α} (holds : Q a) : Steady shadow Q (pure a) :=
  lift (e := .ok a) fun _ same => Except.ok.inj same ▸ holds

theorem warn (w : Report) : Steady shadow (fun _ => True) (Eval.warn w) :=
  ⟨.ok (), [w], fun _ _ => trivial, fun _ _ => rfl⟩

theorem bind {g : α → Eval β} (first : Steady shadow P x) (then_ : ∀ a, P a → Steady shadow R (g a)) :
    Steady shadow R (x >>= g) := by
  obtain ⟨outcome, ws, holds, ran⟩ := first
  cases outcome with
  | error fault =>
      refine ⟨.error fault, ws, nofun, fun r captures => ?_⟩
      rw [Eval.exec_bind, ran r captures, Eval.andThen_error]
  | ok a =>
      obtain ⟨outcome, vs, holds', ran'⟩ := then_ a (holds a rfl)
      refine ⟨outcome, ws ++ vs, holds', fun r captures => ?_⟩
      rw [Eval.exec_bind, ran r captures, Eval.andThen_ok, ran' (r.warned ws) captures, Run.warned_append]

end Steady

/-! ## Answers of rules -/

variable {h : Hooks} {f : Frame} {v : Value} {rules : List RuleEntry} {e : RuleEntry}

namespace Reply

/-- The reports that an answer refuses a value with. -/
def failed : Reply → List Report
  | value _ => []
  | reports rs => rs

/-- An answer that leaves the value alone, or gives reasons for refusing it. -/
def Judges (v : Value) (a : Reply) : Prop := a = .value v ∨ ∃ rs, rs ≠ [] ∧ a = .reports rs

theorem Judges.normal {a : Reply} (judges : Judges v a) : Judges v a.normal := by
  rcases judges with rfl | ⟨rs, some, rfl⟩
  · simp only [Reply.normal]
    cases found : reports? v with
    | none => exact .inl rfl
    | some rs => exact .inr ⟨rs, reports?_ne_nil found, rfl⟩
  · exact .inr ⟨rs, some, rfl⟩

end Reply

theorem Rule.Decides.judges {kind : Kind} {x : Frame → Except Fault Reply} (decides : Decides kind v x)
    (isKind : f.kind = kind) {a : Reply} (ran : x f = .ok a) : Reply.Judges v a := by
  obtain ⟨judged, ls, some, each⟩ := decides
  rw [each f isKind] at ran
  cases judged with
  | error fault => cases ran
  | ok holds =>
      obtain rfl := Except.ok.inj ran
      cases holds with
      | true => exact .inl rfl
      | false => exact .inr ⟨_, by simpa using some, rfl⟩

namespace Node

variable {shadow : Option Shadow}

theorem resolve_steady (f : Frame) (v : Value) (t : Reference) :
    Steady shadow (fun _ => True) (resolve h f v t) := by
  refine ⟨t.resolve h.adjust shadow f.prefs.context v f.site, [], fun _ _ => trivial, fun r captures => ?_⟩
  subst captures
  rw [Run.warned_nil]
  rfl

theorem resolveArgs_steady (f : Frame) (v : Value) (spec : RuleSpec) (refs : List (String × Reference))
    (args : List (String × Value)) : Steady shadow (fun _ => True) (resolveArgs h f v spec refs args) := by
  induction refs generalizing args with
  | nil => exact .pure trivial
  | cons a rest ih =>
      rw [resolveArgs]
      refine (resolve_steady f v a.2).bind fun found _ => ?_
      refine (Steady.lift fun _ _ => trivial).bind fun accepted _ => ?_
      split
      · exact ih _
      · exact .pure trivial

theorem test_steady (builtIn : e.name ≠ .custom) (f : Frame) (v : Value) (args : List (String × Value)) :
    Steady shadow (Reply.Judges v) (Rule.test h e.name f v args) := by
  by_cases warns : e.name = .warning
  · rw [warns, Rule.test_warning]
    exact (Steady.warn _).bind fun _ _ => .pure (.inl rfl)
  · rw [Rule.test_verdict builtIn warns]
    exact .lift fun a ran => (Rule.verdict_decides e.name args).judges rfl ran

theorem reply_steady (builtIn : e.name ≠ .custom) (f : Frame) (v : Value) (spec : RuleSpec) :
    Steady shadow (Reply.Judges v) (reply h f v spec e) := by
  unfold reply
  refine (resolveArgs_steady f v spec e.refs e.args).bind fun args _ => ?_
  cases args with
  | error r => exact .pure (.inr ⟨[r], List.cons_ne_nil _ _, rfl⟩)
  | ok args => exact (test_steady builtIn _ v args).bind fun a judges => .pure judges.normal

end Node

/-! ## Findings -/

/-- What a rule has to say about a value: warnings of its own, and the reports of its failure. -/
structure Finding where
  noted : List Report := []
  failed : List Report := []

/-- What a rule finds when it is tested in a run. A rule that is left to the conversion finds nothing. -/
def Node.finding (h : Hooks) (f : Frame) (v : Value) (r : Run) (e : RuleEntry) : Except Fault Finding :=
  if (e.spec f.kind).byConversion && f.prefs.convert then .ok {}
  else match (reply h f v (e.spec f.kind) e).exec r with
    | (.error fault, _) => .error fault
    | (.ok a, s) =>
      .ok ⟨s.journal.warnings.drop r.journal.warnings.length, a.failed.map (ReportOf.withMessage e.message)⟩

namespace RuleEntry

def unmarked (e : RuleEntry) : RuleEntry := { e with warn := .bool false }

/-- The part of a finding that goes to the warnings. -/
def toWarnings (e : RuleEntry) (g : Finding) : List Report := g.noted ++ if e.warn.truthy then g.failed else []

def toErrors (e : RuleEntry) (g : Finding) : List Report := if e.warn.truthy then [] else g.failed

theorem routes_perm (e : RuleEntry) (g : Finding) : (e.toWarnings g ++ e.toErrors g).Perm (g.noted ++ g.failed) := by
  unfold toWarnings toErrors
  split <;> simp

theorem toErrors_ne_nil {e : RuleEntry} {g : Finding} : e.toErrors g ≠ [] ↔ ¬ e.warn.truthy ∧ g.failed ≠ [] := by
  unfold toErrors
  split <;> simp_all

end RuleEntry

/-- What the rules of a run put into the warnings if these are their findings. -/
def Finding.warnings (rules : List RuleEntry) (gs : List Finding) : List Report :=
  (rules.zip gs).flatMap fun p => p.1.toWarnings p.2

def Finding.errors (rules : List RuleEntry) (gs : List Finding) : List Report :=
  (rules.zip gs).flatMap fun p => p.1.toErrors p.2

namespace Node

theorem applyRules_cons (e : RuleEntry) (rest : List RuleEntry) (errors : List Issue) :
    applyRules h f (e :: rest) v errors =
      if (e.spec f.kind).byConversion && f.prefs.convert then applyRules h f rest v errors
      else reply h f v (e.spec f.kind) e >>= fun
        | .value w => applyRules h f rest w errors
        | .reports rs =>
          let rs := rs.map (ReportOf.withMessage e.message)
          if e.warn.truthy then rs.forM Eval.warn >>= fun _ => applyRules h f rest v errors
          else if f.prefs.abortEarly then pure (v, rs.map .report)
          else applyRules h f rest v (errors ++ rs.map .report) := by
  rw [applyRules]
  rfl

/-- All that one rule of a run does: it raises, or its finding goes where the mark says, and a failure that is an error
ends a run that aborts early. -/
theorem finding_cases (builtIn : e.name ≠ .custom) (h : Hooks) (f : Frame) (v : Value) (shadow : Option Shadow) :
    (∃ fault, ∀ r : Run, r.journal.shadow = shadow → finding h f v r e = .error fault ∧
      ∀ rest errors, ((applyRules h f (e :: rest) v errors).exec r).1 = .error fault) ∨
    ∃ g, ∀ r : Run, r.journal.shadow = shadow → finding h f v r e = .ok g ∧
      ∀ rest errors, (applyRules h f (e :: rest) v errors).exec r =
        if f.prefs.abortEarly ∧ e.toErrors g ≠ [] then (.ok (v, (e.toErrors g).map .report), r.warned (e.toWarnings g))
        else (applyRules h f rest v (errors ++ (e.toErrors g).map .report)).exec (r.warned (e.toWarnings g)) := by
  by_cases skipped : (e.spec f.kind).byConversion && f.prefs.convert
  · refine .inr ⟨{}, fun r _ => ⟨if_pos skipped, fun rest errors => ?_⟩⟩
    rw [applyRules_cons, if_pos skipped]
    simp [RuleEntry.toErrors, RuleEntry.toWarnings]
  have steady : Steady shadow (Reply.Judges v) (reply h f v (e.spec f.kind) e) := reply_steady builtIn f v _
  obtain ⟨outcome, ws, judges, ran⟩ := steady
  cases outcome with
  | error fault =>
      refine .inl ⟨fault, fun r captures => ⟨?_, fun rest errors => ?_⟩⟩
      · rw [finding, if_neg skipped, ran r captures]
      · rw [applyRules_cons, if_neg skipped, Eval.exec_bind, ran r captures, Eval.andThen_error]
  | ok a =>
      refine .inr ⟨⟨ws, a.failed.map (ReportOf.withMessage e.message)⟩, fun r captures => ⟨?_, fun rest errors => ?_⟩⟩
      · rw [finding, if_neg skipped, ran r captures]
        simp [Run.warned]
      rw [applyRules_cons, if_neg skipped, Eval.exec_bind, ran r captures, Eval.andThen_ok]
      rcases judges a rfl with rfl | ⟨rs, some, rfl⟩
      · simp [RuleEntry.toErrors, RuleEntry.toWarnings, Reply.failed]
      · by_cases marked : e.warn.truthy
        · simp only [marked, if_true, Eval.exec_bind, Eval.exec_warnAll, Eval.andThen_ok]
          simp [RuleEntry.toErrors, RuleEntry.toWarnings, Reply.failed, marked, Run.warned_append]
        · by_cases aborts : f.prefs.abortEarly
          · simp [RuleEntry.toErrors, RuleEntry.toWarnings, Reply.failed, marked, aborts, some]
          · simp [RuleEntry.toErrors, RuleEntry.toWarnings, Reply.failed, marked, aborts]

/-! ## Runs over rules -/

variable {r₀ r : Run} {gs : List Finding} {front rest : List RuleEntry} {errors : List Issue}

theorem mapM_cons_ok {find : RuleEntry → Except Fault Finding} (found : (e :: front).mapM find = .ok gs) :
    ∃ g gs', gs = g :: gs' ∧ find e = .ok g ∧ front.mapM find = .ok gs' := by
  rw [List.mapM_cons] at found
  obtain ⟨g, here, found⟩ := bind_eq_ok.mp found
  obtain ⟨gs', rest, found⟩ := bind_eq_ok.mp found
  exact ⟨g, gs', (Except.ok.inj found).symm, here, rest⟩

theorem finding_step (builtIn : e.name ≠ .custom) (captures : r.journal.shadow = r₀.journal.shadow) {g : Finding}
    (found : finding h f v r₀ e = .ok g) (goesOn : f.prefs.abortEarly → e.toErrors g = []) :
    (applyRules h f (e :: rest) v errors).exec r =
      (applyRules h f rest v (errors ++ (e.toErrors g).map .report)).exec (r.warned (e.toWarnings g)) := by
  rcases finding_cases builtIn h f v r₀.journal.shadow with ⟨fault, raises⟩ | ⟨g', finds⟩
  · simp [(raises r₀ rfl).1] at found
  · obtain rfl := Except.ok.inj ((finds r₀ rfl).1.symm.trans found)
    rw [(finds r captures).2, if_neg fun stops => stops.2 (goesOn stops.1)]

theorem finding_raises (builtIn : e.name ≠ .custom) (captures : r.journal.shadow = r₀.journal.shadow) {fault : Fault}
    (found : finding h f v r₀ e = .error fault) : ((applyRules h f (e :: rest) v errors).exec r).1 = .error fault := by
  rcases finding_cases builtIn h f v r₀.journal.shadow with ⟨fault', raises⟩ | ⟨g, finds⟩
  · obtain rfl := Except.error.inj ((raises r₀ rfl).1.symm.trans found)
    exact (raises r captures).2 rest errors
  · simp [(finds r₀ rfl).1] at found

theorem finding_aborts (builtIn : e.name ≠ .custom) (captures : r.journal.shadow = r₀.journal.shadow) {g : Finding}
    (found : finding h f v r₀ e = .ok g) (hasty : f.prefs.abortEarly) (fails : e.toErrors g ≠ []) :
    (applyRules h f (e :: rest) v errors).exec r = (.ok (v, (e.toErrors g).map .report), r.warned (e.toWarnings g)) := by
  rcases finding_cases builtIn h f v r₀.journal.shadow with ⟨fault, raises⟩ | ⟨g', finds⟩
  · simp [(raises r₀ rfl).1] at found
  · obtain rfl := Except.ok.inj ((finds r₀ rfl).1.symm.trans found)
    rw [(finds r captures).2, if_pos ⟨hasty, fails⟩]

/-- Rules without an error that aborts hand on to the rules after them. -/
theorem applyRules_front (builtIn : ∀ e ∈ front, e.name ≠ .custom) (captures : r.journal.shadow = r₀.journal.shadow)
    (found : front.mapM (finding h f v r₀) = .ok gs) (goesOn : f.prefs.abortEarly → Finding.errors front gs = []) :
    (applyRules h f (front ++ rest) v errors).exec r =
      (applyRules h f rest v (errors ++ (Finding.errors front gs).map .report)).exec
        (r.warned (Finding.warnings front gs)) := by
  induction front generalizing r gs errors with
  | nil =>
      obtain rfl : [] = gs := by simpa [pure, Except.pure] using found
      simp [Finding.errors, Finding.warnings]
  | cons e front ih =>
      -- The first rule adds warnings and captures nothing, so the findings of the first run stand for the rules after it.
      obtain ⟨here, others⟩ := List.forall_mem_cons.mp builtIn
      obtain ⟨g, gs, rfl, foundHere, foundRest⟩ := mapM_cons_ok found
      have both : Finding.errors (e :: front) (g :: gs) = e.toErrors g ++ Finding.errors front gs := rfl
      simp only [both, List.append_eq_nil_iff] at goesOn
      rw [List.cons_append, finding_step here captures foundHere fun aborts => (goesOn aborts).1,
        ih others (r := r.warned (e.toWarnings g)) captures foundRest fun aborts => (goesOn aborts).2, both]
      simp [Finding.warnings, Run.warned_append]

theorem applyRules_through (builtIn : ∀ e ∈ rules, e.name ≠ .custom) (found : rules.mapM (finding h f v r) = .ok gs)
    (goesOn : f.prefs.abortEarly → Finding.errors rules gs = []) : (applyRules h f rules v errors).exec r =
      (.ok (v, errors ++ (Finding.errors rules gs).map .report), r.warned (Finding.warnings rules gs)) := by
  rw [← List.append_nil rules, applyRules_front builtIn rfl found goesOn, List.append_nil]
  rfl

/-- Either every rule has a finding without an error that aborts, or there is a first one that raises or aborts. -/
theorem findings_reach (h : Hooks) (f : Frame) (v : Value) (r : Run) (rules : List RuleEntry) :
    (∃ gs, rules.mapM (finding h f v r) = .ok gs ∧ (f.prefs.abortEarly → Finding.errors rules gs = [])) ∨
    ∃ front e back gs, rules = front ++ e :: back ∧ front.mapM (finding h f v r) = .ok gs ∧
      (f.prefs.abortEarly → Finding.errors front gs = []) ∧ ((∃ fault, finding h f v r e = .error fault) ∨
        ∃ g, finding h f v r e = .ok g ∧ f.prefs.abortEarly ∧ e.toErrors g ≠ []) := by
  -- A rule that does not stop the run stands before what is known of the rules after it.
  induction rules with
  | nil => exact .inl ⟨[], rfl, fun _ => rfl⟩
  | cons e rules ih =>
      cases found : finding h f v r e with
      | error fault => exact .inr ⟨[], e, rules, [], rfl, rfl, fun _ => rfl, .inl ⟨fault, found⟩⟩
      | ok g =>
          by_cases stops : f.prefs.abortEarly ∧ e.toErrors g ≠ []
          · exact .inr ⟨[], e, rules, [], rfl, rfl, fun _ => rfl, .inr ⟨g, found, stops⟩⟩
          have passes (aborts : f.prefs.abortEarly) : e.toErrors g = [] := by
            by_contra fails
            exact stops ⟨aborts, fails⟩
          have consed {front : List RuleEntry} {gs : List Finding} (rest : front.mapM (finding h f v r) = .ok gs) :
              (e :: front).mapM (finding h f v r) = .ok (g :: gs) := by
            rw [List.mapM_cons, found, rest]
            rfl
          rcases ih with ⟨gs, all, none⟩ | ⟨front, e', back, gs, rfl, all, none, last⟩
          · exact .inl ⟨g :: gs, consed all, fun aborts => List.append_eq_nil_iff.mpr ⟨passes aborts, none aborts⟩⟩
          · exact .inr ⟨e :: front, e', back, g :: gs, rfl, consed all,
              fun aborts => List.append_eq_nil_iff.mpr ⟨passes aborts, none aborts⟩, last⟩

theorem applyRules_stops {e : RuleEntry} {back : List RuleEntry} {g : Finding}
    (builtIn : ∀ q ∈ front ++ e :: back, q.name ≠ .custom) (hasty : f.prefs.abortEarly)
    (found : front.mapM (finding h f v r) = .ok gs) (none : Finding.errors front gs = [])
    (last : finding h f v r e = .ok g) (fails : e.toErrors g ≠ []) :
    (applyRules h f (front ++ e :: back) v errors).exec r =
      (.ok (v, (e.toErrors g).map .report), r.warned (Finding.warnings front gs ++ e.toWarnings g)) := by
  obtain ⟨before, after⟩ := List.forall_mem_append.mp builtIn
  have captures : (r.warned (Finding.warnings front gs)).journal.shadow = r.journal.shadow := rfl
  rw [applyRules_front before rfl found fun _ => none,
    finding_aborts (after e (List.mem_cons_self ..)) captures last hasty fails, Run.warned_append]

theorem applyRules_raises {e : RuleEntry} {back : List RuleEntry} {fault : Fault}
    (builtIn : ∀ q ∈ front ++ e :: back, q.name ≠ .custom) (found : front.mapM (finding h f v r) = .ok gs)
    (goesOn : f.prefs.abortEarly → Finding.errors front gs = []) (last : finding h f v r e = .error fault) :
    ((applyRules h f (front ++ e :: back) v errors).exec r).1 = .error fault := by
  obtain ⟨before, after⟩ := List.forall_mem_append.mp builtIn
  have captures : (r.warned (Finding.warnings front gs)).journal.shadow = r.journal.shadow := rfl
  rw [applyRules_front before rfl found goesOn]
  exact finding_raises (after e (List.mem_cons_self ..)) captures last

/-- What a run that does not abort early leaves: all findings, each in its place. -/
theorem applyRules_patient (builtIn : ∀ e ∈ rules, e.name ≠ .custom) (patient : f.prefs.abortEarly = false)
    (a : Value × List Issue) (s : Run) : (applyRules h f rules v errors).exec r = (.ok a, s) ↔
      ∃ gs, rules.mapM (finding h f v r) = .ok gs ∧ a = (v, errors ++ (Finding.errors rules gs).map .report) ∧
        s = r.warned (Finding.warnings rules gs) := by
  constructor
  · intro ran
    rcases findings_reach h f v r rules with ⟨gs, found, goesOn⟩ | ⟨front, e, back, gs, rfl, found, goesOn, last⟩
    · rw [applyRules_through builtIn found goesOn] at ran
      obtain ⟨outcome, run⟩ := Prod.mk.inj ran
      exact ⟨gs, found, (Except.ok.inj outcome).symm, run.symm⟩
    · rcases last with ⟨fault, last⟩ | ⟨g, -, hasty, -⟩
      · have raises := congrArg Prod.fst ran
        simp [applyRules_raises builtIn found goesOn last] at raises
      · simp [patient] at hasty
  · rintro ⟨gs, found, rfl, rfl⟩
    exact applyRules_through builtIn found fun hasty => by simp [patient] at hasty

/-- What a run that aborts early leaves: no error, or those of the first failing rule without a mark, whatever follows. -/
theorem applyRules_hasty (builtIn : ∀ e ∈ rules, e.name ≠ .custom) (hasty : f.prefs.abortEarly)
    (a : Value × List Issue) (s : Run) : (applyRules h f rules v errors).exec r = (.ok a, s) ↔
      (∃ gs, rules.mapM (finding h f v r) = .ok gs ∧ Finding.errors rules gs = [] ∧ a = (v, errors) ∧
        s = r.warned (Finding.warnings rules gs)) ∨
      ∃ front e back gs g, rules = front ++ e :: back ∧ front.mapM (finding h f v r) = .ok gs ∧
        Finding.errors front gs = [] ∧ finding h f v r e = .ok g ∧ e.toErrors g ≠ [] ∧
        a = (v, (e.toErrors g).map .report) ∧ s = r.warned (Finding.warnings front gs ++ e.toWarnings g) := by
  constructor
  · intro ran
    rcases findings_reach h f v r rules with ⟨gs, found, goesOn⟩ | ⟨front, e, back, gs, rfl, found, goesOn, last⟩
    · rw [applyRules_through builtIn found goesOn, goesOn hasty] at ran
      obtain ⟨outcome, run⟩ := Prod.mk.inj ran
      exact .inl ⟨gs, found, goesOn hasty, by simpa using (Except.ok.inj outcome).symm, run.symm⟩
    · rcases last with ⟨fault, last⟩ | ⟨g, last, -, fails⟩
      · have raises := congrArg Prod.fst ran
        simp [applyRules_raises builtIn found goesOn last] at raises
      · rw [applyRules_stops builtIn hasty found (goesOn hasty) last fails] at ran
        obtain ⟨outcome, run⟩ := Prod.mk.inj ran
        exact .inr ⟨front, e, back, gs, g, rfl, found, goesOn hasty, last, fails, (Except.ok.inj outcome).symm, run.symm⟩
  · rintro (⟨gs, found, none, rfl, rfl⟩ | ⟨front, e, back, gs, g, rfl, found, none, last, fails, rfl, rfl⟩)
    · rw [applyRules_through builtIn found fun _ => none, none]
      simp
    · exact applyRules_stops builtIn hasty found none last fails

/-! ## Other marks -/

/-- Warnings and errors together are the findings, whatever the marks. -/
theorem routes_perm {find : RuleEntry → Except Fault Finding} (found : rules.mapM find = .ok gs) :
    (Finding.warnings rules gs ++ Finding.errors rules gs).Perm (gs.flatMap fun g => g.noted ++ g.failed) := by
  induction rules generalizing gs with
  | nil =>
      obtain rfl : [] = gs := by simpa [pure, Except.pure] using found
      exact .nil
  | cons e rules ih =>
      obtain ⟨g, gs, rfl, -, rest⟩ := mapM_cons_ok found
      have apart : (Finding.warnings (e :: rules) (g :: gs) ++ Finding.errors (e :: rules) (g :: gs)).Perm
          (e.toWarnings g ++ e.toErrors g ++ (Finding.warnings rules gs ++ Finding.errors rules gs)) := by
        simp only [Finding.warnings, Finding.errors, List.zip_cons_cons, List.flatMap_cons, List.append_assoc]
        exact (List.perm_append_comm_assoc _ _ _).append_left _
      exact apart.trans ((e.routes_perm g).append (ih rest))

theorem errors_ne_nil {find : RuleEntry → Except Fault Finding} (found : rules.mapM find = .ok gs) :
    Finding.errors rules gs ≠ [] ↔ ∃ e ∈ rules, ¬ e.warn.truthy ∧ ∃ g, find e = .ok g ∧ g.failed ≠ [] := by
  induction rules generalizing gs with
  | nil =>
      obtain rfl : [] = gs := by simpa [pure, Except.pure] using found
      simp [Finding.errors]
  | cons e rules ih =>
      obtain ⟨g, gs, rfl, here, rest⟩ := mapM_cons_ok found
      have both : Finding.errors (e :: rules) (g :: gs) = e.toErrors g ++ Finding.errors rules gs := rfl
      rw [both, Ne, List.append_eq_nil_iff, not_and_or, ← Ne, ← Ne, ih rest, RuleEntry.toErrors_ne_nil]
      simp [here]

theorem mapM_alike {rules' : List RuleEntry} (alike : rules'.map RuleEntry.unmarked = rules.map RuleEntry.unmarked) :
    rules'.mapM (finding h f v r) = rules.mapM (finding h f v r) := by
  have same (rules : List RuleEntry) :
      rules.mapM (finding h f v r) = (rules.map RuleEntry.unmarked).mapM (finding h f v r) := by
    rw [List.mapM_map]
    rfl
  rw [same rules', same rules, alike]

/-- Marks on built-in rules say where reports go. A run that does not abort early hands every finding on in its place,
and with other marks it has the same value and the same reports altogether. A run that aborts early goes as far as the
first failing rule without a mark. So a run fails exactly if a rule without a mark does. -/
theorem marks_reroute (builtIn : ∀ e ∈ rules, e.name ≠ .custom) (h : Hooks) (f : Frame) (v : Value) (r : Run) :
    let find := finding h f v r
    let ran (rules : List RuleEntry) (errors : List Issue) := (applyRules h f rules v errors).exec r
    (f.prefs.abortEarly = false → ∀ errors a s, ran rules errors = (.ok a, s) ↔
      ∃ gs, rules.mapM find = .ok gs ∧ a = (v, errors ++ (Finding.errors rules gs).map .report) ∧
        s = r.warned (Finding.warnings rules gs)) ∧
    (f.prefs.abortEarly = false → ∀ rules', rules'.map RuleEntry.unmarked = rules.map RuleEntry.unmarked →
      ∀ errors w es s, ran rules errors = (.ok (w, es), s) → ∃ es' s', ran rules' errors = (.ok (w, es'), s') ∧
        (s'.journal.warnings.map Issue.report ++ es').Perm (s.journal.warnings.map Issue.report ++ es)) ∧
    (f.prefs.abortEarly → ∀ errors a s, ran rules errors = (.ok a, s) ↔
      (∃ gs, rules.mapM find = .ok gs ∧ Finding.errors rules gs = [] ∧ a = (v, errors) ∧
        s = r.warned (Finding.warnings rules gs)) ∨
      ∃ front e back gs g, rules = front ++ e :: back ∧ front.mapM find = .ok gs ∧ Finding.errors front gs = [] ∧
        find e = .ok g ∧ e.toErrors g ≠ [] ∧ a = (v, (e.toErrors g).map .report) ∧
        s = r.warned (Finding.warnings front gs ++ e.toWarnings g)) ∧
    (∀ w es s, ran rules [] = (.ok (w, es), s) →
      (es ≠ [] ↔ ∃ e ∈ rules, ¬ e.warn.truthy ∧ ∃ g, find e = .ok g ∧ g.failed ≠ [])) := by
  intro find ran
  refine ⟨fun patient errors => applyRules_patient builtIn patient, fun patient rules' alike errors w es s answered => ?_,
    fun hasty errors => applyRules_hasty builtIn hasty, fun w es s answered => ?_⟩
  · have builtIn' : ∀ e ∈ rules', e.name ≠ .custom := by
      intro e member
      have listed : e.unmarked ∈ rules.map RuleEntry.unmarked := alike ▸ List.mem_map_of_mem member
      obtain ⟨q, known, same⟩ := List.mem_map.mp listed
      have name : q.unmarked.name = e.unmarked.name := congrArg RuleEntry.name same
      exact name ▸ builtIn q known
    obtain ⟨gs, found, same, rfl⟩ := (applyRules_patient builtIn patient _ _).mp answered
    obtain ⟨rfl, rfl⟩ := Prod.mk.inj same
    have found' := (mapM_alike alike).trans found
    refine ⟨_, _, (applyRules_patient builtIn' patient _ _).mpr ⟨gs, found', rfl, rfl⟩, ?_⟩
    -- Both runs start from the same warnings and errors, and what they add is the same findings in two orders.
    have union := ((routes_perm found').trans (routes_perm found).symm).map Issue.report
    rw [List.map_append, List.map_append] at union
    simp only [Run.warned, Run.journal_onJournal, List.map_append, List.append_assoc]
    refine .append_left _ ?_
    exact (List.perm_append_comm_assoc _ _ _).trans ((union.append_left _).trans (List.perm_append_comm_assoc _ _ _).symm)
  · cases hasty : f.prefs.abortEarly with
    | false =>
        obtain ⟨gs, found, same, -⟩ := (applyRules_patient builtIn hasty _ _).mp answered
        obtain ⟨rfl, rfl⟩ := Prod.mk.inj same
        rw [← errors_ne_nil found]
        simp
    | true =>
        rcases (applyRules_hasty builtIn hasty _ _).mp answered with ⟨gs, found, none, same, -⟩ |
          ⟨front, e, back, gs, g, rfl, found, none, last, fails, same, -⟩
        · obtain ⟨rfl, rfl⟩ := Prod.mk.inj same
          rw [← errors_ne_nil found]
          simp [none]
        · obtain ⟨rfl, rfl⟩ := Prod.mk.inj same
          obtain ⟨unmarked, failed⟩ := RuleEntry.toErrors_ne_nil.mp fails
          exact iff_of_true (by simpa using fails) ⟨e, by simp, unmarked, g, last, failed⟩

end Node

/-- A warning marks the last rule of a node, and changes nothing else about its rules. -/
theorem Schema.rule_marks {s s' : Schema} (warned : s.rule (.bool true) .null = .ok s') :
    ∃ front e, s.core.rules = front ++ [e] ∧ s'.core.rules = front ++ [{ e with warn := .bool true }] := by
  unfold Schema.rule Schema.change Schema.change? at warned
  obtain ⟨_, nonempty, changed⟩ := bind_eq_ok.mp warned
  obtain ⟨c, renews, changed⟩ := bind_eq_ok.mp changed
  obtain ⟨c', amended, changed⟩ := bind_eq_ok.mp changed
  obtain rfl := Except.ok.inj changed
  obtain rfl := Except.ok.inj amended
  have same : c.rules = s.core.rules := (Core.renewed_agrees _ c renews).rules
  rcases List.eq_nil_or_concat s.core.rules with none | ⟨front, e, ends⟩
  · simp [none, require] at nonempty
  · rw [List.concat_eq_append] at ends
    have last : c.rules = front ++ [e] := same.trans ends
    refine ⟨front, e, ends, ?_⟩
    simp only [Schema.core, last, List.getLast?_concat, List.dropLast_concat]
    rfl

/-! ## At least five and a multiple of three -/

def fiveAndThrees (warn : Value) : List RuleEntry :=
  [⟨.min, [("limit", .int 5)], [], warn, .null⟩, ⟨.multiple, [("base", .int 3)], [], warn, .null⟩]

def twoFrame : Frame := ⟨.number, none, {}, { abortEarly := false }, .int 2, .int 2⟩

/-- Two is neither: two errors without marks, and with them two warnings. -/
theorem two_rerouted : ∃ es s s',
    (Node.applyRules Hooks.idle twoFrame (fiveAndThrees (.bool false)) (.int 2) []).exec {} = (.ok (.int 2, es), s) ∧
    (Node.applyRules Hooks.idle twoFrame (fiveAndThrees (.bool true)) (.int 2) []).exec {} = (.ok (.int 2, []), s') ∧
    es ≠ [] ∧ s'.journal.warnings.length = 2 := by
  have builtIn : ∀ e ∈ fiveAndThrees (.bool false), e.name ≠ .custom := by decide
  obtain ⟨-, union, -, fails⟩ := Node.marks_reroute builtIn Hooks.idle twoFrame (.int 2) {}
  obtain ⟨es', s', answered, perm⟩ := union rfl (fiveAndThrees (.bool true)) rfl [] _ _ _ rfl
  obtain rfl : [] = es' := congrArg Prod.snd (Except.ok.inj (congrArg Prod.fst answered))
  rw [List.append_nil] at perm
  refine ⟨_, _, s', rfl, answered, ?_, ?_⟩
  · refine (fails _ _ _ rfl).mpr ⟨_, List.mem_cons_self .., by decide, _, rfl, ?_⟩
    exact List.cons_ne_nil _ _
  · exact (List.length_map ..).symm.trans perm.length_eq

end Conform
