import Conform.Proofs.Validation.Containers

/-!
# Alternatives on two sides

Attempts, dispatch by a subject and counting run alike where the schemas of the entries do.
-/

namespace Conform.Alternatives

variable {B : Bounds} {ε : Effects} {h : Hooks} {f f' : Frame}

/-- The schema that a branch leads to, on both sides or on none. -/
def OptionAt (B : Bounds) (ε : Effects) (path : Path) (p : Preferences) : Option Evaluator → Option Evaluator → Prop
  | none, none => True
  | some e, some e' => B.EvaluatorsAt ε path p e e'
  | _, _ => False

/-- A branch on both sides; its test leaves no trace. -/
structure BranchIn (B : Bounds) (ε : Effects) (path : Path) (p : Preferences) (b b' : BranchCheck) : Prop where
  test : B.EvaluatorsAt .all path p.forMatching b.test b'.test
  onMatch : OptionAt B ε path p b.onMatch b'.onMatch
  onMiss : OptionAt B ε path p b.onMiss b'.onMiss

inductive EntryIn (B : Bounds) (ε : Effects) (h : Hooks) (path : Path) (p : Preferences) :
    AlternativeCheck → AlternativeCheck → Prop
  | attempt {e e' : Evaluator} (alike : B.EvaluatorsAt ε path p e e') :
      EntryIn B ε h path p (.attempt e) (.attempt e')
  | conditional {subject : Option Reference} {bs bs' : List BranchCheck}
      (resolves : ∀ r, subject = some r → B.ResolvesIn h r)
      (branches : List.Forall₂ (BranchIn B ε path p) bs bs') :
      EntryIn B ε h path p (.conditional subject bs) (.conditional subject bs')

/-- One failure made of several stays within bounds. -/
def Consolidates (B : Bounds) : Prop :=
  ∀ f is, B.prefs f.prefs → B.Issues is → B.Meets B.Issues (consolidate f is)

def isAttempt : AlternativeCheck → Prop
  | .attempt _ => True
  | .conditional .. => False

theorem count_alike (frames : B.Frames f f') {es es' : List AlternativeCheck}
    (alike : List.Forall₂ (EntryIn B ε h f.site.path f.prefs.plain) es es')
    (counted : (∀ e ∈ es, isAttempt e) ∨ B.fault (.noMethod "schema")) {v : Value} (value : B.value v)
    {acc : Nat × Value} (start : B.value acc.2) :
    Alike B ε (fun o => B.value o.2) (count f v es acc) (count f' v es' acc) := by
  induction alike generalizing acc with
  | nil => exact Alike.pure start
  | @cons e e' es es' head _ ih =>
      have rest : (∀ e ∈ es, isAttempt e) ∨ B.fault (.noMethod "schema") :=
        counted.imp_left fun each q member => each q (by simp [member])
      cases head with
      | attempt alike =>
          rw [count, count]
          refine (alike v _ _ _ _ value frames.site frames.prefs rfl rfl).bind fun r bounded => ?_
          apply ih rest
          split
          · exact bounded.value
          · exact start
      | conditional =>
          rcases counted with each | expected
          · exact (each _ (List.mem_cons_self ..)).elim
          · exact Alike.throw expected

theorem byMode_alike (frames : B.Frames f f') (laws : B.Lawful) (mode : MatchMode)
    {es es' : List AlternativeCheck}
    (alike : List.Forall₂ (EntryIn B ε h f.site.path f.prefs.plain) es es')
    (counted : (∀ e ∈ es, isAttempt e) ∨ B.fault (.noMethod "schema")) {v : Value} (value : B.value v) :
    Alike B ε (B.OutcomeOf fun _ => True) (byMode mode es f v) (byMode mode es' f' v) := by
  have failed : ∀ code, B.OutcomeOf (fun _ => True) (.failed v [f.fail code []]) :=
    fun code => Bounds.failed_in frames laws _ value code
  have accepted : ∀ w, B.value w → B.OutcomeOf (fun _ => True) ⟨w, []⟩ :=
    fun w isIn => ⟨isIn, Bounds.issues_nil, fun _ => trivial⟩
  unfold byMode
  refine (count_alike frames alike counted value laws.undefined).bind fun o matched => ?_
  obtain ⟨hits, w⟩ := o
  simp only [frames.fail_eq, ← alike.length_eq]
  split
  · exact Alike.pure (failed _)
  · cases mode with
    | one =>
        simp only
        split
        · exact Alike.pure (accepted w matched)
        · exact Alike.pure (failed _)
    | all =>
        simp only
        split
        · exact Alike.pure (accepted v value)
        · exact Alike.pure (failed _)

theorem failedTypes?_eq {s s' : Site} (path : s'.path = s.path) (is : List Issue) :
    failedTypes? s' is = failedTypes? s is := by
  have one : ∀ i, failedType? s' i = failedType? s i := by
    intro i
    unfold failedType?
    rw [path]
  induction is with
  | nil => rfl
  | cons i is ih => rw [failedTypes?, failedTypes?, one i, ih]

theorem consolidate_eq (frames : B.Frames f f') (is : List Issue) :
    consolidate f' is = consolidate f is := by
  unfold consolidate
  simp only [frames.fail_eq, failedTypes?_eq frames.site.path]

theorem choose_alike (frames : B.Frames f f') (laws : B.Lawful) {bs bs' : List BranchCheck}
    (alike : List.Forall₂ (BranchIn B ε f.site.path f.prefs.plain) bs bs') {subject : Value}
    (value : B.value subject) {x y : Option Evaluator → Eval Outcome} {Q : Outcome → Prop}
    (then_ : ∀ o o', OptionAt B ε f.site.path f.prefs.plain o o' → Alike B ε Q (x o) (y o')) :
    Alike B ε Q (choose f subject bs >>= x) (choose f' subject bs' >>= y) := by
  induction alike with
  | nil =>
      rw [choose, choose, pure_bind, pure_bind]
      exact then_ none none trivial
  | @cons b b' bs bs' head _ ih =>
      have tested := head.test subject _ _ _ _ value frames.site (frames.prefs.matching laws) rfl rfl
      rw [choose, choose, bind_assoc, bind_assoc]
      refine (Bounds.Frames.accepts tested).bind fun passes _ => ?_
      have chosen : OptionAt B ε f.site.path f.prefs.plain (if passes then b.onMatch else b.onMiss)
          (if passes then b'.onMatch else b'.onMiss) := by
        cases passes with
        | true => exact head.onMatch
        | false => exact head.onMiss
      generalize (if passes then b.onMatch else b.onMiss) = o at chosen
      generalize (if passes then b'.onMatch else b'.onMiss) = o' at chosen
      cases o with
      | none =>
          cases o' with
          | none => exact ih
          | some _ => exact chosen.elim
      | some e =>
          cases o' with
          | none => exact chosen.elim
          | some e' => exact then_ (some e) (some e') chosen

theorem subjectOf_alike (frames : B.Frames f f') (laws : B.Lawful) {subject : Option Reference}
    (resolves : ∀ r, subject = some r → B.ResolvesIn h r) {v : Value} (value : B.value v) :
    Alike B ε B.value (subjectOf h f v subject) (subjectOf h f' v subject) := by
  cases subject with
  | none => exact Alike.pure value
  | some r => exact frames.resolve laws (resolves r rfl) value

theorem first_alike (frames : B.Frames f f') (laws : B.Lawful) (consolidates : Consolidates B)
    {es es' : List AlternativeCheck}
    (alike : List.Forall₂ (EntryIn B ε h f.site.path f.prefs.plain) es es') {v : Value}
    (value : B.value v) {issues : List Issue} (bounded : B.Issues issues) :
    Alike B ε (B.OutcomeOf fun _ => True) (first h f v es issues) (first h f' v es' issues) := by
  induction alike generalizing issues with
  | nil =>
      rw [first, first, consolidate_eq frames]
      exact (Alike.lift (consolidates f issues frames.prefs.left bounded)).bind fun is isIn =>
        Alike.pure ⟨value, isIn, fun _ => trivial⟩
  | @cons e e' es es' head _ ih =>
      cases head with
      | attempt alike =>
          rw [first, first]
          refine (alike v _ _ _ _ value frames.site frames.prefs rfl rfl).bind fun r result => ?_
          split
          · exact Alike.pure ⟨result.value, Bounds.issues_nil, fun _ => trivial⟩
          · exact ih (bounded.append result.errors)
      | conditional resolves branches =>
          rw [first, first]
          refine (subjectOf_alike frames laws resolves value).bind fun subject isIn => ?_
          refine choose_alike frames laws branches isIn fun o o' chosen => ?_
          cases o with
          | none =>
              cases o' with
              | none => exact ih bounded
              | some _ => exact chosen.elim
          | some e =>
              cases o' with
              | none => exact chosen.elim
              | some e' =>
                  exact (chosen v _ _ _ _ value frames.site frames.prefs rfl rfl).bind fun r result =>
                    Alike.pure ⟨result.value, result.errors, fun _ => trivial⟩

theorem base_alike (frames : B.Frames f f') (laws : B.Lawful) (consolidates : Consolidates B)
    (mode : Option MatchMode) {es es' : List AlternativeCheck}
    (alike : List.Forall₂ (EntryIn B ε h f.site.path f.prefs.plain) es es')
    (counted : mode.isSome → (∀ e ∈ es, isAttempt e) ∨ B.fault (.noMethod "schema")) {v : Value}
    (value : B.value v) :
    Alike B ε (B.BaseIn (fun _ => True) v) (base h mode es f v) (base h mode es' f' v) := by
  unfold base
  cases mode with
  | none =>
      exact (first_alike frames laws consolidates alike value Bounds.issues_nil).bind fun o bounded =>
        Alike.pure bounded.base
  | some m =>
      exact (byMode_alike frames laws m alike (counted rfl) value).bind fun o bounded =>
        Alike.pure bounded.base

end Conform.Alternatives
