import Conform.Proofs.Schema.Formed
import Conform.Proofs.Validation.Entry

/-!
# Validations that accept

A validation accepts with the value that its evaluation accepts with, if no hook is queued and its warnings can be
shown where they are asked for.
-/

namespace Conform

variable {h : Hooks} {s : Schema} {v w : Value} {p : Preferences} {options : Dict} {warning : Option Warning}
  {r r' : Run}

namespace Validation

open Run

theorem failureOf_eq_none {issues : List Issue} : failureOf issues v = .ok none ↔ issues = [] := by
  constructor
  · intro accepted
    cases issues with
    | nil => rfl
    | cons i is =>
        unfold failureOf at accepted
        simp only [List.isEmpty_cons, Bool.false_eq_true, if_false] at accepted
        split at accepted
        · cases accepted
        · cases rendered : Issue.details (i :: is) with
          | error f => simp [rendered, bind, Except.bind] at accepted
          | ok details => simp [rendered, bind, Except.bind, pure, Except.pure] at accepted
  · rintro rfl
    rfl

/-- An answer accepts if its result does, no hook is queued and the warnings can be shown. -/
theorem conclude_accepts {result : Result} {j : Journal Pending Report} : conclude v result j = .ok ⟨w, none, warning⟩ ↔
    result = ⟨w, []⟩ ∧ j.externals = [] ∧ warningOf j.warnings = .ok warning := by
  constructor
  · intro concluded
    obtain ⟨failure, failed, concluded⟩ := bind_eq_ok.mp concluded
    obtain ⟨_, required, concluded⟩ := bind_eq_ok.mp concluded
    obtain ⟨shown, rendered, concluded⟩ := bind_eq_ok.mp concluded
    cases concluded
    refine ⟨congrArg (Result.mk result.value) (failureOf_eq_none.mp failed), ?_, rendered⟩
    unfold require at required
    split at required
    · rename_i hookless
      exact List.isEmpty_iff.mp hookless
    · cases required
  · rintro ⟨rfl, hookless, rendered⟩
    unfold conclude
    rw [failureOf_eq_none.mpr rfl, hookless, rendered]
    rfl

theorem pass_accepts {result : Result} : (pass h s v p).exec r = (.ok (result, none), r') ↔
    (s.eval h v {} p).exec (fresh r) = (.ok result, r') ∧ result.errors = [] := by
  rw [exec_pass]
  rcases (s.eval h v {} p).exec (fresh r) with ⟨f | found, after⟩
  · simp
  · constructor
    · intro passed
      obtain ⟨mapped, rfl⟩ := Prod.mk.inj passed
      cases failed : failureOf found.errors v with
      | error f =>
          rw [failed] at mapped
          cases mapped
      | ok failure =>
          rw [failed] at mapped
          cases mapped
          exact ⟨rfl, failureOf_eq_none.mp failed⟩
    · rintro ⟨same, clean⟩
      cases same
      simp only
      rw [failureOf_eq_none.mpr clean]
      rfl

theorem validate_accepts (accepted : chosen options = .ok p) :
    (validate h s v options).exec r = (.ok ⟨w, none, warning⟩, r') ↔
      (s.eval h v {} p).exec (fresh r) = (.ok ⟨w, []⟩, r') ∧ r'.journal.externals = [] ∧
        warningOf r'.journal.warnings = .ok warning := by
  rw [exec_validate, accepted]
  simp only
  rcases (s.eval h v {} p).exec (fresh r) with ⟨f | result, after⟩
  · simp
  · constructor
    · intro ran
      obtain ⟨concluded, rfl⟩ := Prod.mk.inj ran
      obtain ⟨rfl, answered⟩ := conclude_accepts.mp concluded
      exact ⟨rfl, answered⟩
    · rintro ⟨same, answered⟩
      cases same
      exact Prod.ext (conclude_accepts.mpr ⟨rfl, answered⟩) rfl

theorem afterwards_accepts {result : Result} {after : Run} (hookless : after.journal.externals = []) :
    (afterwards h p result after.journal).exec after = (.ok ⟨w, none, warning⟩, r') ↔
      after = r' ∧ result.value = w ∧
        if p.warnings then warningOf r'.journal.warnings = .ok warning else warning = none := by
  unfold afterwards
  rw [hookless, List.foldlM_nil, pure_bind]
  by_cases asked : p.warnings
  · simp only [asked, if_true]
    rw [Eval.exec_bind, Eval.exec_lift]
    constructor
    · intro answered
      cases rendered : warningOf after.journal.warnings with
      | error f =>
          rw [rendered] at answered
          cases answered
      | ok shown =>
          rw [rendered] at answered
          cases answered
          exact ⟨rfl, rfl, rendered⟩
    · rintro ⟨rfl, rfl, rendered⟩
      rw [rendered]
      rfl
  · simp only [asked]
    constructor
    · intro answered
      cases answered
      exact ⟨rfl, rfl, rfl⟩
    · rintro ⟨rfl, rfl, rfl⟩
      rfl

/-- Here warnings are shown only if they are asked for. -/
theorem validateWithHooks_accepts (merged : ({} : Preferences).merge options = .ok p)
    (hookless : ∀ result after, (s.eval h v {} p).exec (fresh r) = (.ok result, after) → after.journal.externals = []) :
    (validateWithHooks h s v options).exec r = (.ok ⟨w, none, warning⟩, r') ↔
      (s.eval h v {} p).exec (fresh r) = (.ok ⟨w, []⟩, r') ∧
        if p.warnings then warningOf r'.journal.warnings = .ok warning else warning = none := by
  constructor
  · intro ran
    have opened := ran
    unfold validateWithHooks at opened
    rw [merged, Eval.lift_ok_bind] at opened
    obtain ⟨⟨result, failure⟩, after, passed, rest⟩ := Eval.bind_ok opened
    cases failure with
    | some f => cases rest
    | none =>
        obtain ⟨evaluated, clean⟩ := pass_accepts.mp passed
        rw [exec_validateWithHooks h s v options merged evaluated clean] at ran
        obtain ⟨rfl, rfl, shown⟩ := (afterwards_accepts (hookless result after evaluated)).mp ran
        exact ⟨evaluated.trans (by rw [← clean]), shown⟩
  · rintro ⟨evaluated, shown⟩
    rw [exec_validateWithHooks h s v options merged evaluated rfl]
    exact (afterwards_accepts (hookless _ _ evaluated)).mpr ⟨rfl, rfl, shown⟩

end Validation

end Conform
