import Conform.Proofs.Validation.Stages
import Conform.Validation.Entry

/-!
# What comes to a base check

On the way to its base check a node changes texts and numbers, and takes what counts as empty as absent. A dictionary
or a list comes there as it was given.
-/

namespace Conform

open Validation (isReplaceable)

namespace Node

variable {n : Node} {f : Frame} {v w : Value} {es : List Issue}

theorem prepare_scalar {kind : Kind} (prepared : prepare kind f v = some ⟨w, []⟩) : isReplaceable w = false := by
  unfold prepare at prepared
  split at prepared
  · split at prepared
    · cases prepared
    · cases prepared
      rfl
    · cases prepared
  · cases prepared

theorem coerce_scalar {core : Core} {content : Content} (coerced : coerce core content f v = some ⟨w, []⟩) :
    isReplaceable w = false := by
  cases content with
  | number =>
      cases v with
      | str s => 
          obtain ⟨number, _, rfl⟩ : ∃ number, Number.read? s = some number ∧ _ = w := by
            simpa [coerce, coerceNumber] using coerced
          cases number <;> rfl
      | _ => cases coerced
  | string => 
      cases v with
      | str s =>
          cases coerced
          rfl
      | _ => cases coerced
  | boolean truthy falsy =>
      obtain ⟨u, read, same⟩ := Option.map_eq_some_iff.mp coerced
      cases same
      cases v with
      | str | int | float =>
          obtain ⟨b, -, rfl⟩ := Option.map_eq_some_iff.mp read
          rfl
      | _ => cases read
  | probe =>
      cases v with
      | str s =>
          simp only [coerce, coerceProbe] at coerced
          split at coerced <;> cases coerced
      | int n =>
          cases coerced
          rfl
      | _ => cases coerced
  | _ => cases coerced

theorem trimmed_container {core : Core} (container : isReplaceable (trimmed core w)) : trimmed core w = w := by
  cases w <;> try rfl
  revert container
  unfold trimmed
  split
  · split
    · intro container
      cases container
    · exact fun _ => rfl
  · exact fun _ => rfl

theorem convertStep_container {step : Value → Option Outcome}
    (scalar : ∀ w, step v = some ⟨w, []⟩ → isReplaceable w = false) (converted : convertStep f step v = .goOn w es)
    (container : isReplaceable w) : w = v := by
  unfold convertStep at converted
  split at converted
  · cases converted
    rfl
  · split at converted
    · cases converted
      rfl
    · rename_i stepped
      cases converted
      rw [scalar w stepped] at container
      cases container
    · cases converted

theorem convert_idle (prepares : prepare f.kind f v = none) (coerces : coerce n.core n.content f v = none) :
    n.convert f v = .goOn v [] := by
  have idle : ∀ {step : Value → Option Outcome}, step v = none → convertStep f step v = .goOn v [] := by
    intro step none
    unfold convertStep
    rw [none]
    split <;> rfl
  unfold convert
  rw [idle prepares]
  exact idle coerces

theorem convert_container (converted : n.convert f v = .goOn w es) (container : isReplaceable w) : w = v := by
  unfold convert at converted
  split at converted
  · cases converted
  · rename_i u _ prepared
    obtain rfl := convertStep_container (fun _ => coerce_scalar) converted container
    exact convertStep_container (fun _ => prepare_scalar) prepared container

variable {h : Hooks} {core : Core} {r r' : Run}

theorem checkAllowed_goOn (ran : (checkAllowed h core f v).exec r = (.ok (.goOn w es), r')) : w = v := by
  unfold checkAllowed at ran
  split at ran
  · cases ran
    rfl
  · obtain ⟨found, r₁, -, ran⟩ := Eval.bind_ok ran
    split at ran
    · cases ran
    · split at ran
      · cases aborts : f.prefs.abortEarly
        all_goals
          simp only [aborts] at ran
          cases ran
        rfl
      · cases ran
        rfl

theorem checkDenied_goOn {errors : List Issue} (ran : (checkDenied h core f v errors).exec r = (.ok (.goOn w es), r')) :
    w = v := by
  unfold checkDenied at ran
  split at ran
  · cases ran
    rfl
  · obtain ⟨found, r₁, -, ran⟩ := Eval.bind_ok ran
    split at ran
    · cases ran
      rfl
    · cases aborts : f.prefs.abortEarly
      all_goals
        simp only [aborts] at ran
        cases ran
      rfl

theorem vetted_goOn (ran : (vetted h n f v).exec r = (.ok (.goOn w es), r')) : w = v := by
  obtain ⟨verdict, r₁, allowed, denied⟩ := Eval.bind_ok ran
  cases verdict with
  | finished u errors => cases denied
  | goOn u errors =>
      obtain rfl := checkAllowed_goOn allowed
      exact checkDenied_goOn denied

theorem emptied_value {u : Value} (ran : (emptied n f v).exec r = (.ok u, r')) : u = .undefined ∨ u = v := by
  unfold emptied at ran
  split at ran
  · cases ran
    exact .inr rfl
  · obtain ⟨accepted, r₁, -, ran⟩ := Eval.bind_ok ran
    cases accepted with
    | true =>
        cases ran
        exact .inl rfl
    | false =>
        cases ran
        exact .inr rfl

/-- A base check comes to what the node makes of its input, or a deep default puts a dictionary in place of an absent
value. -/
theorem approach_goOn (ran : (approach h n f).exec r = (.ok (.goOn w es), r')) : ∃ v is u s,
    n.convert f f.given = .goOn v is ∧ (emptied n f v).exec r = (.ok u, s) ∧
      (w = u ∨ isDeep n.core.default ∧ u = .undefined ∧ w = .dict []) := by
  unfold approach at ran
  split at ran
  · cases ran
  rename_i v is converted
  obtain ⟨u, s, emptied, ran⟩ := Eval.bind_ok ran
  refine ⟨v, is, u, s, converted, emptied, ?_⟩
  unfold approachPresence at ran
  split at ran
  · rename_i absent
    have none : u = .undefined := by
      cases u <;> first | rfl | cases absent
    split at ran
    · cases ran
    · cases ran
    · split at ran
      · rename_i deep
        exact .inr ⟨deep, none, vetted_goOn ran⟩
      · cases ran
    · exact .inl (vetted_goOn ran)
  · split at ran
    · cases ran
    · exact .inl (vetted_goOn ran)

theorem approach_value (undeep : isDeep n.core.default = false)
    (ran : (approach h n f).exec r = (.ok (.goOn w es), r')) : w = .undefined ∨ ∃ is, n.convert f f.given = .goOn w is := by
  obtain ⟨v, is, u, s, converted, emptied, rfl | ⟨deep, -⟩⟩ := approach_goOn ran
  · rcases emptied_value emptied with rfl | rfl
    · exact .inl rfl
    · exact .inr ⟨is, converted⟩
  · simp [undeep] at deep

theorem approach_container (undeep : isDeep n.core.default = false)
    (ran : (approach h n f).exec r = (.ok (.goOn w es), r')) (container : isReplaceable w) : w = f.given := by
  rcases approach_value undeep ran with rfl | ⟨is, converted⟩
  · cases container
  · exact convert_container converted container

end Node
end Conform
