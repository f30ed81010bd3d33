import Conform.Proofs.Schema.Alike

/-!
# What the base checks of scalars let through

A base check leaves a value as it is, or reports one failure of it.
-/

namespace Conform

variable {f : Frame} {v : Value} {o : Option Outcome}

/-- The value is left alone, or refused under a code. -/
def Kept (f : Frame) (v : Value) (o : Option Outcome) : Prop :=
  o = none ∨ ∃ code, o = some (.failed v [f.fail code []])

theorem baseNumber_refused (checked : baseNumber f v = .ok o) :
    o = none ∨ ∃ code, o = some (.failed v [f.fail code []]) ∧ code ≠ "alternatives.match" := by
  unfold baseNumber at checked
  cases number : Datum.isNumber v with
  | error fault => simp [number, bind, Except.bind] at checked
  | ok isNumber =>
      cases isNumber with
      | false =>
          have refused : some (Outcome.failed v [f.fail "number.base" []]) = o := by
            simpa [number, bind, Except.bind, pure, Except.pure] using checked
          exact .inr ⟨_, refused.symm, by decide⟩
      | true =>
          simp only [number, bind, Except.bind, pure, Except.pure, Bool.not_true, Bool.false_eq_true,
            if_false] at checked
          split at checked
          · exact .inr ⟨_, (Except.ok.inj checked).symm, by decide⟩
          · exact .inl (Except.ok.inj checked).symm

namespace Content

theorem leaf_refused {content : Content} (checked : content.leaf f v = .ok o) :
    o = none ∨ ∃ code, o = some (.failed v [f.fail code []]) ∧ code ≠ "alternatives.match" := by
  cases content with
  | number => exact baseNumber_refused checked
  | any | array | object | alternatives =>
      obtain rfl := Except.ok.inj checked
      exact .inl rfl
  | boolean truthy falsy =>
      obtain rfl := Except.ok.inj checked
      unfold baseBoolean
      split
      · exact .inl rfl
      · exact .inr ⟨_, rfl, by decide⟩
  | probe =>
      obtain rfl := Except.ok.inj checked
      unfold baseProbe
      split
      · exact .inl rfl
      · exact .inr ⟨_, rfl, by decide⟩
  | string =>
      obtain rfl := Except.ok.inj checked
      unfold baseString
      split
      · exact .inr ⟨_, rfl, by decide⟩
      · exact .inl rfl
      · exact .inr ⟨_, rfl, by decide⟩

theorem leaf_kept {content : Content} (checked : content.leaf f v = .ok o) : Kept f v o := by
  rcases leaf_refused checked with none | ⟨code, refused, -⟩
  · exact .inl none
  · exact .inr ⟨code, refused⟩

end Content

end Conform
