import Conform.Proofs.Run.Growth
import Conform.Proofs.Schema.Free

/-!
# Computations that end together

Two computations may start from different data and still come to the same. Where both succeed their results are
related, where one fails the other fails with the same fault, and the runs that they leave have one journal.
-/

namespace Conform

variable {α β γ δ : Type} {copies : Prop} {k : Nat}

/-- Runs with one journal that have made `k` copies or more, and as many as each other where that is asked for. -/
structure Run.Together (copies : Prop) (k : Nat) (r r' : Run) : Prop where
  journal : r'.journal = r.journal
  copies : copies → r'.copies = r.copies
  enough : k ≤ r.copies
  enough' : k ≤ r'.copies

inductive EndTogether (copies : Prop) (k : Nat) (R : α → β → Prop) : Except Fault α × Run → Except Fault β × Run → Prop
  | ok {a : α} {b : β} {s s' : Run} (related : R a b) (runs : s.Together copies k s') :
      EndTogether copies k R (.ok a, s) (.ok b, s')
  | error {f : Fault} {s s' : Run} (runs : s.Together copies k s') : EndTogether copies k R (.error f, s) (.error f, s')

namespace EndTogether

variable {R : α → β → Prop} {S : γ → δ → Prop} {x : Eval α} {y : Eval β} {r r' : Run} {o : Except Fault α × Run}
  {o' : Except Fault β × Run}

theorem bind {g : α → Eval γ} {g' : β → Eval δ} (first : EndTogether copies k R (x.exec r) (y.exec r'))
    (then_ : ∀ a b s s', R a b → s.Together copies k s' → EndTogether copies k S ((g a).exec s) ((g' b).exec s')) :
    EndTogether copies k S ((x >>= g).exec r) ((y >>= g').exec r') := by
  rw [Eval.exec_bind, Eval.exec_bind]
  revert first
  generalize x.exec r = o
  generalize y.exec r' = o'
  intro first
  cases first with
  | ok related runs => exact then_ _ _ _ _ related runs
  | error runs => exact .error runs

theorem mono {R' : α → β → Prop} (together : EndTogether copies k R o o') (weaker : ∀ a b, R a b → R' a b) :
    EndTogether copies k R' o o' := by
  cases together with
  | ok related runs => exact .ok (weaker _ _ related) runs
  | error runs => exact .error runs

theorem journal (together : EndTogether copies k R o o') : o'.2.journal = o.2.journal := by
  cases together with
  | ok _ runs => exact runs.journal
  | error runs => exact runs.journal

theorem results (together : EndTogether copies k R o o') :
    (∃ f, o.1 = .error f ∧ o'.1 = .error f) ∨ ∃ a b, o.1 = .ok a ∧ o'.1 = .ok b ∧ R a b := by
  cases together with
  | ok related => exact .inr ⟨_, _, rfl, rfl, related⟩
  | error => exact .inl ⟨_, rfl, rfl⟩

/-- Computations whose results are the same have the same outcome. -/
theorem outcome {o o' : Except Fault α × Run} (together : EndTogether copies k Eq o o') : o'.1 = o.1 := by
  cases together with
  | ok same => rw [same]
  | error => rfl

end EndTogether

/-- Computations that run alike end together. -/
theorem Alike.together {place : Prop} {ε : Effects} {Q : α → Prop} {x y : Eval α} {r r' : Run}
    (alike : Alike (.free (fun _ _ => True) place copies) ε Q x y) (grows : Grows freely x) (grows' : Grows freely y)
    (runs : r.Together copies k r') :
    EndTogether copies k Eq (x.exec r) (y.exec r') := by
  have linked : (Bounds.free (fun _ _ => True) place copies).Linked r r' :=
    ⟨trivial, fun asked => (runs.copies asked).symm, fun _ => by rw [runs.journal],
      fun s _ => ShadowTree.holds_all (fun _ => trivial) s.tree⟩
  obtain ⟨outcome, -, linkedAfter, w, -, left, right⟩ := alike r r' linked
  have after : (x.exec r).2.Together copies k (y.exec r').2 :=
    ⟨by rw [left, right, runs.journal], fun asked => (linkedAfter.copies asked).symm,
      Nat.le_trans runs.enough (grows r).copies, Nat.le_trans runs.enough' (grows' r').copies⟩
  revert outcome after
  rcases x.exec r with ⟨o, s⟩
  rcases y.exec r' with ⟨o', s'⟩
  rintro rfl after
  cases o with
  | ok a => exact .ok rfl after
  | error f => exact .error after

end Conform
