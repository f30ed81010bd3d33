import Conform.Proofs.Run.Growth

/-!
# Computations in pairs

Two computations that go different ways are compared where both succeed: their outcomes are related, and
neither run falls below the number of copies that both began with.
-/

namespace Conform

variable {α β γ δ : Type}

/-- The outcome has a property wherever a computation succeeds. -/
def Yields (Q : α → Prop) (x : Eval α) : Prop := ∀ r a s, x.exec r = (.ok a, s) → Q a

namespace Yields

variable {Q : α → Prop} {R : β → Prop} {x : Eval α}

theorem pure {a : α} (holds : Q a) : Yields Q (pure a) := by
  intro r b s ran
  cases ran
  exact holds

theorem any : Yields (fun _ => True) x := fun _ _ _ _ => trivial

theorem bind {g : α → Eval β} (first : Yields Q x) (then_ : ∀ a, Q a → Yields R (g a)) : Yields R (x >>= g) := by
  intro r b s ran
  obtain ⟨a, between, left, right⟩ := Eval.bind_ok ran
  exact then_ a (first r a between left) between b s right

theorem mono {P : α → Prop} (yields : Yields P x) (weaker : ∀ a, P a → Q a) : Yields Q x :=
  fun r a s ran => weaker a (yields r a s ran)

end Yields

/-- Where both computations succeed, from runs with `k` copies or more, their outcomes are related. -/
def Paired (k : Nat) (R : α → β → Prop) (x : Eval α) (y : Eval β) : Prop :=
  ∀ r r' : Run, k ≤ r.copies → k ≤ r'.copies → ∀ a b s s', x.exec r = (.ok a, s) → y.exec r' = (.ok b, s') →
    R a b ∧ k ≤ s.copies ∧ k ≤ s'.copies

namespace Paired

variable {k : Nat} {R : α → β → Prop} {S : γ → δ → Prop} {x : Eval α} {y : Eval β}

theorem pure {a : α} {b : β} (related : R a b) : Paired k R (pure a) (pure b) := by
  intro r r' enough enough' c d s s' left right
  cases left
  cases right
  exact ⟨related, enough, enough'⟩

theorem lift {e : Except Fault α} {d : Except Fault β} (related : ∀ a b, e = .ok a → d = .ok b → R a b) :
    Paired k R (liftM e) (liftM d) := by
  intro r r' enough enough' a b s s' left right
  rw [Eval.exec_lift] at left right
  obtain ⟨isLeft, rfl⟩ := Prod.mk.inj left
  obtain ⟨isRight, rfl⟩ := Prod.mk.inj right
  exact ⟨related a b isLeft isRight, enough, enough'⟩

theorem bind {g : α → Eval γ} {g' : β → Eval δ} (first : Paired k R x y)
    (then_ : ∀ a b, R a b → Paired k S (g a) (g' b)) : Paired k S (x >>= g) (y >>= g') := by
  intro r r' enough enough' c d t t' left right
  obtain ⟨a, s, ran, goesOn⟩ := Eval.bind_ok left
  obtain ⟨b, s', ran', goesOn'⟩ := Eval.bind_ok right
  obtain ⟨related, stays, stays'⟩ := first r r' enough enough' a b s s' ran ran'
  exact then_ a b related s s' stays stays' c d t t' goesOn goesOn'

theorem mono {R' : α → β → Prop} (paired : Paired k R x y) (weaker : ∀ a b, R a b → R' a b) :
    Paired k R' x y := by
  intro r r' enough enough' a b s s' left right
  obtain ⟨related, stays, stays'⟩ := paired r r' enough enough' a b s s' left right
  exact ⟨weaker a b related, stays, stays'⟩

theorem apart {P : α → Prop} {Q : β → Prop} (grows : Grows freely x) (grows' : Grows freely y) (yields : Yields P x)
    (yields' : Yields Q y) (related : ∀ a b, P a → Q b → R a b) : Paired k R x y := by
  intro r r' enough enough' a b s s' left right
  have stays := (grows r).copies
  have stays' := (grows' r').copies
  rw [left] at stays
  rw [right] at stays'
  exact ⟨related a b (yields r a s left) (yields' r' b s' right), Nat.le_trans enough stays,
    Nat.le_trans enough' stays'⟩

theorem withoutTrace (paired : Paired k R x y) : Paired k R (Eval.withoutTrace x) (Eval.withoutTrace y) := by
  intro r r' enough enough' a b s s' left right
  rcases ran : x.exec (r.onJournal Journal.snapshot) with ⟨o, t⟩
  rcases ran' : y.exec (r'.onJournal Journal.snapshot) with ⟨o', t'⟩
  rw [Eval.exec_withoutTrace, ran] at left
  rw [Eval.exec_withoutTrace, ran'] at right
  obtain ⟨rfl, rfl⟩ := Prod.mk.inj left
  obtain ⟨rfl, rfl⟩ := Prod.mk.inj right
  exact paired (r.onJournal Journal.snapshot) (r'.onJournal Journal.snapshot) enough enough' a b t t' ran ran'

end Paired

end Conform
