import Conform.Proofs.Run.Exec
import Conform.Proofs.Run.Writes
import Conform.Proofs.Captured

/-!
# Computations that run alike

Two computations are alike if from linked runs they give one outcome, write the same to both journals
and leave linked runs. `Bounds` says what the data, issues and faults on the way are, how the tables of
the two runs belong together, and what else the runs share; `Effects` says which writes are admitted.
With one computation on both sides this is a statement about that computation alone.
-/

namespace Conform

abbrev Tables := List (Nat × Cache Result)

structure Bounds where
  value : Value → Prop
  /-- Segments of paths. -/
  key : Value → Prop
  issue : Issue → Prop
  fault : Fault → Prop
  prefs : Preferences → Prop
  tables : Tables → Tables → Prop
  /-- Whether the enclosing values, the context and the shadow are the same on both sides. -/
  samePlace : Prop
  /-- Whether the copies are counted alike on both sides. -/
  sameCopies : Prop

namespace Bounds

variable (B : Bounds)

/-- Runs that only the tables and the journals, apart from a shared shadow, tell apart. -/
structure Linked (r r' : Run) : Prop where
  tables : B.tables r.caches r'.caches
  copies : B.sameCopies → r.copies = r'.copies
  shadow : B.samePlace → r.journal.shadow = r'.journal.shadow
  captured : ∀ s, r.journal.shadow = some s → s.Holds B.value

/-- A result with the property, or an expected fault. -/
def Meets {α : Type} (Q : α → Prop) : Except Fault α → Prop
  | .ok a => Q a
  | .error f => B.fault f

theorem meets_mono {α : Type} {Q R : α → Prop} {o : Except Fault α} (weaker : ∀ a, Q a → R a)
    (met : B.Meets Q o) : B.Meets R o := by
  cases o with
  | ok a => exact weaker a met
  | error f => exact met

end Bounds

/-- What two computations leave of the runs `r` and `r'`. -/
structure Agree {α : Type} (B : Bounds) (ε : Effects) (Q : α → Prop) (r r' : Run)
    (o o' : Except Fault α × Run) : Prop where
  outcome : o.1 = o'.1
  met : B.Meets Q o.1
  linked : B.Linked o.2 o'.2
  written : ∃ w, ε.Admits w ∧ o.2.journal = w.onto r.journal ∧ o'.2.journal = w.onto r'.journal

def Alike {α : Type} (B : Bounds) (ε : Effects) (Q : α → Prop) (x y : Eval α) : Prop :=
  ∀ r r', B.Linked r r' → Agree B ε Q r r' (x.exec r) (y.exec r')

namespace Alike

variable {α β : Type} {B : Bounds} {ε : Effects} {Q : α → Prop} {R : β → Prop}

/-- Nothing is written. -/
theorem still {r r' : Run} {o : Except Fault α} (met : B.Meets Q o) (linked : B.Linked r r') :
    Agree B ε Q r r' (o, r) (o, r') where
  outcome := rfl
  met := met
  linked := linked
  written := ⟨{}, ε.admits_empty, by simp⟩

theorem pure {a : α} (met : Q a) : Alike B ε Q (pure a) (pure a) := fun _ _ linked =>
  still (o := .ok a) met linked

theorem throw {f : Fault} (expected : B.fault f) : Alike B ε Q (throw f) (throw f) :=
  fun _ _ linked => still (o := .error f) expected linked

theorem lift {e : Except Fault α} (met : B.Meets Q e) : Alike B ε Q (liftM e) (liftM e) :=
  fun _ _ linked => still met linked

theorem mono {x y : Eval α} {P : α → Prop} (alike : Alike B ε P x y) (weaker : ∀ a, P a → Q a) :
    Alike B ε Q x y := fun r r' linked =>
  { alike r r' linked with met := B.meets_mono weaker (alike r r' linked).met }

theorem bind {x y : Eval α} {g k : α → Eval β} (first : Alike B ε Q x y)
    (then_ : ∀ a, Q a → Alike B ε R (g a) (k a)) : Alike B ε R (x >>= g) (y >>= k) := by
  intro r r' linked
  rw [Eval.exec_bind, Eval.exec_bind]
  obtain ⟨outcome, met, linkedAfter, w, admitted, left, right⟩ := first r r' linked
  rcases runX : x.exec r with ⟨o, s⟩
  rcases runY : y.exec r' with ⟨o', s'⟩
  simp only [runX, runY] at outcome met linkedAfter left right
  subst outcome
  cases o with
  | error f => exact ⟨rfl, met, linkedAfter, w, admitted, left, right⟩
  | ok a =>
      obtain ⟨outcome, met, linkedEnd, u, admittedThen, leftThen, rightThen⟩ :=
        then_ a met s s' linkedAfter
      refine ⟨outcome, met, linkedEnd, w.append u, ε.admits_append w u admitted admittedThen, ?_, ?_⟩
      · rw [Eval.andThen_ok, leftThen, left, Writes.onto_append]
      · rw [Eval.andThen_ok, rightThen, right, Writes.onto_append]

theorem map {x y : Eval α} {g : α → β} (alike : Alike B ε Q x y) (met : ∀ a, Q a → R (g a)) :
    Alike B ε R (g <$> x) (g <$> y) := by
  rw [map_eq_pure_bind, map_eq_pure_bind]
  exact bind alike fun a holds => pure (met a holds)

theorem tryCatch {x y : Eval α} {g k : Fault → Eval α} (tried : Alike B ε Q x y)
    (recovered : ∀ f, B.fault f → Alike B ε Q (g f) (k f)) :
    Alike B ε Q (tryCatch x g) (tryCatch y k) := by
  intro r r' linked
  rw [Eval.exec_tryCatch, Eval.exec_tryCatch]
  obtain ⟨outcome, met, linkedAfter, w, admitted, left, right⟩ := tried r r' linked
  rcases runX : x.exec r with ⟨o, s⟩
  rcases runY : y.exec r' with ⟨o', s'⟩
  simp only [runX, runY] at outcome met linkedAfter left right
  subst outcome
  cases o with
  | ok a => exact ⟨rfl, met, linkedAfter, w, admitted, left, right⟩
  | error f =>
      obtain ⟨outcome, met, linkedEnd, u, admittedThen, leftThen, rightThen⟩ :=
        recovered f met s s' linkedAfter
      refine ⟨outcome, met, linkedEnd, w.append u, ε.admits_append w u admitted admittedThen, ?_, ?_⟩
      · rw [leftThen, left, Writes.onto_append]
      · rw [rightThen, right, Writes.onto_append]

theorem withoutTrace {x y : Eval α} (alike : Alike B .all Q x y) :
    Alike B ε Q (Eval.withoutTrace x) (Eval.withoutTrace y) := by
  intro r r' linked
  have linkedMarks : B.Linked (r.onJournal Journal.snapshot) (r'.onJournal Journal.snapshot) :=
    ⟨linked.tables, linked.copies, linked.shadow, linked.captured⟩
  obtain ⟨outcome, met, linkedAfter, w, -, left, right⟩ := alike _ _ linkedMarks
  have restored : ∀ s t : Run, s.journal = w.onto t.journal.snapshot →
      s.journal.restore?.getD s.journal = t.journal := by
    intro s t written
    rw [written, Writes.restore_onto_snapshot, Option.getD_some]
  have leftBack := restored _ r left
  have rightBack := restored _ r' right
  rw [Eval.exec_withoutTrace, Eval.exec_withoutTrace]
  refine ⟨outcome, met, ⟨linkedAfter.tables, linkedAfter.copies, ?_, ?_⟩, {}, ε.admits_empty, ?_, ?_⟩
  · rw [Run.journal_onJournal, Run.journal_onJournal, leftBack, rightBack]
    exact linked.shadow
  · rw [Run.journal_onJournal, leftBack]
    exact linked.captured
  · rw [Run.journal_onJournal, leftBack, Writes.onto_empty]
  · rw [Run.journal_onJournal, rightBack, Writes.onto_empty]

end Alike

end Conform
