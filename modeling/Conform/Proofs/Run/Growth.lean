import Conform.Proofs.Brackets
import Conform.Proofs.Run.Exec

/-!
# Runs that only grow

A computation may add hooks and warnings to the journal of its run, capture values and make copies, but it
takes nothing back, and it leaves the marks as they were. Going back to a mark set before it then undoes all
that it did to the journal. What it captures may be kept away from some paths.
-/

namespace Conform

/-- The value captured at a path. -/
def Run.captured (r : Run) (x : Path) : Option Value := (r.journal.shadow.getD {}).tree.at? x

/-- No path at all. -/
abbrev freely : Path → Prop := fun _ => False

/-- A run that goes on from another one, with the same values captured at the paths in `K`. Elsewhere the
shadow may be any. -/
structure Run.Extends (K : Path → Prop) (r s : Run) : Prop where
  hooks : r.journal.externals <+: s.journal.externals
  warnings : r.journal.warnings <+: s.journal.warnings
  marks : s.journal.marks = r.journal.marks
  copies : r.copies ≤ s.copies
  kept : ∀ x, K x → s.captured x = r.captured x

namespace Run.Extends

variable {K L : Path → Prop} {r s t : Run}

theorem refl (r : Run) : r.Extends K r :=
  ⟨List.prefix_refl _, List.prefix_refl _, rfl, Nat.le_refl _, fun _ _ => rfl⟩

theorem trans (first : r.Extends K s) (second : s.Extends K t) : r.Extends K t where
  hooks := first.hooks.trans second.hooks
  warnings := first.warnings.trans second.warnings
  marks := second.marks.trans first.marks
  copies := Nat.le_trans first.copies second.copies
  kept x kept := (second.kept x kept).trans (first.kept x kept)

theorem mono (extends_ : r.Extends K s) (fewer : ∀ x, L x → K x) : r.Extends L s :=
  { extends_ with kept := fun x kept => extends_.kept x (fewer x kept) }

/-- From a run that extends a marked one the mark leads back to the journal that was marked. -/
theorem restore (extends_ : (r.onJournal Journal.snapshot).Extends K s) :
    s.journal.restore?.getD s.journal = r.journal := by
  have onward : Journal.Extends r.journal.snapshot s.journal := ⟨extends_.hooks, extends_.warnings, extends_.marks⟩
  rw [onward.restore, Option.getD_some]

end Run.Extends

/-- A computation that only adds to its run, whether it succeeds or not, and captures nothing at the paths in
`K`. -/
def Grows {α : Type} (K : Path → Prop) (x : Eval α) : Prop := ∀ r : Run, r.Extends K (x.exec r).2

namespace Grows

variable {α β : Type} {K L : Path → Prop} {x : Eval α}

theorem pure (a : α) : Grows K (pure a) := Run.Extends.refl

theorem throw (f : Fault) : Grows K (throw f : Eval α) := Run.Extends.refl

theorem lift (e : Except Fault α) : Grows K (liftM e : Eval α) := Run.Extends.refl

theorem get : Grows K (get : Eval Run) := Run.Extends.refl

theorem modify {g : Run → Run} (each : ∀ r : Run, r.Extends K (g r)) : Grows K (modify g : Eval Unit) := each

theorem mono (grows : Grows K x) (fewer : ∀ p, L p → K p) : Grows L x := fun r => (grows r).mono fewer

theorem bind {g : α → Eval β} (first : Grows K x) (then_ : ∀ a, Grows K (g a)) : Grows K (x >>= g) := by
  intro r
  rw [Eval.exec_bind]
  have here := first r
  rcases ran : x.exec r with ⟨f | a, s⟩
  all_goals rw [ran] at here
  · exact here
  · exact here.trans (then_ a s)

theorem map {g : α → β} (grows : Grows K x) : Grows K (g <$> x) := by
  rw [map_eq_pure_bind]
  exact grows.bind fun _ => pure _

theorem tryCatch {g : Fault → Eval α} (tried : Grows K x) (recovered : ∀ f, Grows K (g f)) :
    Grows K (tryCatch x g) := by
  intro r
  rw [Eval.exec_tryCatch]
  have here := tried r
  rcases ran : x.exec r with ⟨f | a, s⟩
  all_goals rw [ran] at here
  · exact here.trans (recovered f s)
  · exact here

theorem traceless (grows : Grows K x) (r : Run) : ((Eval.withoutTrace x).exec r).2.journal = r.journal := by
  rw [Eval.exec_withoutTrace]
  exact (grows (r.onJournal Journal.snapshot)).restore

theorem withoutTrace (grows : Grows K x) : Grows L (Eval.withoutTrace x) := by
  intro r
  have journal := grows.traceless r
  have copies : r.copies ≤ ((Eval.withoutTrace x).exec r).2.copies := (grows (r.onJournal Journal.snapshot)).copies
  refine ⟨?_, ?_, ?_, copies, fun x _ => ?_⟩
  · exact ⟨[], by rw [journal, List.append_nil]⟩
  · exact ⟨[], by rw [journal, List.append_nil]⟩
  · rw [journal]
  · rw [Run.captured, Run.captured, journal]

end Grows

/-- Captures at a path that leave the paths in `K` alone. -/
def Spares (K : Path → Prop) (p : Path) : Prop :=
  ∀ (v : Value) (t : ShadowTree) (x : Path), K x → (t.capture v p).at? x = t.at? x

/-- Captures at and below a path that leave the paths in `K` alone. -/
def SparesBelow (K : Path → Prop) (p : Path) : Prop := ∀ q, Spares K (p ++ q)

theorem SparesBelow.here {K : Path → Prop} {p : Path} (spares : SparesBelow K p) : Spares K p :=
  List.append_nil p ▸ spares []

theorem SparesBelow.child {K : Path → Prop} {p : Path} (spares : SparesBelow K p) (k : Value) :
    SparesBelow K (p ++ [k]) := fun q => by
  rw [List.append_assoc]
  exact spares ([k] ++ q)

theorem spares_freely (p : Path) : SparesBelow freely p := fun _ _ _ _ kept => kept.elim

theorem Spares.capture {K : Path → Prop} {p : Path} (spares : Spares K p) (v : Value) (r : Run) :
    r.Extends K (r.onJournal (Journal.capture p v)) := by
  refine ⟨List.prefix_refl _, List.prefix_refl _, rfl, Nat.le_refl _, fun x kept => ?_⟩
  cases p with
  | nil => rfl
  | cons k p => exact spares v _ x kept

end Conform
