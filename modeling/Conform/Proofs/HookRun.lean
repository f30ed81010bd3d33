import Conform.Proofs.Reach
import Conform.Proofs.Run.Exec

/-!
# Running hooks on a tree

A hook whose path is open meets the datum there, and what it gives lands there. Hooks that lie above it
or elsewhere find their paths open afterwards.
-/

namespace Conform

open Validation (replaceAt runHook isReplaceable)

variable {h : Hooks} {root after node : Value} {hook : Pending} {answer : Option Value} {p q : Path}

/-- The tree after a hook at the path has given its answer. -/
def Lands (root : Value) (p : Path) (answer : Option Value) (after : Value) : Prop :=
  match answer with
  | none => after = root
  | some .undefined => after = root
  | some .null => after = root
  | some v => replaceAt root p v = .ok after

theorem Lands.cases (lands : Lands root p answer after) :
    after = root ∨ ∃ v, answer = some v ∧ replaceAt root p v = .ok after := by
  unfold Lands at lands
  split at lands
  · exact .inl lands
  · exact .inl lands
  · exact .inl lands
  · exact .inr ⟨_, rfl, lands⟩

theorem Enters.isReplaceable {k : Value} (enters : Enters node k) : Validation.isReplaceable node := by
  rcases enters with ⟨es, rfl, -⟩ | ⟨xs, i, rfl, -, -⟩ <;> rfl

theorem Open.parent (isOpen : Open root p) (deep : p ≠ []) :
    ∃ parent, reach root p.dropLast = .ok parent ∧ isReplaceable parent := by
  induction p generalizing root with
  | nil => exact absurd rfl deep
  | cons k q ih =>
      obtain ⟨enters, child, stepped, below⟩ := isOpen
      cases q with
      | nil => exact ⟨root, rfl, enters.isReplaceable⟩
      | cons j q =>
          obtain ⟨parent, reached, replaceable⟩ := ih below (by simp)
          refine ⟨parent, ?_, replaceable⟩
          rw [List.dropLast_cons_of_ne_nil (by simp), reach_cons, stepped]
          exact reached

/-- The second path may come after the first: it leads to something above it, or elsewhere. -/
def Later (p q : Path) : Prop := q <+: p ∨ Diverge p q

/-- A datum at the path with the answers of hooks at the path and below it, one after the other. -/
inductive Updated (h : Hooks) (p : Path) : List Pending → Value → Value → Prop
  | none {u : Value} : Updated h p [] u u
  | elsewhere {g : Pending} {gs : List Pending} {u w : Value} (diverge : Diverge g.path p)
      (rest : Updated h p gs u w) : Updated h p (g :: gs) u w
  | inside {g : Pending} {gs : List Pending} {q : Path} {u u' w node : Value} {answer : Option Value}
      {r r' : Run} (path : g.path = p ++ q) (reached : reach u q = .ok node)
      (answers : (h.external g.fn node).exec r = (.ok answer, r')) (lands : Lands u q answer u')
      (rest : Updated h p gs u' w) : Updated h p (g :: gs) u w

theorem Lands.diverge (lands : Lands root p answer after) (isOpen : Open root p) (other : Open root q)
    (diverge : Diverge p q) : reach after q = reach root q ∧ Open after q := by
  rcases lands.cases with rfl | ⟨v, -, replaced⟩
  · exact ⟨rfl, other⟩
  · exact replaceAt_diverge isOpen other diverge replaced

theorem Lands.above {u : Value} (lands : Lands root (p ++ q) answer after) (isOpen : Open root (p ++ q))
    (reached : reach root p = .ok u) :
    ∃ u', Lands u q answer u' ∧ reach after p = .ok u' ∧ Open after p := by
  unfold Lands at lands ⊢
  split at lands
  · exact ⟨u, rfl, lands ▸ reached, lands ▸ isOpen.take⟩
  · exact ⟨u, rfl, lands ▸ reached, lands ▸ isOpen.take⟩
  · exact ⟨u, rfl, lands ▸ reached, lands ▸ isOpen.take⟩
  · exact replaceAt_above isOpen reached lands

theorem Lands.later (lands : Lands root p answer after) (isOpen : Open root p) (other : Open root q)
    (later : Later p q) : Open after q := by
  rcases later with ⟨s, rfl⟩ | diverge
  · obtain ⟨u, reached⟩ := other.reaches
    obtain ⟨-, -, -, above⟩ := lands.above isOpen reached
    exact above
  · exact (lands.diverge isOpen other diverge).2

/-! ## Hooks without a place -/

/-- An answer that replaces nothing. -/
def Quiet (answer : Option Value) : Prop := answer = none ∨ answer = some .undefined ∨ answer = some .null

theorem Quiet.lands (quiet : Quiet answer) (root : Value) (p : Path) : Lands root p answer root := by
  rcases quiet with rfl | rfl | rfl <;> rfl

/-- The fault of an answer without a place. -/
def misplaced (p : Path) : Fault :=
  .contract (Fault.contractText [.str "Cannot replace external result at", .list p])

/-- A path that can be replaced, or goes on below an absent datum. -/
def Placed (root : Value) (p : Path) : Prop := Open root p ∨ Blind root p

theorem Placed.reaches (placed : Placed root p) : ∃ v, reach root p = .ok v := by
  rcases placed with isOpen | blind
  · exact isOpen.reaches
  · exact ⟨_, blind.reaches⟩

end Conform
