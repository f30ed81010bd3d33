import Conform.Proofs.Datum.Entries
import Conform.Proofs.Datum.Sameness
import Conform.Validation.Entry

/-!
# Following and replacing

A path that leads through dictionaries and existing list items can be replaced at its end. What is found
there afterwards is the new datum, and what is found at other paths is as before.
-/

namespace Conform

open Datum

/-- A segment that a container has a place for. -/
def Enters (node k : Value) : Prop :=
  (∃ es, node = .dict es ∧ k.IsKey) ∨ ∃ (xs : List Value) (i : Nat), node = .list xs ∧ k = .int i ∧ i < xs.length

/-- A path whose end has a place below the root. -/
def Open : Value → Path → Prop
  | _, [] => True
  | root, k :: q => Enters root k ∧ ∃ child, step root k = .ok child ∧ Open child q

theorem reach_cons (root k : Value) (q : Path) : reach root (k :: q) = step root k >>= fun child => reach child q := rfl

theorem itemAt?_natCast (xs : List Value) (i : Nat) : itemAt? xs (i : Int) = xs[i]? := by
  have positive : ¬ (i : Int) < 0 := by omega
  simp [itemAt?, positive]

theorem step_list (xs : List Value) (i : Nat) : step (.list xs) (.int i) = .ok ((xs[i]?).getD .undefined) := by
  simp [step, index?, Except.map, itemAt?_natCast]

theorem step_dict {k : Value} (key : k.IsKey) (es : Dict) :
    step (.dict es) k = .ok ((find? k es).getD .undefined) := by
  simp [step, key.hashable]

theorem Open.reaches {root : Value} {p : Path} (isOpen : Open root p) : ∃ v, reach root p = .ok v := by
  induction p generalizing root with
  | nil => exact ⟨root, rfl⟩
  | cons k q ih =>
      obtain ⟨-, child, stepped, below⟩ := isOpen
      obtain ⟨v, reached⟩ := ih below
      refine ⟨v, ?_⟩
      rw [reach_cons, stepped]
      exact reached

/-! ## Integers as segments -/

theorem sameKey_int {i l : Int} : sameKey (.int i : Value) (.int l) ↔ i = l := by
  rw [sameKey_number (n := .int i) rfl]
  simp [number?, Number.sameKey, Number.same, Number.compare?, Number.toDyadic?, Dyadic.compare, Dyadic.scaledTo,
    Dyadic.ofInt]

theorem apart_int {i l : Int} (different : i ≠ l) : Apart (.int i : Value) (.int l) := by
  intro j same
  by_contra other
  have proper : j.isProper := by
    cases j <;> first | rfl | cases same
  exact different (sameKey_int.mp (sameKey_trans (sameKey_symm proper same) (by simpa using other)))

/-! ## One step -/

/-- A container with another child in one of its places. -/
def put (node k v : Value) : Value :=
  match node, k with
  | .dict es, k => .dict (insert k v es)
  | .list xs, .int i => .list (xs.set i.toNat v)
  | node, _ => node

section put

variable {node k l : Value} (v : Value)

theorem place_eq (enters : Enters node k) : Validation.place node k v = .ok (put node k v) := by
  rcases enters with ⟨es, rfl, key⟩ | ⟨xs, i, rfl, rfl, bound⟩
  · rfl
  · have positive : ¬ (i : Int) < 0 := by omega
    simp [Validation.place, put, positive, bound]

theorem putBack_eq (enters : Enters node k) : Validation.replaceAt.putBack node k v = .ok (put node k v) := by
  rcases enters with ⟨es, rfl, key⟩ | ⟨xs, i, rfl, rfl, bound⟩
  · rfl
  · have positive : ¬ (i : Int) < 0 := by omega
    simp [Validation.replaceAt.putBack, put, index?, positive, pure, Except.pure, bind, Except.bind]

theorem step_put (enters : Enters node k) : step (put node k v) k = .ok v := by
  rcases enters with ⟨es, rfl, key⟩ | ⟨xs, i, rfl, rfl, bound⟩
  · simp [put, step_dict key, find?_insert_self fun _ => key.itself]
  · simp [put, step_list, bound]

theorem enters_put (enters : Enters node k) (other : Enters node l) : Enters (put node k v) l := by
  rcases enters with ⟨es, rfl, key⟩ | ⟨xs, i, rfl, rfl, bound⟩
  · rcases other with ⟨fs, -, key'⟩ | ⟨xs, i, same, -⟩
    · exact .inl ⟨_, rfl, key'⟩
    · cases same
  · rcases other with ⟨fs, same, -⟩ | ⟨ys, j, same, rfl, bound'⟩
    · cases same
    · cases same
      exact .inr ⟨_, j, rfl, rfl, by simpa using bound'⟩

theorem step_put_apart (enters : Enters node k) (other : Enters node l) (apart : Apart k l) :
    step (put node k v) l = step node l := by
  rcases enters with ⟨es, rfl, key⟩ | ⟨xs, i, rfl, rfl, bound⟩
  · rcases other with ⟨fs, -, key'⟩ | ⟨xs, i, same, -⟩
    · simp [put, step_dict key', find?_insert_apart apart.parted fun _ => apart k key.itself]
    · cases same
  · rcases other with ⟨fs, same, -⟩ | ⟨ys, j, same, rfl, bound'⟩
    · cases same
    · cases same
      have different : i ≠ j := by
        rintro rfl
        have own := apart (.int i) (sameKey_int.mpr rfl)
        rw [sameKey_int.mpr rfl] at own
        cases own
      simp [put, step_list, List.getElem?_set_ne different]

end put

/-! ## Replacing at a path -/

/-- Paths that part at segments which are never the same key. -/
inductive Diverge : Path → Path → Prop
  | here {k l : Value} {p q : Path} (apart : Apart k l) : Diverge (k :: p) (l :: q)
  | under {k : Value} {p q : Path} (diverge : Diverge p q) : Diverge (k :: p) (k :: q)

open Validation (replaceAt)

theorem replaceAt_cons {root k child child' v : Value} {q : Path} (enters : Enters root k)
    (stepped : step root k = .ok child) (below : replaceAt child q v = .ok child') :
    replaceAt root (k :: q) v = .ok (put root k child') := by
  cases q with
  | nil =>
      obtain rfl : v = child' := by simpa [replaceAt] using below
      simpa [replaceAt] using place_eq v enters
  | cons j q =>
      rw [replaceAt, stepped]
      · simp only [bind, Except.bind, below]
        exact putBack_eq child' enters
      · simp

theorem replaceAt_open {root : Value} {p : Path} (isOpen : Open root p) (v : Value) :
    ∃ after, replaceAt root p v = .ok after ∧ reach after p = .ok v ∧ Open after p := by
  induction p generalizing root with
  | nil => exact ⟨v, by simp [replaceAt], rfl, trivial⟩
  | cons k q ih =>
      obtain ⟨enters, child, stepped, below⟩ := isOpen
      obtain ⟨child', replaced, reached, openAfter⟩ := ih below
      refine ⟨_, replaceAt_cons enters stepped replaced, ?_, enters_put child' enters enters, child', ?_, openAfter⟩
      · rw [reach_cons, step_put child' enters]
        exact reached
      · exact step_put child' enters

/-- Elsewhere everything stays as it is. -/
theorem replaceAt_diverge {root after v : Value} {p q : Path} (isOpen : Open root p) (other : Open root q)
    (diverge : Diverge p q) (replaced : replaceAt root p v = .ok after) :
    reach after q = reach root q ∧ Open after q := by
  induction diverge generalizing root after with
  | @here k l p q apart =>
      obtain ⟨enters, child, stepped, below⟩ := isOpen
      obtain ⟨enters', child', stepped', below'⟩ := other
      obtain ⟨inner, replacedBelow, -⟩ := replaceAt_open below v
      obtain rfl := Except.ok.inj (replaced.symm.trans (replaceAt_cons enters stepped replacedBelow))
      have same := step_put_apart inner enters enters' apart
      refine ⟨by rw [reach_cons, reach_cons, same], enters_put inner enters enters', child', ?_, below'⟩
      rw [same, stepped']
  | @under k p q diverge ih =>
      obtain ⟨enters, child, stepped, below⟩ := isOpen
      obtain ⟨-, child', stepped', below'⟩ := other
      obtain rfl := Except.ok.inj (stepped.symm.trans stepped')
      obtain ⟨inner, replacedBelow, -⟩ := replaceAt_open below v
      obtain rfl := Except.ok.inj (replaced.symm.trans (replaceAt_cons enters stepped replacedBelow))
      obtain ⟨same, openBelow⟩ := ih below below' replacedBelow
      refine ⟨?_, enters_put inner enters enters, inner, step_put inner enters, openBelow⟩
      rw [reach_cons, reach_cons, step_put inner enters, stepped]
      exact same

/-- What lies above is what it was with the datum replaced in it. -/
theorem replaceAt_above {root after u v : Value} {p q : Path} (isOpen : Open root (p ++ q))
    (reached : reach root p = .ok u) (replaced : replaceAt root (p ++ q) v = .ok after) :
    ∃ u', replaceAt u q v = .ok u' ∧ reach after p = .ok u' ∧ Open after p := by
  induction p generalizing root after with
  | nil =>
      obtain rfl : root = u := Except.ok.inj reached
      exact ⟨after, replaced, rfl, trivial⟩
  | cons k p ih =>
      obtain ⟨enters, child, stepped, below⟩ := isOpen
      have reachedBelow : reach child p = .ok u := by
        rw [reach_cons, stepped] at reached
        exact reached
      obtain ⟨inner, replacedBelow, -⟩ := replaceAt_open below v
      obtain rfl := Except.ok.inj (replaced.symm.trans (replaceAt_cons enters stepped replacedBelow))
      obtain ⟨u', inside, found, openAbove⟩ := ih below reachedBelow replacedBelow
      refine ⟨u', inside, ?_, enters_put inner enters enters, inner, step_put inner enters, openAbove⟩
      rw [reach_cons, step_put inner enters]
      exact found

theorem Open.take {root : Value} {p q : Path} (isOpen : Open root (p ++ q)) : Open root p := by
  induction p generalizing root with
  | nil => trivial
  | cons k p ih =>
      obtain ⟨enters, child, stepped, below⟩ := isOpen
      exact ⟨enters, child, stepped, ih below⟩

/-! ## Below an absent datum -/

/-- A path that goes on where there is no datum. -/
def Blind (root : Value) (p : Path) : Prop :=
  ∃ q k s, p = q ++ k :: s ∧ Open root q ∧ reach root q = .ok .undefined

theorem reach_append (root : Value) (p q : Path) : reach root (p ++ q) = reach root p >>= fun u => reach u q := by
  unfold reach
  rw [List.foldlM_append]

theorem reach_undefined (p : Path) : reach .undefined p = .ok .undefined := by
  induction p with
  | nil => rfl
  | cons k q ih => exact ih

theorem Blind.reaches {root : Value} {p : Path} (blind : Blind root p) : reach root p = .ok .undefined := by
  obtain ⟨q, k, s, rfl, -, absent⟩ := blind
  rw [reach_append, absent]
  exact reach_undefined _

theorem Blind.parent {root : Value} {p : Path} (blind : Blind root p) :
    p ≠ [] ∧ reach root p.dropLast = .ok .undefined := by
  obtain ⟨q, k, s, rfl, -, absent⟩ := blind
  refine ⟨by simp, ?_⟩
  rw [List.dropLast_append_of_ne_nil (by simp), reach_append, absent]
  exact reach_undefined _

end Conform
