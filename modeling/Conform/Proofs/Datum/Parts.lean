import Conform.Datum.Basic

/-!
# Data by their parts

The parts of a container are its items or members, and the keys and values of its entries. What holds of a datum as soon as
it holds of its parts holds of all data.
-/

namespace Conform.Datum

variable {α : Type}

def parts : Datum α → List (Datum α)
  | list xs | tuple xs | set _ xs => xs
  | dict es => es.flatMap fun e => [e.1, e.2]
  | _ => []

theorem mem_parts_dict {es : Entries α} {w : Datum α} : w ∈ (dict es).parts ↔ ∃ e ∈ es, w = e.1 ∨ w = e.2 := by
  simp [parts]

theorem part_smaller {v w : Datum α} (part : w ∈ v.parts) : sizeOf w < sizeOf v := by
  cases v with
  | list xs | tuple xs | set z xs =>
      have smaller : sizeOf w < sizeOf xs := List.sizeOf_lt_of_mem part
      simp only [list.sizeOf_spec, tuple.sizeOf_spec, set.sizeOf_spec]
      omega
  | dict es =>
      obtain ⟨e, member, isPart⟩ := mem_parts_dict.mp part
      have smaller := List.sizeOf_lt_of_mem member
      have both : sizeOf e = 1 + sizeOf e.1 + sizeOf e.2 := by cases e; rfl
      simp only [dict.sizeOf_spec]
      rcases isPart with rfl | rfl <;> omega
  | _ => cases part

theorem ofParts {motive : Datum α → Prop} (step : ∀ v, (∀ w ∈ v.parts, motive w) → motive v) (v : Datum α) :
    motive v :=
  step v fun w _ => ofParts step w
termination_by sizeOf v
decreasing_by exact part_smaller ‹_›

/-! ## Tests of everything in a datum -/

mutual

/-- Whether a test holds of the datum and of everything in it. -/
def everywhere (p : Datum α → Bool) : Datum α → Bool
  | list xs => p (list xs) && everywhereEach p xs
  | tuple xs => p (tuple xs) && everywhereEach p xs
  | set z xs => p (set z xs) && everywhereEach p xs
  | dict es => p (dict es) && everywhereEntries p es
  | v => p v

def everywhereEach (p : Datum α → Bool) : List (Datum α) → Bool
  | [] => true
  | x :: xs => everywhere p x && everywhereEach p xs

def everywhereEntries (p : Datum α → Bool) : Entries α → Bool
  | [] => true
  | (k, v) :: es => everywhere p k && everywhere p v && everywhereEntries p es

end

variable {p : Datum α → Bool}

theorem everywhereEach_iff {xs : List (Datum α)} : everywhereEach p xs ↔ ∀ x ∈ xs, everywhere p x := by
  induction xs with
  | nil => simp [everywhereEach]
  | cons x xs ih => simp [everywhereEach, ih]

theorem everywhereEntries_iff {es : Entries α} :
    everywhereEntries p es ↔ ∀ e ∈ es, everywhere p e.1 ∧ everywhere p e.2 := by
  induction es with
  | nil => simp [everywhereEntries]
  | cons e es ih => simp [everywhereEntries, ih, and_assoc]

theorem everywhere_iff {v : Datum α} : v.everywhere p ↔ p v ∧ ∀ w ∈ v.parts, w.everywhere p := by
  cases v with
  | list xs | tuple xs | set z xs => rw [everywhere, Bool.and_eq_true, everywhereEach_iff, parts]
  | dict es =>
      rw [everywhere, Bool.and_eq_true, everywhereEntries_iff]
      refine and_congr_right fun _ => ⟨fun each w part => ?_, fun each e member => ?_⟩
      · obtain ⟨e, member, rfl | rfl⟩ := mem_parts_dict.mp part
        · exact (each e member).1
        · exact (each e member).2
      · exact ⟨each _ (mem_parts_dict.mpr ⟨e, member, .inl rfl⟩), each _ (mem_parts_dict.mpr ⟨e, member, .inr rfl⟩)⟩
  | _ => simp [everywhere, parts]

end Conform.Datum
