import Mathlib.Data.List.DropRight
import Conform.Text.Blank

/-!
# Blanks around a text

Trimming drops the blanks at both ends and nothing else.
-/

namespace Conform.Text

theorem dropWhile_visible {x : List Char} (visible : ∀ c ∈ x, isBlank c = false) : x.dropWhile isBlank = x := by
  rw [List.dropWhile_eq_self_iff]
  intro nonempty
  simp [visible _ (List.getElem_mem nonempty)]

theorem trimBlanks_padded {s x t : List Char} (before : ∀ c ∈ s, isBlank c) (after : ∀ c ∈ t, isBlank c)
    (visible : ∀ c ∈ x, isBlank c = false) : trimBlanks (String.ofList (s ++ x ++ t)) = String.ofList x := by
  have blankEnd : t.dropWhile isBlank = [] := List.dropWhile_eq_nil_iff.mpr after
  have front : (s ++ x ++ t).dropWhile isBlank = if x = [] then [] else x ++ t := by
    rw [List.append_assoc, List.dropWhile_append_of_pos before, List.dropWhile_append, dropWhile_visible visible, blankEnd]
    cases x <;> rfl
  unfold trimBlanks
  rw [String.toList_ofList, front]
  by_cases empty : x = []
  · rw [if_pos empty, empty]
    rfl
  · have blankFront : ∀ c ∈ t.reverse, isBlank c := fun c member => after c (List.mem_reverse.mp member)
    have kept : x.reverse.dropWhile isBlank = x.reverse :=
      dropWhile_visible fun c member => visible c (List.mem_reverse.mp member)
    rw [if_neg empty, List.reverse_append, List.dropWhile_append_of_pos blankFront, kept, List.reverse_reverse]

theorem trimBlanks_trimBlanks (s : String) : trimBlanks (trimBlanks s) = trimBlanks s := by
  generalize chars : s.toList.dropWhile isBlank = cs
  have front : (cs.rdropWhile isBlank).dropWhile isBlank = cs.rdropWhile isBlank := by
    rw [List.dropWhile_eq_self_iff]
    intro nonempty
    rw [(List.rdropWhile_prefix isBlank cs).getElem nonempty]
    have trimmed : cs.dropWhile isBlank = cs := chars ▸ List.dropWhile_idempotent isBlank s.toList
    exact List.dropWhile_eq_self_iff.mp trimmed _
  have once : trimBlanks s = String.ofList (cs.rdropWhile isBlank) := by rw [trimBlanks, chars, List.rdropWhile]
  calc trimBlanks (trimBlanks s)
    _ = String.ofList (((cs.rdropWhile isBlank).dropWhile isBlank).rdropWhile isBlank) := by
        rw [once, trimBlanks, String.toList_ofList, ← List.rdropWhile]
    _ = trimBlanks s := by rw [front, List.rdropWhile_idempotent, once]

end Conform.Text
