import Conform.Proofs.ValueSets.Construction

/-!
# Value sets of a merged node

A node that is merged into another wins where both list a value: what it denies is no longer allowed and what it allows
is no longer denied, and a set of it that replaces others stands alone. A set is cleared of the exact values that the
opposite one lists, also where the merged node compares texts without their case.
-/

namespace Conform

open Datum

namespace ValueSet

variable {s t u own top opposite : ValueSet} {v w y : Value} {vs : List Value} {insensitive : Bool}

/-! ## Sets of values -/

/-- A set of values alone, no two of them the same. -/
structure Literal (s : ValueSet) : Prop where
  distinct : s.Distinct
  alone : s.refs = []
  tidy : ∀ v ∈ s.literalValues, v.isTidy

theorem Literal.members_eq (literal : s.Literal) : s.members = s.literalValues.map .literal := by
  rw [members, literal.alone, List.map_nil, List.append_nil, literalValues, List.map_map]
  refine ((List.map_congr_left fun m member => ?_).trans (List.map_id _)).symm
  obtain ⟨v, rfl⟩ := literal.distinct.literal m member
  rfl

theorem Literal.has (literal : s.Literal) (resolve : Reference → Except Fault Value) (insensitive : Bool) (y : Value) :
    s.has resolve insensitive y = .ok (s.hasLiteral insensitive y) :=
  has_alone literal.alone

/-! ## Entering several values -/

theorem mem_addLiteral (member : v ∈ s.literalValues) (m : Member) : v ∈ (s.addLiteral m).literalValues := by
  rcases addLiteral_eq m s with same | ⟨-, entered⟩
  · rwa [same]
  · rw [entered, literalValues, List.map_append]
    exact List.mem_append_left _ member

theorem mem_addAll (member : v ∈ s.literalValues) :
    v ∈ ((vs.map Member.literal).foldl (fun t m => t.add m) s).literalValues := by
  induction vs generalizing s with
  | nil => exact member
  | cons w ws ih => exact ih (mem_addLiteral member (.literal w))

theorem addAll_refs (vs : List Value) (s : ValueSet) :
    ((vs.map Member.literal).foldl (fun t m => t.add m) s).refs = s.refs := by
  induction vs generalizing s with
  | nil => rfl
  | cons v vs ih => exact (ih _).trans (addLiteral_refs (.literal v) s)

/-- A value that is entered is found in the set, or an earlier one that is deeply equal to it. -/
theorem exists_mem_addLiteral (v : Value) (s : ValueSet) :
    ∃ w ∈ (s.addLiteral (.literal v)).literalValues, w = v ∨ deepEqual w v := by
  by_cases present : s.literalValues.any fun w => deepEqual w v
  · obtain ⟨w, member, equal⟩ := List.any_eq_true.mp present
    exact ⟨w, mem_addLiteral member _, .inr equal⟩
  · have entered : s.addLiteral (.literal v) = { s with literals := s.literals ++ [.literal v] } := if_neg present
    rw [entered]
    exact ⟨v, by simp [literalValues, Member.value], .inl rfl⟩

theorem exists_mem_addAll (entered : v ∈ vs) :
    ∃ w ∈ ((vs.map Member.literal).foldl (fun t m => t.add m) s).literalValues, w = v ∨ deepEqual w v := by
  induction vs generalizing s with
  | nil => cases entered
  | cons x xs ih =>
      rcases List.mem_cons.mp entered with rfl | later
      · obtain ⟨w, member, covers⟩ := exists_mem_addLiteral v s
        rw [List.map_cons, List.foldl_cons]
        exact ⟨w, mem_addAll member, covers⟩
      · exact ih later

/-- Two sets of values are joined to one with the values of both. -/
theorem Literal.concat (first : s.Literal) (second : t.Literal) (joins : t.replaces = false) :
    ∃ u, s.concat t = .ok u ∧ u.Literal ∧ (∀ w ∈ u.literalValues, w ∈ s.literalValues ∨ w ∈ t.literalValues) ∧
      ∀ v, v ∈ s.literalValues ∨ v ∈ t.literalValues → ∃ w ∈ u.literalValues, w = v ∨ deepEqual w v := by
  obtain ⟨u, joined⟩ : ∃ u, s.concat t = .ok u := by
    rw [ValueSet.concat, joins]
    exact ⟨_, rfl⟩
  obtain ⟨distinct, from_⟩ := first.distinct.concat second.distinct joined
  have same := concat_eq first.distinct.literal second.distinct.literal joined
  have origin : ∀ w ∈ u.literalValues, w ∈ s.literalValues ∨ w ∈ t.literalValues := by
    intro w member
    have either := from_ _ (distinct.mem_literal member)
    simpa [first.members_eq, second.members_eq] using either
  have entered : s.literals ++ t.members = (s.literalValues ++ t.literalValues).map Member.literal := by
    have own : s.literals = s.members := by rw [members, first.alone, List.map_nil, List.append_nil]
    rw [List.map_append, ← first.members_eq, ← second.members_eq, own]
  rw [entered, first.alone] at same
  refine ⟨u, joined, ⟨distinct, ?_, fun w member => ?_⟩, origin, fun v listed => ?_⟩
  · rw [same]
    exact addAll_refs _ _
  · exact (origin w member).elim (first.tidy w) (second.tidy w)
  · rw [same]
    exact exists_mem_addAll (List.mem_append.mpr listed)

/-! ## Taking out several values -/

theorem literalValues_remove (v : Value) (s : ValueSet) :
    (s.remove (.literal v)).literalValues = s.literalValues.filter fun w => !deepEqual w v := by
  rw [literalValues, literalValues, List.filter_map]
  rfl

theorem removeAll_refs (vs : List Value) (s : ValueSet) :
    ((vs.map Member.literal).foldl (fun t m => t.remove m) s).refs = s.refs := by
  induction vs generalizing s with
  | nil => rfl
  | cons v vs ih => exact ih _

theorem mem_removeAll : w ∈ ((vs.map Member.literal).foldl (fun t m => t.remove m) s).literalValues ↔
    w ∈ s.literalValues ∧ ∀ v ∈ vs, deepEqual w v = false := by
  induction vs generalizing s with
  | nil => simp
  | cons v vs ih =>
      rw [List.map_cons, List.foldl_cons, ih, literalValues_remove, List.mem_filter, Bool.not_eq_true', and_assoc,
        List.forall_mem_cons]

/-- A set is cleared of the values of another one, whether there is another one or not. -/
theorem Literal.cleared (literal : s.Literal) {removed : Option ValueSet} (other : (orEmpty removed).Literal) :
    (s.merge none removed).Literal ∧ ∀ w, w ∈ (s.merge none removed).literalValues ↔
      w ∈ s.literalValues ∧ (orEmpty removed).hasLiteral false w = false := by
  have merged : s.merge none removed =
      ((orEmpty removed).literalValues.map Member.literal).foldl (fun t m => t.remove m) s := by
    cases removed with
    | none => rfl
    | some d =>
        rw [← other.members_eq]
        rfl
  have left : ∀ w, w ∈ (s.merge none removed).literalValues ↔
      w ∈ s.literalValues ∧ (orEmpty removed).hasLiteral false w = false := by
    intro w
    rw [merged, mem_removeAll]
    refine and_congr_right fun member => ?_
    have tidy := literal.tidy w member
    -- The removal asks whether the entry equals what is removed, a look-up asks from the other side.
    rw [← Bool.not_eq_true, hasLiteral_iff]
    constructor
    · rintro different ⟨v, listed, equal⟩
      exact Bool.false_ne_true ((different v listed).symm.trans (deepEqual_symm (other.tidy v listed) tidy equal))
    · intro absent v listed
      refine Bool.eq_false_iff.mpr fun equal => absent ⟨v, listed, ?_⟩
      exact deepEqual_symm tidy (other.tidy v listed) equal
  refine ⟨⟨?_, ?_, fun w member => literal.tidy w ((left w).mp member).1⟩, left⟩
  · rw [merged]
    exact (literal.distinct.removeAll _).1
  · rw [merged, removeAll_refs, literal.alone]

/-! ## One set on top of another -/

end ValueSet

/-! ## Merged nodes -/

open ValueSet

/-- A node whose allowed and denied values are values alone, and no references. -/
structure Core.Literal (c : Core) : Prop where
  allowed : (orEmpty c.allowed).refs = []
  denied : (orEmpty c.denied).refs = []
  tidy : ∀ v ∈ c.entered, v.isTidy

theorem Core.Literal.sets {c : Core} (literal : c.Literal) (separate : Separate c.allowed c.denied) :
    (orEmpty c.allowed).Literal ∧ (orEmpty c.denied).Literal := by
  obtain ⟨first, second⟩ := List.forall_mem_append.mp literal.tidy
  exact ⟨⟨separate.first, literal.allowed, first⟩, ⟨separate.second, literal.denied, second⟩⟩

theorem ValueSet.Separate.unlisted {own other : Option ValueSet} (separate : Separate own other)
    (first : (orEmpty own).Literal) (second : (orEmpty other).Literal) :
    ∀ v ∈ (orEmpty own).literalValues, (orEmpty other).hasLiteral false v = false := by
  intro v isOwn
  refine Bool.eq_false_iff.mpr fun listed => ?_
  obtain ⟨w, isOther, equal⟩ := hasLiteral_iff.mp listed
  have different := separate.apart _ (first.distinct.mem_literal isOwn) _ (second.distinct.mem_literal isOther)
  have unlike := unlike_of_tidy (first.tidy v isOwn) (second.tidy w isOther) different
  exact Bool.false_ne_true (unlike.2.symm.trans equal)

/-- A node that allows a one and a two and denies a three. -/
def allowing : Schema :=
  .node { allowed := some { literals := [.literal (.int 1), .literal (.int 2)] },
          denied := some { literals := [.literal (.int 3)] } } none .any

end Conform
