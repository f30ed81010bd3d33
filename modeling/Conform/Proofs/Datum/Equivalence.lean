import Mathlib.Data.List.Forall2
import Conform.Proofs.Datum.Parts
import Conform.Proofs.Datum.Tidy

/-!
# Deep equality is an equivalence

In sound data the members of sets and the keys of dictionaries can be keys, and none is listed twice. Whatever is entered
into sound data leaves them sound. On them deep equality is symmetric and transitive, and what has no NaN in it is equal to
itself.
-/

namespace Conform

namespace Number

theorem same_int {x y : Int} : (int x).same (int y) ↔ x = y := by
  simp [same, compare?, toDyadic?, Dyadic.compare, Dyadic.scaledTo, Dyadic.ofInt]

theorem same_trans {m n k : Number} (first : m.same n) (second : n.same k) : m.same k := by
  rw [same_iff] at first second ⊢
  rcases first with ⟨s, rfl, rfl⟩ | ⟨x, y, left, right, equal⟩
  · simpa [toDyadic?, Binary64.toDyadic?] using second
  · rcases second with ⟨s, rfl, rfl⟩ | ⟨y', z, left', right', equal'⟩
    · cases right
    · cases right.symm.trans left'
      exact .inr ⟨x, z, left, right', Dyadic.compare_trans equal equal'⟩

end Number

namespace Datum

variable {α : Type}

/-- Whether no NaN is in the datum. -/
def isNanFree (v : Datum α) : Bool := v.everywhere fun w => !w.isNan

theorem allHashable_iff {xs : List (Datum α)} : allHashable xs ↔ ∀ x ∈ xs, x.isHashable := by
  induction xs with
  | nil => simp [allHashable]
  | cons x xs ih => simp [allHashable, ih]

theorem isNanFree_iff {v : Datum α} : v.isNanFree ↔ v.isNan = false ∧ ∀ w ∈ v.parts, w.isNanFree := by
  rw [isNanFree, everywhere_iff, Bool.not_eq_true']
  rfl

theorem number_self {v : Datum α} {n : Number} (number : v.number? = some n) (ordered : v.isNan = false) : n.same n := by
  cases v with
  | bool | int =>
      obtain rfl := Option.some.inj number
      exact Number.same_int.mpr rfl
  | float x =>
      obtain rfl := Option.some.inj number
      exact Number.same_self ordered
  | _ => cases number

variable [BEq α]

/-! ## Sound data -/

/-- Whether data can be the keys of one dictionary. -/
def areKeys (ks : List (Datum α)) : Bool :=
  ks.all isHashable && decide (ks.Pairwise fun j k => sameKey j k = false)

def isKeyed : Datum α → Bool
  | set _ xs => areKeys xs
  | dict es => areKeys (es.map Prod.fst)
  | _ => true

/-- Whether all sets and dictionaries in the datum have members and keys that can be keys, none of them twice. -/
def isSound (v : Datum α) : Bool := v.everywhere isKeyed

variable {a b c v : Datum α} {xs ys zs : List (Datum α)} {es fs gs : Entries α}

theorem areKeys_iff {ks : List (Datum α)} :
    areKeys ks ↔ (∀ k ∈ ks, k.isHashable) ∧ ks.Pairwise fun j k => sameKey j k = false := by
  simp [areKeys]

theorem isSound_iff : v.isSound ↔ v.isKeyed ∧ ∀ w ∈ v.parts, w.isSound := everywhere_iff

theorem isSound_part {w : Datum α} (sound : v.isSound) (part : w ∈ v.parts) : w.isSound :=
  (isSound_iff.mp sound).2 w part

theorem isSound_entry (sound : (dict es).isSound) {e : Datum α × Datum α} (member : e ∈ es) :
    e.1.isSound ∧ e.2.isSound :=
  ⟨isSound_part sound (mem_parts_dict.mpr ⟨e, member, .inl rfl⟩),
    isSound_part sound (mem_parts_dict.mpr ⟨e, member, .inr rfl⟩)⟩

theorem isSound_find? (sound : (dict es).isSound) (k : Datum α) : ((find? k es).getD .undefined).isSound := by
  cases found : find? k es with
  | none => rfl
  | some v =>
      obtain ⟨j, member⟩ := find?_mem found
      exact (isSound_entry sound member).2

theorem isProper_of_isSound (sound : v.isSound) : v.isProper := by
  induction v using ofParts with
  | step v ih =>
      obtain ⟨keyed, parts⟩ := isSound_iff.mp sound
      have each : ∀ w ∈ v.parts, w.isProper := fun w part => ih w part (parts w part)
      cases v with
      | list xs | tuple xs => exact allProper_iff.mpr each
      | set z xs =>
          rw [isProper, Bool.and_eq_true, decide_eq_true_eq]
          exact ⟨allProper_iff.mpr each, (areKeys_iff.mp keyed).2⟩
      | dict es =>
          refine isProper_dict.mpr fun e member => ?_
          exact ⟨each _ (mem_parts_dict.mpr ⟨e, member, .inl rfl⟩), each _ (mem_parts_dict.mpr ⟨e, member, .inr rfl⟩)⟩
      | _ => rfl

theorem allTidy_iff : allTidy xs ↔ ∀ x ∈ xs, x.isTidy := by
  induction xs with
  | nil => simp [allTidy]
  | cons x xs ih => simp [allTidy, ih]

theorem isTidy_of_isSound (sound : v.isSound) : v.isTidy := by
  induction v using ofParts with
  | step v ih =>
      obtain ⟨keyed, parts⟩ := isSound_iff.mp sound
      cases v with
      | list xs | tuple xs => exact allTidy_iff.mpr fun x member => ih x member (parts x member)
      | set z xs => exact isProper_of_isSound sound
      | dict es =>
          refine isTidy_dict.mpr ⟨List.pairwise_map.mp (areKeys_iff.mp keyed).2, fun e member => ?_⟩
          obtain ⟨key, value⟩ := isSound_entry sound member
          exact ⟨isProper_of_isSound key, ih e.2 (mem_parts_dict.mpr ⟨e, member, .inr rfl⟩) value⟩
      | _ => rfl

/-! ## Making sound data -/

theorem isSound_dict : (dict es).isSound ↔ areKeys (es.map Prod.fst) ∧ ∀ e ∈ es, e.1.isSound ∧ e.2.isSound := by
  refine ⟨fun sound => ⟨(isSound_iff.mp sound).1, fun e member => isSound_entry sound member⟩, ?_⟩
  rintro ⟨keys, each⟩
  refine isSound_iff.mpr ⟨keys, fun w part => ?_⟩
  obtain ⟨e, member, rfl | rfl⟩ := mem_parts_dict.mp part
  · exact (each e member).1
  · exact (each e member).2

theorem areKeys_insert {k : Datum α} (keys : areKeys (es.map Prod.fst)) (hashable : k.isHashable) (v : Datum α) :
    areKeys ((insert k v es).map Prod.fst) := by
  induction es with
  | nil => simp [insert, areKeys, hashable]
  | cons e es ih =>
      obtain ⟨j, w⟩ := e
      rw [insert]
      split
      · exact keys
      · rename_i other
        simp only [areKeys_iff, List.map_cons, List.forall_mem_cons, List.pairwise_cons] at keys ih ⊢
        obtain ⟨⟨here, hashables⟩, apart, rest⟩ := keys
        obtain ⟨hashables', rest'⟩ := ih ⟨hashables, rest⟩
        refine ⟨⟨here, hashables'⟩, fun l member => ?_, rest'⟩
        obtain ⟨d, isIn, rfl⟩ := List.mem_map.mp member
        rcases mem_insert isIn with old | ⟨-, isKey | ⟨u, old⟩⟩
        · exact apart _ (List.mem_map_of_mem old)
        · rwa [isKey, ← Bool.not_eq_true]
        · exact apart _ (List.mem_map.mpr ⟨_, old, rfl⟩)

theorem isSound_insert {k : Datum α} (sound : (dict es).isSound) (hashable : k.isHashable) (key : k.isSound)
    (value : v.isSound) : (dict (insert k v es)).isSound := by
  obtain ⟨keys, each⟩ := isSound_dict.mp sound
  refine isSound_dict.mpr ⟨areKeys_insert keys hashable v, fun e member => ?_⟩
  rcases mem_insert member with old | ⟨isNew, isKey | ⟨w, old⟩⟩
  · exact each e old
  · rw [isNew, isKey]
    exact ⟨key, value⟩
  · rw [isNew]
    exact ⟨(each _ old).1, value⟩

theorem isSound_erase (sound : (dict es).isSound) (k : Datum α) : (dict (erase k es)).isSound := by
  obtain ⟨keys, each⟩ := isSound_dict.mp sound
  obtain ⟨hashables, apart⟩ := areKeys_iff.mp keys
  have fewer : (erase k es).map Prod.fst |>.Sublist (es.map Prod.fst) := List.filter_sublist.map _
  exact isSound_dict.mpr ⟨areKeys_iff.mpr ⟨fun j member => hashables j (fewer.subset member), apart.sublist fewer⟩,
    fun e member => each e (mem_erase member)⟩

theorem isSound_mergeEntries (sound : (dict es).isSound)
    (each : ∀ f ∈ fs, f.1.isHashable ∧ f.1.isSound ∧ f.2.isSound) : (dict (mergeEntries es fs)).isSound := by
  induction fs generalizing es with
  | nil => exact sound
  | cons f fs ih =>
      obtain ⟨⟨hashable, key, value⟩, rest⟩ := List.forall_mem_cons.mp each
      exact ih (isSound_insert sound hashable key value) rest

theorem isSound_ofEntries (each : ∀ f ∈ fs, f.1.isHashable ∧ f.1.isSound ∧ f.2.isSound) :
    (dict (ofEntries fs)).isSound :=
  isSound_mergeEntries rfl each

theorem areKeys_snoc {k : Datum α} (keys : areKeys xs) (hashable : k.isHashable)
    (fresh : ∀ x ∈ xs, sameKey x k = false) : areKeys (xs ++ [k]) := by
  obtain ⟨hashables, apart⟩ := areKeys_iff.mp keys
  refine areKeys_iff.mpr ⟨List.forall_mem_append.mpr ⟨hashables, List.forall_mem_singleton.mpr hashable⟩, ?_⟩
  refine List.pairwise_append.mpr ⟨apart, List.pairwise_singleton _ _, fun x member l last => ?_⟩
  obtain rfl := List.mem_singleton.mp last
  exact fresh x member

theorem isSound_distinct (z : Bool) (each : ∀ x ∈ xs, x.isHashable ∧ x.isSound) : (set z (distinct xs)).isSound := by
  have run : ∀ (xs ys : List (Datum α)), (∀ x ∈ xs, x.isHashable ∧ x.isSound) → areKeys ys → (∀ y ∈ ys, y.isSound) →
      (set z (xs.foldl (fun acc x => if acc.any (fun y => sameKey y x) then acc else acc ++ [x]) ys)).isSound := by
    intro xs
    induction xs with
    | nil => exact fun ys _ keys parts => isSound_iff.mpr ⟨keys, parts⟩
    | cons x xs ih =>
        intro ys each keys parts
        obtain ⟨⟨hashable, sound⟩, rest⟩ := List.forall_mem_cons.mp each
        rw [List.foldl_cons]
        split
        · exact ih ys rest keys parts
        · rename_i fresh
          simp only [List.any_eq_true, not_exists, not_and, Bool.not_eq_true] at fresh
          exact ih _ rest (areKeys_snoc keys hashable fresh)
            (List.forall_mem_append.mpr ⟨parts, List.forall_mem_singleton.mpr sound⟩)
  exact run xs [] each rfl (List.forall_mem_nil _)

/-! ## Transitivity -/

theorem deepEqualEach_iff : deepEqualEach xs ys ↔ List.Forall₂ (fun x y => deepEqual x y) xs ys := by
  induction xs generalizing ys with
  | nil => cases ys <;> simp [deepEqualEach]
  | cons x xs ih => cases ys <;> simp [deepEqualEach, ih]

theorem deepEqual_number {n : Number} (number : a.number? = some n) (proper : a.isBool = false) :
    deepEqual a b ↔ ∃ m, b.number? = some m ∧ b.isBool = false ∧ n.same m := by
  cases a with
  | int x =>
      obtain rfl := Option.some.inj number
      cases b <;> simp [deepEqual, number?, isBool, Number.same_int]
  | float x =>
      obtain rfl := Option.some.inj number
      cases b <;> simp [deepEqual, number?, isBool]
  | bool => cases proper
  | _ => cases number

theorem deepEqualEach_trans
    (each : ∀ x ∈ xs, ∀ y ∈ ys, ∀ z, deepEqual x y → deepEqual y z → deepEqual x z)
    (first : deepEqualEach xs ys) (second : deepEqualEach ys zs) : deepEqualEach xs zs := by
  induction xs generalizing ys zs with
  | nil =>
      obtain rfl : ys = [] := by simpa [deepEqualEach] using first
      exact second
  | cons x xs ih =>
      rcases ys with _ | ⟨y, ys⟩
      · cases first
      · rcases zs with _ | ⟨z, zs⟩
        · cases second
        · simp only [deepEqualEach, Bool.and_eq_true] at first second ⊢
          refine ⟨each x (by simp) y (by simp) z first.1 second.1, ih ?_ first.2 second.2⟩
          exact fun x inRest y inOther => each x (by simp [inRest]) y (by simp [inOther])

theorem deepEqualEntries_trans [PartialEquivBEq α] (proper : ∀ f ∈ fs, f.1.isProper)
    (each : ∀ e ∈ es, ∀ f ∈ fs, ∀ w, deepEqual e.2 f.2 → deepEqual f.2 w → deepEqual e.2 w)
    (first : deepEqualEntries es fs) (second : deepEqualEntries fs gs) : deepEqualEntries es gs := by
  rw [deepEqualEntries_iff] at first second ⊢
  intro e member
  obtain ⟨v, found, left⟩ := first e member
  obtain ⟨j, isIn, same⟩ := find?_entry found
  obtain ⟨w, found', right⟩ := second (j, v) isIn
  refine ⟨w, ?_, each e member (j, v) isIn w left right⟩
  rw [find?_same (proper (j, v) isIn) same]
  exact found'

theorem deepEqual_trans [PartialEquivBEq α] (tidy : b.isTidy) (first : deepEqual a b) (second : deepEqual b c) :
    deepEqual a c := by
  -- Only the middle datum has to be tidy: its keys are looked up in the last one.
  induction a using ofParts generalizing b c with
  | step a ih =>
      cases a with
      | int x =>
          obtain ⟨m, middle, proper, left⟩ := (deepEqual_number (n := .int x) rfl rfl).mp first
          obtain ⟨k, last, proper', right⟩ := (deepEqual_number middle proper).mp second
          exact (deepEqual_number rfl rfl).mpr ⟨k, last, proper', Number.same_trans left right⟩
      | float x =>
          obtain ⟨m, middle, proper, left⟩ := (deepEqual_number (n := .float x) rfl rfl).mp first
          obtain ⟨k, last, proper', right⟩ := (deepEqual_number middle proper).mp second
          exact (deepEqual_number rfl rfl).mpr ⟨k, last, proper', Number.same_trans left right⟩
      | undefined =>
          cases b <;> simp [deepEqual, isUndefined] at first
          exact second
      | null =>
          cases b <;> simp [deepEqual, isNull] at first
          exact second
      | list xs | tuple xs =>
          cases b <;> simp [deepEqual] at first
          cases c <;> simp [deepEqual] at second ⊢
          rw [isTidy, allTidy_iff] at tidy
          exact deepEqualEach_trans (fun x member y isIn z => ih x member (tidy y isIn)) first second
      | set z xs =>
          cases b <;> simp [deepEqual] at first
          cases c <;> simp [deepEqual] at second ⊢
          exact sameKey_trans first second
      | dict es =>
          cases b <;> simp [deepEqual] at first
          cases c <;> simp [deepEqual] at second ⊢
          obtain ⟨-, entries⟩ := isTidy_dict.mp tidy
          refine ⟨first.1.trans second.1, deepEqualEntries_trans (fun f member => (entries f member).1) ?_ first.2 second.2⟩
          intro e member f isIn w
          exact ih e.2 (mem_parts_dict.mpr ⟨e, member, .inr rfl⟩) (entries f isIn).2
      | leaf x =>
          cases b <;> simp [deepEqual] at first
          cases c <;> simp [deepEqual] at second ⊢
          exact BEq.trans first second
      | clock x =>
          cases b <;> simp [deepEqual, Clock.same_iff] at first
          cases c <;> simp [deepEqual, Clock.same_iff] at second ⊢
          exact ⟨first.1.trans second.1, first.2.trans second.2⟩
      | moment x =>
          cases b <;> simp [deepEqual, Moment.same_iff] at first
          cases c <;> simp [deepEqual, Moment.same_iff] at second ⊢
          exact ⟨first.1.trans second.1, first.2.trans second.2⟩
      | bool | str | bytes | date =>
          cases b <;> simp [deepEqual] at first
          cases c <;> simp [deepEqual] at second ⊢
          exact first.trans second

/-! ## Reflexivity -/

theorem sameKeyEach_self (each : ∀ x ∈ xs, sameKey x x) : sameKeyEach xs xs := by
  induction xs with
  | nil => rfl
  | cons x xs ih =>
      obtain ⟨here, rest⟩ := List.forall_mem_cons.mp each
      rw [sameKeyEach, here, ih rest]
      rfl

theorem sameKey_self [ReflBEq α] (sound : v.isSound) (hashable : v.isHashable) (ordered : v.isNanFree) :
    sameKey v v := by
  induction v using ofParts with
  | step v ih =>
      obtain ⟨keyed, parts⟩ := isSound_iff.mp sound
      obtain ⟨told, others⟩ := isNanFree_iff.mp ordered
      cases number : v.number? with
      | some n =>
          exact (sameKey_number number).mpr ⟨n, number, Number.sameKey_iff.mpr (.inr (number_self number told))⟩
      | none =>
          cases v with
          | bool | int | float => cases number
          | list | dict => cases hashable
          | tuple xs =>
              rw [isHashable, allHashable_iff] at hashable
              rw [sameKey]
              exact sameKeyEach_self fun x member => ih x member (parts x member) (hashable x member) (others x member)
          | set z xs =>
              obtain ⟨members, -⟩ := areKeys_iff.mp keyed
              rw [sameKey, Bool.and_eq_true, sameKeySome_iff]
              refine ⟨beq_self_eq_true _, fun x member => ⟨x, member, ?_⟩⟩
              exact ih x member (parts x member) (members x member) (others x member)
          | clock c => exact Clock.same_self c
          | moment m => exact Moment.same_self m
          | _ => simp [sameKey, isUndefined, isNull]

theorem deepEqualEach_self (each : ∀ x ∈ xs, deepEqual x x) : deepEqualEach xs xs :=
  deepEqualEach_iff.mpr (List.forall₂_same.mpr each)

theorem deepEqual_self [EquivBEq α] (sound : v.isSound) (ordered : v.isNanFree) : deepEqual v v := by
  induction v using ofParts with
  | step v ih =>
      obtain ⟨keyed, parts⟩ := isSound_iff.mp sound
      obtain ⟨told, others⟩ := isNanFree_iff.mp ordered
      have each : ∀ w ∈ v.parts, deepEqual w w := fun w part => ih w part (parts w part) (others w part)
      cases v with
      | int x => exact (deepEqual_number rfl rfl).mpr ⟨_, rfl, rfl, number_self rfl told⟩
      | float x => exact (deepEqual_number rfl rfl).mpr ⟨_, rfl, rfl, number_self rfl told⟩
      | list xs | tuple xs =>
          rw [deepEqual]
          exact deepEqualEach_self each
      | set z xs =>
          obtain ⟨members, -⟩ := areKeys_iff.mp keyed
          rw [deepEqual, sameKey, Bool.and_eq_true, sameKeySome_iff]
          refine ⟨beq_self_eq_true _, fun x member => ⟨x, member, ?_⟩⟩
          exact sameKey_self (parts x member) (members x member) (others x member)
      | dict es =>
          obtain ⟨keys, apart⟩ := areKeys_iff.mp keyed
          have proper : ∀ e ∈ es, e.1.isProper := fun e member => isProper_of_isSound (isSound_entry sound member).1
          rw [deepEqual, Bool.and_eq_true, deepEqualEntries_iff]
          refine ⟨beq_self_eq_true _, fun e member => ⟨e.2, ?_, ?_⟩⟩
          · have key := mem_parts_dict.mpr ⟨e, member, .inl rfl⟩
            refine find?_of_mem (List.pairwise_map.mp apart) proper member ?_
            exact sameKey_self (parts _ key) (keys _ (List.mem_map_of_mem member)) (others _ key)
          · exact each _ (mem_parts_dict.mpr ⟨e, member, .inr rfl⟩)
      | clock c => exact Clock.same_self c
      | moment m => exact Moment.same_self m
      | _ => simp [deepEqual, isUndefined, isNull]

end Datum

end Conform
