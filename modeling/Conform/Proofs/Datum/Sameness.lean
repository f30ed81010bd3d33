import Mathlib.Data.Fintype.EquivFin
import Conform.Proofs.Datum.Entries
import Conform.Proofs.Number.Regular

/-!
# Being the same key

Being the same key is transitive. It is symmetric where the sets of the first datum list no member twice: two such
sets of one size have the same members as soon as the members of the one are members of the other.
-/

namespace Conform

/-! ## Numbers -/

namespace Dyadic

variable {a b c : Dyadic}

theorem compare_symm (same : a.compare b = .eq) : b.compare a = .eq := by
  refine (compare_eq_iff (l := min a.exponent b.exponent) (by omega) (by omega)).mpr ?_
  exact ((compare_eq_iff (by omega) (by omega)).mp same).symm

theorem compare_trans (left : a.compare b = .eq) (right : b.compare c = .eq) : a.compare c = .eq := by
  let l := min a.exponent (min b.exponent c.exponent)
  refine (compare_eq_iff (l := l) (by omega) (by omega)).mpr ?_
  exact ((compare_eq_iff (by omega) (by omega)).mp left).trans ((compare_eq_iff (by omega) (by omega)).mp right)

end Dyadic

namespace Number

variable {m n k : Number}

theorem same_iff : m.same n ↔ (∃ s, m = .float (.infinity s) ∧ n = .float (.infinity s)) ∨
    ∃ x y, m.toDyadic? = some x ∧ n.toDyadic? = some y ∧ x.compare y = .eq := by
  have unequal : ∀ s : Bool, (if s then Ordering.lt else .gt) ≠ .eq ∧ (if s then Ordering.gt else .lt) ≠ .eq := by
    decide
  cases m with
  | int =>
      cases n with
      | int => simp [same, compare?, toDyadic?]
      | float y => cases y <;> simp [same, compare?, toDyadic?, Binary64.toDyadic?, unequal]
  | float x =>
      cases n with
      | int => cases x <;> simp [same, compare?, toDyadic?, Binary64.toDyadic?, unequal]
      | float y =>
          cases x with
          | infinity s =>
              cases y with
              | infinity t => cases s <;> cases t <;> simp [same, compare?, toDyadic?, Binary64.toDyadic?]
              | _ => simp [same, compare?, toDyadic?, Binary64.toDyadic?, unequal]
          | _ => cases y <;> simp [same, compare?, toDyadic?, Binary64.toDyadic?, unequal]

theorem sameKey_iff : m.sameKey n ↔
    (∃ i, m = .float (.nan (some i)) ∧ n = .float (.nan (some i))) ∨ m.same n := by
  cases m with
  | int => simp [sameKey]
  | float x =>
      cases n with
      | int => simp [sameKey]
      | float y =>
          rw [sameKey, Bool.or_eq_true]
          refine or_congr_left ?_
          unfold Binary64.sameNan
          split
          · simp only [beq_iff_eq, float.injEq, Binary64.nan.injEq, Option.some.injEq]
            constructor
            · intro same
              exact ⟨_, rfl, same.symm⟩
            · rintro ⟨_, left, right⟩
              exact left.trans right.symm
          · simp_all

theorem sameKey_symm (same : m.sameKey n) : n.sameKey m := by
  rw [sameKey_iff, same_iff] at same ⊢
  rcases same with ⟨i, left, right⟩ | ⟨s, left, right⟩ | ⟨x, y, left, right, equal⟩
  · exact .inl ⟨i, right, left⟩
  · exact .inr (.inl ⟨s, right, left⟩)
  · exact .inr (.inr ⟨y, x, right, left, Dyadic.compare_symm equal⟩)

theorem sameKey_trans (first : m.sameKey n) (second : n.sameKey k) : m.sameKey k := by
  rw [sameKey_iff, same_iff] at first second ⊢
  rcases first with ⟨i, rfl, rfl⟩ | ⟨s, rfl, rfl⟩ | ⟨x, y, left, right, equal⟩
  · simpa [toDyadic?, Binary64.toDyadic?] using second
  · simpa [toDyadic?, Binary64.toDyadic?] using second
  · rcases second with ⟨i, rfl, rfl⟩ | ⟨s, rfl, rfl⟩ | ⟨y', z, left', right', equal'⟩
    · cases right
    · cases right
    · cases right.symm.trans left'
      exact .inr (.inr ⟨x, z, left, right', Dyadic.compare_trans equal equal'⟩)

end Number

/-! ## Times and entities -/

/-- Clocks are the same if they show the same, with an offset or without. -/
theorem Clock.same_iff {a b : Clock} : a.same b ↔
    a.offset.isSome = b.offset.isSome ∧
      (a.sinceMidnight : Int) - a.offset.getD 0 = b.sinceMidnight - b.offset.getD 0 := by
  unfold Clock.same
  cases a.offset <;> cases b.offset <;> simp

theorem Moment.same_iff {a b : Moment} : a.same b ↔
    a.clock.offset.isSome = b.clock.offset.isSome ∧
      a.localTime - a.clock.offset.getD 0 = b.localTime - b.clock.offset.getD 0 := by
  unfold Moment.same
  cases a.clock.offset <;> cases b.clock.offset <;> simp

theorem Clock.same_self (c : Clock) : c.same c := by
  unfold Clock.same
  cases c.offset <;> simp only [beq_self_eq_true]

theorem Moment.same_self (m : Moment) : m.same m := by
  unfold Moment.same
  cases m.clock.offset <;> simp only [beq_self_eq_true]

namespace Entity

theorem same_self (e : Entity) : e.same e := by
  cases e with
  | copy n e => simp [same, same_self e]
  | _ => simp [same]

theorem same_symm {a b : Entity} (alike : a.same b) : b.same a := by
  cases a with
  | copy n a =>
      cases b with
      | copy m b =>
          simp only [same, Bool.and_eq_true, beq_iff_eq] at alike ⊢
          exact ⟨alike.1.symm, same_symm alike.2⟩
      | _ => cases alike
  | _ => cases b <;> simp_all [same]

theorem same_trans {a b c : Entity} (first : a.same b) (second : b.same c) : a.same c := by
  cases a with
  | copy n a =>
      cases b with
      | copy m b =>
          cases c with
          | copy l c =>
              simp only [same, Bool.and_eq_true, beq_iff_eq] at first second ⊢
              exact ⟨first.1.trans second.1, same_trans first.2 second.2⟩
          | _ => cases second
      | _ => cases first
  | _ => cases b <;> cases c <;> simp_all [same]

instance : EquivBEq Entity where
  rfl := same_self _
  symm := same_symm
  trans := same_trans

end Entity

/-! ## Data -/

/-- Two lists of one length are paired one to one, if each element of the first is related to one of the second and no
two of them to the same. -/
theorem exists_pairing {α β : Type} {R : α → β → Prop} {xs : List α} {ys : List β} (lengths : xs.length = ys.length)
    (related : ∀ x ∈ xs, ∃ y ∈ ys, R x y) (apart : xs.Pairwise fun a b => ∀ y, R a y → ¬ R b y) :
    ∃ pairing : Fin xs.length ≃ Fin ys.length, ∀ i, R (xs.get i) (ys.get (pairing i)) := by
  have placed : ∀ i : Fin xs.length, ∃ j : Fin ys.length, R (xs.get i) (ys.get j) := by
    intro i
    obtain ⟨y, member, here⟩ := related _ (xs.get_mem i)
    obtain ⟨j, rfl⟩ := List.get_of_mem member
    exact ⟨j, here⟩
  choose place here using placed
  have injective : place.Injective := by
    intro i j same
    have different := List.pairwise_iff_get.mp apart
    rcases lt_trichotomy i j with before | rfl | after
    · exact absurd (same ▸ here j) (different i j before _ (here i))
    · rfl
    · exact absurd (same ▸ here i) (different j i after _ (here j))
  have bijective := (Fintype.bijective_iff_injective_and_card place).mpr ⟨injective, by simpa using lengths⟩
  exact ⟨Equiv.ofBijective place bijective, here⟩

/-- Each element of the second list is then related to one of the first. -/
theorem exists_related {α β : Type} {R : α → β → Prop} {xs : List α} {ys : List β} (lengths : xs.length = ys.length)
    (related : ∀ x ∈ xs, ∃ y ∈ ys, R x y) (apart : xs.Pairwise fun a b => ∀ y, R a y → ¬ R b y) :
    ∀ y ∈ ys, ∃ x ∈ xs, R x y := by
  obtain ⟨pairing, here⟩ := exists_pairing lengths related apart
  intro y member
  obtain ⟨j, rfl⟩ := List.get_of_mem member
  obtain ⟨i, rfl⟩ := pairing.surjective j
  exact ⟨_, xs.get_mem i, here i⟩

namespace Datum

variable {α : Type} [BEq α]

mutual

/-- Whether no set in the datum lists a member twice. -/
def isProper : Datum α → Bool
  | list xs | tuple xs => allProper xs
  | set _ xs => allProper xs && decide (xs.Pairwise fun x y => sameKey x y = false)
  | dict es => allEntriesProper es
  | _ => true

def allProper : List (Datum α) → Bool
  | [] => true
  | x :: xs => isProper x && allProper xs

def allEntriesProper : Entries α → Bool
  | [] => true
  | (k, v) :: es => isProper k && isProper v && allEntriesProper es

end

theorem allProper_iff {xs : List (Datum α)} : allProper xs ↔ ∀ x ∈ xs, x.isProper := by
  induction xs with
  | nil => simp [allProper]
  | cons x xs ih => simp [allProper, ih]

theorem isProper_list {xs : List (Datum α)} : (list xs).isProper ↔ ∀ x ∈ xs, x.isProper := by
  rw [isProper, allProper_iff]

theorem isProper_dict {es : Entries α} : (dict es).isProper ↔ ∀ e ∈ es, e.1.isProper ∧ e.2.isProper := by
  rw [isProper]
  induction es with
  | nil => simp [allEntriesProper]
  | cons e es ih => simp [allEntriesProper, ih, and_assoc]

theorem find?_proper {es : Entries α} (proper : ∀ e ∈ es, e.1.isProper ∧ e.2.isProper) (k : Datum α) :
    ((find? k es).getD .undefined).isProper := by
  cases found : find? k es with
  | none => rfl
  | some v =>
      obtain ⟨j, member⟩ := find?_mem found
      exact (proper _ member).2

theorem sameKeySome_iff {xs ys : List (Datum α)} : sameKeySome xs ys ↔ ∀ x ∈ xs, ∃ y ∈ ys, sameKey x y := by
  induction xs with
  | nil => simp [sameKeySome]
  | cons x xs ih => simp [sameKeySome, ih]

theorem sameKey_number {a b : Datum α} {n : Number} (number : a.number? = some n) :
    sameKey a b ↔ ∃ m, b.number? = some m ∧ n.sameKey m := by
  have compared : sameKey a b = sameKey.numberIs n b := by
    cases a <;> simp [number?] at number <;> rw [← number, sameKey]
  rw [compared, sameKey.numberIs]
  cases b.number? <;> simp

variable {xs ys zs : List (Datum α)}

theorem sameKeyEach_trans (each : ∀ x ∈ xs, ∀ y z, sameKey x y → sameKey y z → sameKey x z)
    (first : sameKeyEach xs ys) (second : sameKeyEach ys zs) : sameKeyEach xs zs := by
  induction xs generalizing ys zs with
  | nil =>
      obtain rfl : ys = [] := by simpa [sameKeyEach] using first
      exact second
  | cons x xs ih =>
      obtain ⟨here, rest⟩ := List.forall_mem_cons.mp each
      rcases ys with _ | ⟨y, ys⟩
      · cases first
      · rcases zs with _ | ⟨z, zs⟩
        · cases second
        · simp only [sameKeyEach, Bool.and_eq_true] at first second ⊢
          exact ⟨here y z first.1 second.1, ih rest first.2 second.2⟩

theorem sameKeyEach_symm (each : ∀ x ∈ xs, ∀ y, sameKey x y → sameKey y x) (same : sameKeyEach xs ys) :
    sameKeyEach ys xs := by
  induction xs generalizing ys with
  | nil =>
      obtain rfl : ys = [] := by simpa [sameKeyEach] using same
      rfl
  | cons x xs ih =>
      obtain ⟨here, rest⟩ := List.forall_mem_cons.mp each
      rcases ys with _ | ⟨y, ys⟩
      · cases same
      · simp only [sameKeyEach, Bool.and_eq_true] at same ⊢
        exact ⟨here y same.1, ih rest same.2⟩

theorem sameKeySome_trans (each : ∀ x ∈ xs, ∀ y z, sameKey x y → sameKey y z → sameKey x z)
    (first : sameKeySome xs ys) (second : sameKeySome ys zs) : sameKeySome xs zs := by
  rw [sameKeySome_iff] at first second ⊢
  intro x member
  obtain ⟨y, isIn, left⟩ := first x member
  obtain ⟨z, isLast, right⟩ := second y isIn
  exact ⟨z, isLast, each x member y z left right⟩

mutual

theorem sameKey_trans [PartialEquivBEq α] {a b c : Datum α} (first : sameKey a b) (second : sameKey b c) :
    sameKey a c := by
  cases number : a.number? with
  | some n =>
      obtain ⟨m, middle, left⟩ := (sameKey_number number).mp first
      obtain ⟨k, last, right⟩ := (sameKey_number middle).mp second
      exact (sameKey_number number).mpr ⟨k, last, Number.sameKey_trans left right⟩
  | none =>
      cases a with
      | bool | int | float => cases number
      | undefined =>
          cases b <;> simp [sameKey, isUndefined] at first
          exact second
      | null =>
          cases b <;> simp [sameKey, isNull] at first
          exact second
      | dict => simp [sameKey] at first
      | list xs | tuple xs =>
          cases b <;> simp [sameKey] at first
          cases c <;> simp [sameKey] at second ⊢
          exact sameKeyEach_trans (sameKey_trans_each xs) first second
      | set z xs =>
          cases b <;> simp [sameKey] at first
          cases c <;> simp [sameKey] at second ⊢
          exact ⟨first.1.trans second.1, sameKeySome_trans (sameKey_trans_each xs) first.2 second.2⟩
      | leaf x =>
          cases b <;> simp [sameKey] at first
          cases c <;> simp [sameKey] at second ⊢
          exact BEq.trans first second
      | clock x =>
          cases b <;> simp [sameKey, Clock.same_iff] at first
          cases c <;> simp [sameKey, Clock.same_iff] at second ⊢
          exact ⟨first.1.trans second.1, first.2.trans second.2⟩
      | moment x =>
          cases b <;> simp [sameKey, Moment.same_iff] at first
          cases c <;> simp [sameKey, Moment.same_iff] at second ⊢
          exact ⟨first.1.trans second.1, first.2.trans second.2⟩
      | str | bytes | date =>
          cases b <;> simp [sameKey] at first
          cases c <;> simp [sameKey] at second ⊢
          exact first.trans second

theorem sameKey_trans_each [PartialEquivBEq α] (xs : List (Datum α)) :
    ∀ x ∈ xs, ∀ y z, sameKey x y → sameKey y z → sameKey x z := by
  cases xs with
  | nil => exact List.forall_mem_nil _
  | cons x xs => exact List.forall_mem_cons.mpr ⟨fun _ _ => sameKey_trans, sameKey_trans_each xs⟩

end

mutual

theorem sameKey_symm [PartialEquivBEq α] {a b : Datum α} (proper : a.isProper) (same : sameKey a b) : sameKey b a := by
  cases number : a.number? with
  | some n =>
      obtain ⟨m, other, alike⟩ := (sameKey_number number).mp same
      exact (sameKey_number other).mpr ⟨n, number, Number.sameKey_symm alike⟩
  | none =>
      cases a with
      | bool | int | float => cases number
      | undefined => cases b <;> simp [sameKey, isUndefined] at same ⊢
      | null => cases b <;> simp [sameKey, isNull] at same ⊢
      | dict => simp [sameKey] at same
      | list xs | tuple xs =>
          rw [isProper] at proper
          cases b <;> simp [sameKey] at same ⊢
          exact sameKeyEach_symm (sameKey_symm_each xs proper) same
      | set z xs =>
          rw [isProper, Bool.and_eq_true, decide_eq_true_eq] at proper
          obtain ⟨each, apart⟩ := proper
          have symm := sameKey_symm_each xs each
          cases b <;> simp [sameKey] at same ⊢
          obtain ⟨lengths, related⟩ := same
          refine ⟨lengths.symm, sameKeySome_iff.mpr fun y member => ?_⟩
          -- If two members were the same as one of the other set, they would be the same.
          have single : xs.Pairwise fun x x' => ∀ y, sameKey x y → ¬ sameKey x' y := by
            refine apart.imp_of_mem fun first second different y left right => ?_
            rw [sameKey_trans left (symm _ second y right)] at different
            cases different
          obtain ⟨x, isIn, alike⟩ := exists_related lengths (sameKeySome_iff.mp related) single y member
          exact ⟨x, isIn, symm x isIn y alike⟩
      | leaf x =>
          cases b <;> simp [sameKey] at same ⊢
          exact BEq.symm same
      | clock x =>
          cases b <;> simp [sameKey, Clock.same_iff] at same ⊢
          exact ⟨same.1.symm, same.2.symm⟩
      | moment x =>
          cases b <;> simp [sameKey, Moment.same_iff] at same ⊢
          exact ⟨same.1.symm, same.2.symm⟩
      | str | bytes | date =>
          cases b <;> simp [sameKey] at same ⊢
          exact same.symm

theorem sameKey_symm_each [PartialEquivBEq α] (xs : List (Datum α)) (proper : allProper xs) :
    ∀ x ∈ xs, ∀ y, sameKey x y → sameKey y x := by
  cases xs with
  | nil => exact List.forall_mem_nil _
  | cons x xs =>
      rw [allProper, Bool.and_eq_true] at proper
      exact List.forall_mem_cons.mpr ⟨fun _ => sameKey_symm proper.1, sameKey_symm_each xs proper.2⟩

end

theorem find?_same [PartialEquivBEq α] {β : Type} {k l : Datum α} (proper : k.isProper) (same : sameKey k l)
    (es : List (Datum α × β)) : find? l es = find? k es := by
  have back := sameKey_symm proper same
  refine find?_congr fun j _ => Bool.eq_iff_iff.mpr ⟨fun own => ?_, fun own => ?_⟩
  · exact sameKey_trans own back
  · exact sameKey_trans own same

theorem proper_parted [PartialEquivBEq α] {ks : List (Datum α)} {k l : Datum α} (proper : ∀ j ∈ ks, j.isProper)
    (different : sameKey k l = false) : Parted ks k l := by
  intro j member same
  by_contra other
  rw [Bool.not_eq_false] at other
  rw [sameKey_trans (sameKey_symm (proper j member) same) other] at different
  cases different

end Datum

end Conform
