import Conform.Datum.Equality
import Conform.Proofs.Datum.Sameness

/-!
# Deep equality seen from both sides

Deep equality is symmetric on data whose sets list no member twice and whose dictionaries no key. It asks of each
entry of the first dictionary whether the second has one like it, and as both have as many entries, each entry of the
second is met.
-/

namespace Conform

theorem Number.same_symm {m n : Number} (equal : m.same n) : n.same m := by
  rw [same_iff] at equal ⊢
  rcases equal with ⟨s, left, right⟩ | ⟨x, y, left, right, equal⟩
  · exact .inl ⟨s, right, left⟩
  · exact .inr ⟨y, x, right, left, Dyadic.compare_symm equal⟩

namespace Datum

variable {α : Type} [BEq α]

/-! ## Tidy data -/

mutual

/-- Whether no set in the datum lists a member twice and no dictionary a key. -/
def isTidy : Datum α → Bool
  | list xs | tuple xs => allTidy xs
  | set z xs => isProper (set z xs)
  | dict es => decide (es.Pairwise fun d e => sameKey d.1 e.1 = false) && allEntriesTidy es
  | _ => true

def allTidy : List (Datum α) → Bool
  | [] => true
  | x :: xs => isTidy x && allTidy xs

def allEntriesTidy : Entries α → Bool
  | [] => true
  | (k, v) :: es => isProper k && isTidy v && allEntriesTidy es

end

variable {xs ys : List (Datum α)} {es fs : Entries α}

theorem allEntriesTidy_iff : allEntriesTidy es ↔ ∀ e ∈ es, e.1.isProper ∧ e.2.isTidy := by
  induction es with
  | nil => simp [allEntriesTidy]
  | cons e es ih => simp [allEntriesTidy, ih, and_assoc]

theorem isTidy_dict : (dict es).isTidy ↔
    es.Pairwise (fun d e => sameKey d.1 e.1 = false) ∧ ∀ e ∈ es, e.1.isProper ∧ e.2.isTidy := by
  rw [isTidy, Bool.and_eq_true, decide_eq_true_eq, allEntriesTidy_iff]

/-! ## Looking up an entry -/

/-- Where no key is listed twice, an entry is found under every datum that is the same key as its own. -/
theorem find?_of_mem [PartialEquivBEq α] {β : Type} {es : List (Datum α × β)}
    (apart : es.Pairwise fun d e => sameKey d.1 e.1 = false) (proper : ∀ e ∈ es, e.1.isProper) {e : Datum α × β}
    (member : e ∈ es) {k : Datum α} (same : sameKey e.1 k) : find? k es = some e.2 := by
  induction es with
  | nil => cases member
  | cons d es ih =>
      obtain ⟨here, rest⟩ := List.pairwise_cons.mp apart
      obtain ⟨j, v⟩ := d
      rcases List.mem_cons.mp member with rfl | later
      · rw [find?, if_pos same]
      · have other : sameKey j k ≠ true := by
          intro first
          have both := sameKey_trans first (sameKey_symm (proper e member) same)
          exact Bool.false_ne_true ((here e later).symm.trans both)
        rw [find?, if_neg other]
        exact ih rest (fun d below => proper d (List.mem_cons_of_mem _ below)) later

theorem find?_entry {β : Type} {k : Datum α} {es : List (Datum α × β)} {v : β} (found : find? k es = some v) :
    ∃ j, (j, v) ∈ es ∧ sameKey j k := by
  induction es with
  | nil => cases found
  | cons e es ih =>
      obtain ⟨j, w⟩ := e
      rw [find?] at found
      split at found
      · rename_i same
        obtain rfl := Option.some.inj found
        exact ⟨j, by simp, same⟩
      · obtain ⟨i, member, same⟩ := ih found
        exact ⟨i, by simp [member], same⟩

theorem deepEqualEntries_iff :
    deepEqualEntries es fs ↔ ∀ e ∈ es, ∃ w, find? e.1 fs = some w ∧ deepEqual e.2 w := by
  induction es with
  | nil => simp [deepEqualEntries]
  | cons e es ih =>
      obtain ⟨k, v⟩ := e
      rw [deepEqualEntries, Bool.and_eq_true, ih, List.forall_mem_cons]
      refine and_congr_left fun _ => ?_
      cases find? k fs <;> simp

/-! ## Symmetry -/

theorem deepEqualEach_symm (each : ∀ x ∈ xs, ∀ y, y.isTidy → deepEqual x y → deepEqual y x) (tidy : allTidy ys)
    (equal : deepEqualEach xs ys) : deepEqualEach ys xs := by
  induction xs generalizing ys with
  | nil =>
      obtain rfl : ys = [] := by simpa [deepEqualEach] using equal
      rfl
  | cons x xs ih =>
      obtain ⟨here, rest⟩ := List.forall_mem_cons.mp each
      rcases ys with _ | ⟨y, ys⟩
      · cases equal
      · rw [allTidy, Bool.and_eq_true] at tidy
        simp only [deepEqualEach, Bool.and_eq_true] at equal ⊢
        exact ⟨here y tidy.1 equal.1, ih rest tidy.2 equal.2⟩

/-- Two dictionaries of one size have the same entries as soon as the entries of the one are in the other. -/
theorem deepEqualEntries_symm [PartialEquivBEq α] (left : (dict es).isTidy) (right : (dict fs).isTidy)
    (each : ∀ e ∈ es, ∀ w, w.isTidy → deepEqual e.2 w → deepEqual w e.2) (sizes : es.length = fs.length)
    (equal : deepEqualEntries es fs) : deepEqualEntries fs es := by
  obtain ⟨apart, proper⟩ := isTidy_dict.mp left
  obtain ⟨-, proper'⟩ := isTidy_dict.mp right
  rw [deepEqualEntries_iff] at equal ⊢
  let alike (d e : Datum α × Datum α) : Prop := sameKey d.1 e.1 ∧ deepEqual d.2 e.2
  have related : ∀ e ∈ es, ∃ f ∈ fs, alike e f := by
    intro e member
    obtain ⟨w, found, same⟩ := equal e member
    obtain ⟨j, isIn, key⟩ := find?_entry found
    exact ⟨(j, w), isIn, sameKey_symm (proper' _ isIn).1 key, same⟩
  have single : es.Pairwise fun d e => ∀ f, alike d f → ¬ alike e f := by
    refine apart.imp_of_mem fun {d e} _ second different f one other => ?_
    have both := sameKey_trans one.1 (sameKey_symm (proper e second).1 other.1)
    exact Bool.false_ne_true (different.symm.trans both)
  intro f member
  obtain ⟨e, isIn, key, same⟩ := exists_related sizes related single f member
  have found := find?_of_mem apart (fun e member => (proper e member).1) isIn key
  exact ⟨e.2, found, each e isIn f.2 (proper' f member).2 same⟩

mutual

theorem deepEqual_symm [PartialEquivBEq α] {a b : Datum α} (left : a.isTidy) (right : b.isTidy)
    (equal : deepEqual a b) : deepEqual b a := by
  cases a with
  | undefined => cases b <;> simp [deepEqual, isUndefined] at equal ⊢
  | null => cases b <;> simp [deepEqual, isNull] at equal ⊢
  | int x =>
      cases b <;> simp [deepEqual] at equal ⊢
      · exact equal.symm
      · exact Number.same_symm equal
  | float x => cases b <;> simp [deepEqual] at equal ⊢ <;> exact Number.same_symm equal
  | list xs | tuple xs =>
      rw [isTidy] at left
      cases b <;> simp [deepEqual] at equal ⊢
      rw [isTidy] at right
      exact deepEqualEach_symm (deepEqual_symm_each xs left) right equal
  | set z xs =>
      rw [isTidy] at left
      cases b <;> simp [deepEqual] at equal ⊢
      exact sameKey_symm left equal
  | dict es =>
      cases b <;> simp [deepEqual] at equal ⊢
      have entries := deepEqual_symm_entries es (isTidy_dict.mp left).2
      exact ⟨equal.1.symm, deepEqualEntries_symm left right entries equal.1 equal.2⟩
  | leaf x =>
      cases b <;> simp [deepEqual] at equal ⊢
      exact BEq.symm equal
  | clock x =>
      cases b <;> simp [deepEqual, Clock.same_iff] at equal ⊢
      exact ⟨equal.1.symm, equal.2.symm⟩
  | moment x =>
      cases b <;> simp [deepEqual, Moment.same_iff] at equal ⊢
      exact ⟨equal.1.symm, equal.2.symm⟩
  | bool | str | bytes | date =>
      cases b <;> simp [deepEqual] at equal ⊢
      exact equal.symm

theorem deepEqual_symm_each [PartialEquivBEq α] (xs : List (Datum α)) (tidy : allTidy xs) :
    ∀ x ∈ xs, ∀ y, y.isTidy → deepEqual x y → deepEqual y x := by
  cases xs with
  | nil => exact List.forall_mem_nil _
  | cons x xs =>
      rw [allTidy, Bool.and_eq_true] at tidy
      exact List.forall_mem_cons.mpr ⟨fun _ => deepEqual_symm tidy.1, deepEqual_symm_each xs tidy.2⟩

theorem deepEqual_symm_entries [PartialEquivBEq α] (es : Entries α) (tidy : ∀ e ∈ es, e.1.isProper ∧ e.2.isTidy) :
    ∀ e ∈ es, ∀ w, w.isTidy → deepEqual e.2 w → deepEqual w e.2 := by
  cases es with
  | nil => exact List.forall_mem_nil _
  | cons e es =>
      obtain ⟨here, rest⟩ := List.forall_mem_cons.mp tidy
      exact List.forall_mem_cons.mpr ⟨fun _ => deepEqual_symm here.2, deepEqual_symm_entries es rest⟩

end

end Datum

end Conform
