import Mathlib.Tactic.ByContra
import Conform.Datum.Key

/-!
# Where entries come from

What a look-up finds is an entry, and an entry of a changed list is a new one or was there before.
-/

namespace Conform.Datum

variable {α β : Type} [BEq α]

theorem find?_mem {k : Datum α} {es : List (Datum α × β)} {v : β} (found : find? k es = some v) :
    ∃ j, (j, v) ∈ es := by
  induction es with
  | nil => simp [find?] at found
  | cons e es ih =>
      obtain ⟨j, w⟩ := e
      rw [find?] at found
      split at found
      · obtain rfl := Option.some.inj found
        exact ⟨j, by simp⟩
      · obtain ⟨i, member⟩ := ih found
        exact ⟨i, by simp [member]⟩

theorem mem_insert {k : Datum α} {v : β} {es : List (Datum α × β)} {e : Datum α × β}
    (member : e ∈ insert k v es) : e ∈ es ∨ e.2 = v ∧ (e.1 = k ∨ ∃ w, (e.1, w) ∈ es) := by
  induction es with
  | nil =>
      obtain rfl : e = (k, v) := by simpa [insert] using member
      exact .inr ⟨rfl, .inl rfl⟩
  | cons d es ih =>
      obtain ⟨j, w⟩ := d
      rw [insert] at member
      split at member
      · rcases List.mem_cons.mp member with rfl | old
        · exact .inr ⟨rfl, .inr ⟨w, by simp⟩⟩
        · exact .inl (by simp [old])
      · rcases List.mem_cons.mp member with rfl | rest
        · exact .inl (by simp)
        · rcases ih rest with old | ⟨isNew, isKey | ⟨u, old⟩⟩
          · exact .inl (by simp [old])
          · exact .inr ⟨isNew, .inl isKey⟩
          · exact .inr ⟨isNew, .inr ⟨u, by simp [old]⟩⟩

theorem mem_erase {k : Datum α} {es : List (Datum α × β)} {e : Datum α × β}
    (member : e ∈ erase k es) : e ∈ es := (List.mem_filter.mp member).1

/-! ## Looking up after a change -/

/-- A datum that entries can be found under. -/
structure IsKey (k : Datum α) : Prop where
  hashable : k.isHashable
  itself : sameKey k k
  symm : ∀ j, sameKey j k → sameKey k j

/-- No datum is the same key as both. -/
def Apart (k l : Datum α) : Prop := ∀ j, sameKey j k → sameKey j l = false

theorem Apart.symm {k l : Datum α} (apart : Apart k l) : Apart l k := by
  intro j same
  by_contra other
  have both := apart j (by simpa using other)
  simp [same] at both

/-- No key of a list is the same key as both. -/
def Parted (ks : List (Datum α)) (k l : Datum α) : Prop := ∀ j ∈ ks, sameKey j k → sameKey j l = false

theorem Parted.symm {ks : List (Datum α)} {k l : Datum α} (parted : Parted ks k l) : Parted ks l k := by
  intro j member same
  by_contra other
  rw [Bool.not_eq_false] at other
  rw [parted j member other] at same
  cases same

theorem Apart.parted {k l : Datum α} (apart : Apart k l) {ks : List (Datum α)} : Parted ks k l := fun j _ => apart j

theorem find?_congr {k l : Datum α} {es : List (Datum α × β)}
    (same : ∀ j ∈ es.map Prod.fst, sameKey j k = sameKey j l) : find? k es = find? l es := by
  induction es with
  | nil => rfl
  | cons e es ih =>
      obtain ⟨here, rest⟩ := List.forall_mem_cons.mp same
      obtain ⟨j, v⟩ := e
      rw [find?, find?, here, ih rest]

theorem find?_insert_self {k : Datum α} {es : List (Datum α × β)} (itself : find? k es = none → sameKey k k) (v : β) :
    find? k (insert k v es) = some v := by
  induction es with
  | nil => simp [insert, find?, itself rfl]
  | cons e es ih =>
      obtain ⟨j, w⟩ := e
      rw [find?] at itself
      by_cases same : sameKey j k
      · simp [insert, find?, same]
      · rw [if_neg same] at itself
        simp [insert, find?, same, ih itself]

theorem find?_insert_apart {k l : Datum α} {es : List (Datum α × β)}
    (parted : Parted (es.map Prod.fst) k l) (fresh : find? k es = none → sameKey k l = false) (v : β) :
    find? l (insert k v es) = find? l es := by
  induction es with
  | nil => simp [insert, find?, fresh rfl]
  | cons e es ih =>
      obtain ⟨j, w⟩ := e
      obtain ⟨here, rest⟩ := List.forall_mem_cons.mp parted
      rw [find?] at fresh
      by_cases same : sameKey j k
      · simp [insert, find?, same, here same]
      · rw [if_neg same] at fresh
        simp [insert, find?, same, ih rest fresh]

theorem insert_found {k : Datum α} {es : List (Datum α × β)} {v : β} (found : find? k es = some v) :
    insert k v es = es := by
  induction es with
  | nil => cases found
  | cons e es ih =>
      obtain ⟨j, w⟩ := e
      rw [find?] at found
      by_cases same : sameKey j k
      · rw [if_pos same] at found
        obtain rfl := Option.some.inj found
        rw [insert, if_pos same]
      · rw [if_neg same] at found
        rw [insert, if_neg same, ih found]

theorem map_fst_insert {k : Datum α} {es : List (Datum α × β)} {w : β} (found : find? k es = some w) (v : β) :
    (insert k v es).map Prod.fst = es.map Prod.fst := by
  induction es with
  | nil => cases found
  | cons e es ih =>
      obtain ⟨j, u⟩ := e
      rw [find?] at found
      by_cases same : sameKey j k
      · simp [insert, same]
      · rw [if_neg same] at found
        simp [insert, same, ih found]

theorem find?_erase_self (k : Datum α) (es : List (Datum α × β)) : find? k (erase k es) = none := by
  induction es with
  | nil => rfl
  | cons e es ih =>
      obtain ⟨j, w⟩ := e
      unfold erase at ih ⊢
      by_cases same : sameKey j k <;> simp [find?, same, ih]

theorem find?_filter {l : Datum α} {p : Datum α × β → Bool} {es : List (Datum α × β)}
    (stays : ∀ e ∈ es, sameKey e.1 l → p e) : find? l (es.filter p) = find? l es := by
  induction es with
  | nil => rfl
  | cons e es ih =>
      obtain ⟨j, w⟩ := e
      have rest := ih fun d member => stays d (by simp [member])
      by_cases same : sameKey j l
      · have kept : p (j, w) := stays (j, w) (by simp) same
        simp [find?, same, kept]
      · by_cases kept : p (j, w) <;> simp [find?, same, kept, rest]

theorem find?_erase_apart {k l : Datum α} {es : List (Datum α × β)} (parted : Parted (es.map Prod.fst) k l) :
    find? l (erase k es) = find? l es := by
  apply find?_filter
  intro e member same
  simp [parted.symm e.1 (List.mem_map_of_mem member) same]

theorem sameKey_str {s : String} {j : Datum α} : sameKey j (str s) = true ↔ j = str s := by
  cases j <;> simp [sameKey, sameKey.numberIs, number?, isUndefined, isNull]

theorem isKey_str (s : String) : (str s : Datum α).IsKey where
  hashable := by simp [isHashable]
  itself := sameKey_str.mpr rfl
  symm j same := by rw [sameKey_str.mp same]; exact sameKey_str.mpr rfl

theorem apart_str {s t : String} (different : s ≠ t) : Apart (str s : Datum α) (str t) := by
  intro j same
  rw [sameKey_str.mp same]
  simp [sameKey, different]

end Conform.Datum
