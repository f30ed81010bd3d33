import Conform.Datum.Copy
import Conform.Datum.Equality

/-!
# Data up to the numbers of copies

Two runs of one evaluation may make different numbers of copies. What they build is then alike: it is the same
once all copies made since the runs began have one number. Data from before, such as the literals of a schema,
compare with alike data alike.
-/

namespace Conform

namespace Entity

/-- The entity with `k` for the number of any copy from the `k`-th on. -/
def capped (k : Nat) : Entity → Entity
  | copy n e => copy (min n k) e
  | e => e

/-- An entity that is no copy from the `k`-th on. -/
def isOld (k : Nat) : Entity → Bool
  | copy n _ => n < k
  | _ => true

variable {k : Nat}

theorem capped_old {a : Entity} (old : a.isOld k) : a.capped k = a := by
  cases a with
  | copy n e =>
      have : min n k = n := Nat.min_eq_left (Nat.le_of_lt (by simpa [isOld] using old))
      rw [capped, this]
  | _ => rfl

theorem same_capped_right {a : Entity} (old : a.isOld k) (b : Entity) : (a == b.capped k) = (a == b) := by
  cases b with
  | copy n e =>
      cases a with
      | copy m d =>
          have : (m == min n k) = (m == n) := by
            have : m < k := by simpa [isOld] using old
            rw [Bool.eq_iff_iff, beq_iff_eq, beq_iff_eq]
            omega
          change (m == min n k && same d e) = (m == n && same d e)
          rw [this]
      | _ => rfl
  | _ => rfl

theorem same_capped_left {a : Entity} (old : a.isOld k) (b : Entity) : (b.capped k == a) = (b == a) := by
  cases b with
  | copy n e =>
      cases a with
      | copy m d =>
          have : (min n k == m) = (n == m) := by
            have : m < k := by simpa [isOld] using old
            rw [Bool.eq_iff_iff, beq_iff_eq, beq_iff_eq]
            omega
          change (min n k == m && same e d) = (n == m && same e d)
          rw [this]
      | _ => rfl
  | _ => rfl

theorem capped_copied {n : Nat} (later : k ≤ n) (a : Entity) : (a.copied n).capped k = a.copied k := by
  have : min n k = k := Nat.min_eq_right later
  cases a <;> simp [copied, capped, this]

@[simp] theorem isOld_capped (a : Entity) : (a.capped k).isOld k = a.isOld k := by
  cases a with
  | copy n e =>
      rw [capped, isOld, isOld, decide_eq_decide]
      omega
  | _ => rfl

@[simp] theorem size?_capped (a : Entity) : size? (a.capped k) = size? a := by cases a <;> rfl

end Entity

namespace Datum

variable {α β γ : Type}

/-! ## Maps of leaves -/

@[simp] theorem mapList_eq (f : α → β) (xs : List (Datum α)) : mapList f xs = xs.map (map f) := by
  induction xs with
  | nil => rfl
  | cons x xs ih => rw [mapList, ih, List.map_cons]

@[simp] theorem mapEntries_eq (f : α → β) (es : Entries α) :
    mapEntries f es = es.map fun e => (map f e.1, map f e.2) := by
  induction es with
  | nil => rfl
  | cons e es ih => rw [mapEntries, ih, List.map_cons]

mutual

theorem map_map (f : α → β) (g : β → γ) (v : Datum α) : (v.map f).map g = v.map fun a => g (f a) := by
  cases v with
  | list xs | tuple xs | set z xs =>
      simp only [map]
      rw [mapList_map]
  | dict es =>
      simp only [map]
      rw [mapEntries_map]
  | _ => rfl

theorem mapList_map (f : α → β) (g : β → γ) (xs : List (Datum α)) :
    mapList g (mapList f xs) = mapList (fun a => g (f a)) xs := by
  cases xs with
  | nil => rfl
  | cons x xs =>
      simp only [mapList]
      rw [map_map, mapList_map]

theorem mapEntries_map (f : α → β) (g : β → γ) (es : Entries α) :
    mapEntries g (mapEntries f es) = mapEntries (fun a => g (f a)) es := by
  cases es with
  | nil => rfl
  | cons e es =>
      simp only [mapEntries]
      rw [map_map, map_map, mapEntries_map]

end

mutual

theorem allLeaves_map (p : β → Bool) (f : α → β) (v : Datum α) :
    (v.map f).allLeaves p = v.allLeaves fun a => p (f a) := by
  cases v with
  | list xs | tuple xs | set z xs =>
      simp only [map, allLeaves]
      rw [allLeavesEach_map]
  | dict es =>
      simp only [map, allLeaves]
      rw [allLeavesEntries_map]
  | _ => rfl

theorem allLeavesEach_map (p : β → Bool) (f : α → β) (xs : List (Datum α)) :
    allLeavesEach p (mapList f xs) = allLeavesEach (fun a => p (f a)) xs := by
  cases xs with
  | nil => rfl
  | cons x xs =>
      simp only [mapList, allLeavesEach]
      rw [allLeaves_map, allLeavesEach_map]

theorem allLeavesEntries_map (p : β → Bool) (f : α → β) (es : Entries α) :
    allLeavesEntries p (mapEntries f es) = allLeavesEntries (fun a => p (f a)) es := by
  cases es with
  | nil => rfl
  | cons e es =>
      simp only [mapEntries, allLeavesEntries]
      rw [allLeaves_map, allLeaves_map, allLeavesEntries_map]

end

variable {f : α → α} {old : α → Bool}

mutual

theorem map_old (fixed : ∀ a, old a → f a = a) (v : Datum α) (only : v.allLeaves old) : v.map f = v := by
  cases v with
  | list xs | tuple xs | set z xs =>
      simp only [map]
      rw [mapList_old fixed xs (by simpa only [allLeaves] using only)]
  | dict es =>
      simp only [map]
      rw [mapEntries_old fixed es (by simpa only [allLeaves] using only)]
  | leaf a => exact congrArg leaf (fixed a (by simpa only [allLeaves] using only))
  | _ => rfl

theorem mapList_old (fixed : ∀ a, old a → f a = a) (xs : List (Datum α)) (only : allLeavesEach old xs) :
    mapList f xs = xs := by
  cases xs with
  | nil => rfl
  | cons x xs =>
      rw [allLeavesEach, Bool.and_eq_true] at only
      simp only [mapList]
      rw [map_old fixed x only.1, mapList_old fixed xs only.2]

theorem mapEntries_old (fixed : ∀ a, old a → f a = a) (es : Entries α) (only : allLeavesEntries old es) :
    mapEntries f es = es := by
  cases es with
  | nil => rfl
  | cons e es =>
      simp only [allLeavesEntries, Bool.and_eq_true] at only
      simp only [mapEntries]
      rw [map_old fixed e.1 only.1.1, map_old fixed e.2 only.1.2, mapEntries_old fixed es only.2]

end

@[simp] theorem isUndefined_map (f : α → β) (v : Datum α) : (v.map f).isUndefined = v.isUndefined := by
  cases v <;> rfl

@[simp] theorem isNull_map (f : α → β) (v : Datum α) : (v.map f).isNull = v.isNull := by cases v <;> rfl

@[simp] theorem number?_map (f : α → β) (v : Datum α) : (v.map f).number? = v.number? := by cases v <;> rfl

/-! ## Comparisons with old data -/

/-- Comparing with an old leaf does not see what a map does. -/
structure Blind [BEq α] (f : α → α) (old : α → Bool) : Prop where
  fixed : ∀ a, old a → f a = a
  right : ∀ a b, old a → (a == f b) = (a == b)
  left : ∀ a b, old a → (f b == a) = (b == a)

theorem numberIs_map (n : Number) (v : Datum α) : sameKey.numberIs n (v.map f) = sameKey.numberIs n v := by
  simp only [sameKey.numberIs, number?_map]

variable [BEq α]

mutual

theorem sameKey_map_right (blind : Blind f old) (k : Datum α) (only : k.allLeaves old) (v : Datum α) :
    sameKey k (v.map f) = sameKey k v := by
  cases k with
  | undefined => simp only [sameKey, isUndefined_map]
  | null => simp only [sameKey, isNull_map]
  | bool b => simp only [sameKey, numberIs_map]
  | int n => simp only [sameKey, numberIs_map]
  | float x => simp only [sameKey, numberIs_map]
  | list xs | tuple xs =>
      rw [allLeaves] at only
      cases v <;> simp only [map, sameKey]
      exact sameKeyEach_map_right blind xs only _
  | set z xs =>
      rw [allLeaves] at only
      cases v <;> simp only [map, sameKey, mapList_eq, List.length_map]
      rw [sameKeySome_map_right blind xs only]
  | leaf a =>
      rw [allLeaves] at only
      cases v <;> simp only [map, sameKey]
      exact blind.right a _ only
  | _ => cases v <;> simp only [map, sameKey]

theorem sameKeyEach_map_right (blind : Blind f old) (ks : List (Datum α)) (only : allLeavesEach old ks)
    (vs : List (Datum α)) : sameKeyEach ks (mapList f vs) = sameKeyEach ks vs := by
  cases ks with
  | nil => cases vs <;> rfl
  | cons k ks =>
      rw [allLeavesEach, Bool.and_eq_true] at only
      cases vs with
      | nil => rfl
      | cons v vs =>
          simp only [mapList, sameKeyEach]
          rw [sameKey_map_right blind k only.1, sameKeyEach_map_right blind ks only.2]

theorem sameKeySome_map_right (blind : Blind f old) (ks : List (Datum α)) (only : allLeavesEach old ks)
    (vs : List (Datum α)) : sameKeySome ks (vs.map (map f)) = sameKeySome ks vs := by
  cases ks with
  | nil => rfl
  | cons k ks =>
      rw [allLeavesEach, Bool.and_eq_true] at only
      have each : (vs.map (map f)).any (fun v => sameKey k v) = vs.any fun v => sameKey k v := by
        rw [List.any_map]
        congr 1
        funext v
        exact sameKey_map_right blind k only.1 v
      simp only [sameKeySome]
      rw [each, sameKeySome_map_right blind ks only.2]

end

mutual

theorem sameKey_map_left (blind : Blind f old) (v k : Datum α) (only : k.allLeaves old) :
    sameKey (v.map f) k = sameKey v k := by
  cases v with
  | list xs | tuple xs =>
      cases k <;> simp only [map, sameKey]
      exact sameKeyEach_map_left blind xs _ (by simpa only [allLeaves] using only)
  | set z xs =>
      cases k <;> simp only [map, sameKey, mapList_eq, List.length_map]
      rw [← mapList_eq, sameKeySome_map_left blind xs _ (by simpa only [allLeaves] using only)]
  | leaf a =>
      cases k <;> simp only [map, sameKey]
      exact blind.left _ a (by simpa only [allLeaves] using only)
  | _ => simp only [map, sameKey]

theorem sameKeyEach_map_left (blind : Blind f old) (vs ks : List (Datum α)) (only : allLeavesEach old ks) :
    sameKeyEach (mapList f vs) ks = sameKeyEach vs ks := by
  cases vs with
  | nil => rfl
  | cons v vs =>
      cases ks with
      | nil => rfl
      | cons k ks =>
          rw [allLeavesEach, Bool.and_eq_true] at only
          simp only [mapList, sameKeyEach]
          rw [sameKey_map_left blind v k only.1, sameKeyEach_map_left blind vs ks only.2]

theorem sameKeySome_map_left (blind : Blind f old) (vs ks : List (Datum α)) (only : allLeavesEach old ks) :
    sameKeySome (mapList f vs) ks = sameKeySome vs ks := by
  cases vs with
  | nil => rfl
  | cons v vs =>
      have each : ∀ ks, allLeavesEach old ks → (ks.any fun k => sameKey (v.map f) k) = ks.any fun k => sameKey v k := by
        intro ks only
        induction ks with
        | nil => rfl
        | cons k ks ih =>
            rw [allLeavesEach, Bool.and_eq_true] at only
            rw [List.any_cons, List.any_cons, sameKey_map_left blind v k only.1, ih only.2]
      simp only [mapList, sameKeySome]
      rw [each ks only, sameKeySome_map_left blind vs ks only]

end

/-! ## Entries under old keys -/

theorem find?_map (blind : Blind f old) {β' : Type} (g : β → β') {k : Datum α} (only : k.allLeaves old)
    (es : List (Datum α × β)) : find? k (es.map fun e => (e.1.map f, g e.2)) = (find? k es).map g := by
  induction es with
  | nil => rfl
  | cons e es ih =>
      simp only [List.map_cons, find?, sameKey_map_left blind e.1 k only, ih]
      split <;> rfl

theorem insert_map (blind : Blind f old) {β' : Type} (g : β → β') {k : Datum α} (only : k.allLeaves old) (v : β)
    (es : List (Datum α × β)) :
    (insert k v es).map (fun e => (e.1.map f, g e.2)) = insert k (g v) (es.map fun e => (e.1.map f, g e.2)) := by
  induction es with
  | nil => simp only [insert, List.map_cons, List.map_nil, map_old blind.fixed k only]
  | cons e es ih =>
      simp only [List.map_cons, insert, sameKey_map_left blind e.1 k only]
      split
      · rfl
      · rw [List.map_cons, ih]

theorem erase_map (blind : Blind f old) {β' : Type} (g : β → β') {k : Datum α} (only : k.allLeaves old)
    (es : List (Datum α × β)) :
    (erase k es).map (fun e => (e.1.map f, g e.2)) = erase k (es.map fun e => (e.1.map f, g e.2)) := by
  unfold erase
  rw [List.filter_map]
  congr 1
  apply List.filter_congr
  intro e _
  simp only [Function.comp, sameKey_map_left blind e.1 k only]

mutual

theorem deepEqual_map (blind : Blind f old) (k : Datum α) (only : k.allLeaves old) (v : Datum α) :
    deepEqual k (v.map f) = deepEqual k v := by
  cases k with
  | undefined => simp only [deepEqual, isUndefined_map]
  | null => simp only [deepEqual, isNull_map]
  | list xs | tuple xs =>
      rw [allLeaves] at only
      cases v <;> simp only [map, deepEqual]
      exact deepEqualEach_map blind xs only _
  | set z xs =>
      cases v <;> simp only [map, deepEqual]
      exact sameKey_map_right blind (.set z xs) only (.set _ _)
  | dict es =>
      rw [allLeaves] at only
      cases v <;> simp only [map, deepEqual, mapEntries_eq, List.length_map]
      rw [deepEqualEntries_map blind es only]
  | leaf a =>
      rw [allLeaves] at only
      cases v <;> simp only [map, deepEqual]
      exact blind.right a _ only
  | _ => cases v <;> simp only [map, deepEqual]

theorem deepEqualEach_map (blind : Blind f old) (ks : List (Datum α)) (only : allLeavesEach old ks)
    (vs : List (Datum α)) : deepEqualEach ks (mapList f vs) = deepEqualEach ks vs := by
  cases ks with
  | nil => cases vs <;> rfl
  | cons k ks =>
      rw [allLeavesEach, Bool.and_eq_true] at only
      cases vs with
      | nil => rfl
      | cons v vs =>
          simp only [mapList, deepEqualEach]
          rw [deepEqual_map blind k only.1, deepEqualEach_map blind ks only.2]

theorem deepEqualEntries_map (blind : Blind f old) (es : Entries α) (only : allLeavesEntries old es)
    (fs : Entries α) :
    deepEqualEntries es (fs.map fun e => (e.1.map f, e.2.map f)) = deepEqualEntries es fs := by
  cases es with
  | nil => rfl
  | cons e es =>
      obtain ⟨j, v⟩ := e
      simp only [allLeavesEntries, Bool.and_eq_true] at only
      obtain ⟨⟨key, value⟩, rest⟩ := only
      simp only [deepEqualEntries]
      rw [find?_map blind (map f) key, deepEqualEntries_map blind es rest]
      cases find? j fs with
      | none => rfl
      | some w =>
          simp only [Option.map_some]
          rw [deepEqual_map blind v value]

end

end Datum

/-! ## Sets made anew -/

namespace Listing

variable {α : Type}

theorem mem_entries {t : Table α} {e : UInt64 × α} : e ∈ entries t ↔ some e ∈ t.toList := by
  simp [entries]

theorem mem_entries_place {t : Table α} {d e : UInt64 × α} (member : e ∈ entries (place t d)) :
    e = d ∨ e ∈ entries t := by
  rw [mem_entries] at member ⊢
  unfold place at member
  rw [Array.toList_setIfInBounds] at member
  rcases List.mem_or_eq_of_mem_set member with old | new
  · exact .inr old
  · exact .inl (Option.some.inj new)

theorem mem_entries_placed {es : List (UInt64 × α)} {t : Table α} {e : UInt64 × α}
    (member : e ∈ entries (es.foldl place t)) : e ∈ es ∨ e ∈ entries t := by
  induction es generalizing t with
  | nil => exact .inr member
  | cons d es ih =>
      rcases ih member with below | above
      · exact .inl (by simp [below])
      · rcases mem_entries_place above with rfl | old
        · exact .inl (by simp)
        · exact .inr old

theorem entries_empty (n : Nat) : entries (Array.replicate n none : Table α) = [] := by
  simp [entries]

theorem mem_entries_insert {t : Table α} {d e : UInt64 × α} (member : e ∈ entries (insert t d)) :
    e = d ∨ e ∈ entries t := by
  unfold insert at member
  simp only at member
  split at member
  · unfold grow at member
    rcases mem_entries_placed member with old | none
    · exact mem_entries_place old
    · rw [entries_empty] at none
      cases none
  · exact mem_entries_place member

theorem mem_bySlot {es : List (UInt64 × α)} {x : α} (member : x ∈ bySlot es) : ∃ e ∈ es, e.2 = x := by
  have inserted : ∀ (es : List (UInt64 × α)) (t : Table α) (e : UInt64 × α),
      e ∈ entries (es.foldl insert t) → e ∈ es ∨ e ∈ entries t := by
    intro es
    induction es with
    | nil => exact fun t e member => .inr member
    | cons d es ih =>
        intro t e member
        rcases ih _ e member with below | above
        · exact .inl (by simp [below])
        · rcases mem_entries_insert above with rfl | old
          · exact .inl (by simp)
          · exact .inr old
  obtain ⟨e, listed, rfl⟩ := List.mem_map.mp member
  rcases inserted es _ e listed with below | none
  · exact ⟨e, below, rfl⟩
  · rw [entries_empty] at none
    cases none

mutual

theorem word?_map {β : Type} (f : α → β) (v : Datum α) : word? (v.map f) = word? v := by
  cases v with
  | tuple xs =>
      simp only [Datum.map, word?]
      rw [words?_map]
  | set z xs =>
      cases z <;> simp only [Datum.map, word?]
      rw [words?_map]
  | bytes g d => cases g <;> cases d <;> rfl
  | _ => rfl

theorem words?_map {β : Type} (f : α → β) (xs : List (Datum α)) : words? (Datum.mapList f xs) = words? xs := by
  cases xs with
  | nil => rfl
  | cons x xs =>
      simp only [Datum.mapList, words?]
      rw [word?_map, words?_map]

end

mutual

theorem map_of_word? (f : α → α) (v : Datum α) (word : (word? v).isSome) : v.map f = v := by
  cases v with
  | tuple xs =>
      simp only [word?, Option.isSome_map] at word
      simp only [Datum.map]
      rw [mapList_of_words? f xs word]
  | set z xs =>
      cases z with
      | false => cases word
      | true =>
          simp only [word?, Option.isSome_map] at word
          simp only [Datum.map]
          rw [mapList_of_words? f xs word]
  | list | dict | leaf => cases word
  | _ => rfl

theorem mapList_of_words? (f : α → α) (xs : List (Datum α)) (words : (words? xs).isSome) :
    Datum.mapList f xs = xs := by
  cases xs with
  | nil => rfl
  | cons x xs =>
      simp only [words?] at words
      cases first : word? x with
      | none => simp [first] at words
      | some w =>
          cases rest : words? xs with
          | none => simp [first, rest] at words
          | some ws =>
              simp only [Datum.mapList]
              rw [map_of_word? f x (by simp [first]), mapList_of_words? f xs (by simp [rest])]

end

end Listing

namespace Datum

variable {α : Type}

theorem listed_map (f : α → α) (xs : List (Datum α)) : listed (xs.map (map f)) = (listed xs).map (map f) := by
  unfold listed
  rw [← mapList_eq, Listing.words?_map]
  cases words : Listing.words? xs with
  | none => exact mapList_eq f xs
  | some ws =>
      have leafless := Listing.mapList_of_words? f xs (by simp [words])
      simp only [leafless]
      rw [mapList_eq] at leafless
      have each : ∀ x ∈ xs, map f x = x := List.map_inj_left.mp (leafless.trans (List.map_id xs).symm)
      refine ((List.map_inj_left.mpr fun x member => ?_).trans (List.map_id _)).symm
      obtain ⟨e, zipped, rfl⟩ := Listing.mem_bySlot member
      exact each e.2 (List.of_mem_zip zipped).2

mutual

theorem relisted_map (f : α → α) (v : Datum α) : (v.map f).relisted = v.relisted.map f := by
  cases v with
  | list xs | tuple xs =>
      simp only [map, relisted]
      rw [relistedEach_map]
  | set z xs =>
      simp only [map, relisted]
      rw [relistedEach_map, mapList_eq, mapList_eq, listed_map]
  | dict es =>
      simp only [map, relisted]
      rw [relistedEntries_map]
  | _ => rfl

theorem relistedEach_map (f : α → α) (xs : List (Datum α)) :
    relistedEach (mapList f xs) = mapList f (relistedEach xs) := by
  cases xs with
  | nil => rfl
  | cons x xs =>
      simp only [mapList, relistedEach]
      rw [relisted_map, relistedEach_map]

theorem relistedEntries_map (f : α → α) (es : Entries α) :
    relistedEntries (mapEntries f es) = mapEntries f (relistedEntries es) := by
  cases es with
  | nil => rfl
  | cons e es =>
      simp only [mapEntries, relistedEntries]
      rw [relisted_map, relisted_map, relistedEntries_map]

end

end Datum

/-! ## Data that are alike -/

theorem Entity.capped_blind (k : Nat) : Datum.Blind (Entity.capped k) (Entity.isOld k) where
  fixed _ old := capped_old old
  right _ b old := same_capped_right old b
  left _ b old := same_capped_left old b

namespace Datum

/-- Data that are the same up to the numbers of copies from the `k`-th on. -/
def Like (k : Nat) (v w : Value) : Prop := v.map (Entity.capped k) = w.map (Entity.capped k)

/-- A datum without copies from the `k`-th on. -/
def isOld (k : Nat) (v : Value) : Bool := v.allLeaves (Entity.isOld k)

/-- Lists of data that are alike one by one. -/
abbrev LikeEach (k : Nat) (xs ys : List Value) : Prop :=
  xs.map (map (Entity.capped k)) = ys.map (map (Entity.capped k))

/-- Entries that are alike one by one. -/
abbrev LikeEntries (k : Nat) (es fs : Dict) : Prop :=
  es.map (fun e => (e.1.map (Entity.capped k), e.2.map (Entity.capped k))) =
    fs.map fun e => (e.1.map (Entity.capped k), e.2.map (Entity.capped k))

/-- What data that are alike look like. -/
inductive Likeness (k : Nat) : Value → Value → Prop
  | same (v : Value) : Likeness k v v
  | list {xs ys : List Value} (each : LikeEach k xs ys) : Likeness k (.list xs) (.list ys)
  | tuple {xs ys : List Value} (each : LikeEach k xs ys) : Likeness k (.tuple xs) (.tuple ys)
  | set {z : Bool} {xs ys : List Value} (each : LikeEach k xs ys) : Likeness k (.set z xs) (.set z ys)
  | dict {es fs : Dict} (each : LikeEntries k es fs) : Likeness k (.dict es) (.dict fs)
  | leaf {a b : Entity} (capped : a.capped k = b.capped k) : Likeness k (.leaf a) (.leaf b)

namespace Like

variable {k : Nat} {v w : Value}

@[refl] theorem refl (v : Value) : Like k v v := rfl

theorem likeness (like : Like k v w) : Likeness k v w := by
  unfold Like at like
  cases v <;> cases w <;> simp only [map, mapList_eq, mapEntries_eq, reduceCtorEq] at like <;>
    first
      | (cases like; exact .same _)
      | exact .list (Datum.list.inj like)
      | exact .tuple (Datum.tuple.inj like)
      | exact .dict (Datum.dict.inj like)
      | exact .leaf (Datum.leaf.inj like)
      | (obtain ⟨rfl, each⟩ := Datum.set.inj like; exact .set each)

theorem isUndefined_eq (like : Like k v w) : w.isUndefined = v.isUndefined := by
  rw [← isUndefined_map (Entity.capped k) v, like, isUndefined_map]

theorem isOld_eq (like : Like k v w) : w.isOld k = v.isOld k := by
  have seen : ∀ u : Value, (u.map (Entity.capped k)).isOld k = u.isOld k := by
    intro u
    simp only [isOld, allLeaves_map, Entity.isOld_capped]
  rw [← seen v, like, seen]

/-- Without copies from the `k`-th on, data that are alike are the same. -/
theorem eq_of_old (like : Like k v w) (old : v.isOld k) : v = w := by
  have old' : w.isOld k := like.isOld_eq.trans old
  have left := map_old (Entity.capped_blind k).fixed v old
  have right := map_old (Entity.capped_blind k).fixed w old'
  rw [← left, like, right]

theorem deepEqual_eq (like : Like k v w) {literal : Value} (old : literal.isOld k) :
    deepEqual literal v = deepEqual literal w := by
  rw [← deepEqual_map (Entity.capped_blind k) literal old v, like, deepEqual_map (Entity.capped_blind k) literal old w]

theorem list {xs ys : List Value} (each : LikeEach k xs ys) : Like k (.list xs) (.list ys) := by
  simp only [Like, map, mapList_eq, each]

theorem dict {es fs : Dict} (each : LikeEntries k es fs) : Like k (.dict es) (.dict fs) := by
  simp only [Like, map, mapEntries_eq, each]

theorem copy {v a b : Value} {m n : Nat} (later : k ≤ m) (later' : k ≤ n) (left : v.copy m = .ok a)
    (right : v.copy n = .ok b) : Like k a b := by
  have capped : ∀ {n : Nat} {a : Value}, k ≤ n → v.copy n = .ok a →
      a.map (Entity.capped k) = (v.map (Entity.copied k)).relisted := by
    intro n a later copied
    unfold Datum.copy at copied
    split at copied
    · rw [← Except.ok.inj copied, ← relisted_map, map_map]
      simp only [Entity.capped_copied later]
    · cases copied
  exact (capped later left).trans (capped later' right).symm

end Like

namespace LikeEach

variable {k : Nat} {xs ys us vs : List Value}

theorem length_eq (each : LikeEach k xs ys) : ys.length = xs.length := by
  simpa using congrArg List.length each.symm

theorem append (each : LikeEach k xs ys) (more : LikeEach k us vs) : LikeEach k (xs ++ us) (ys ++ vs) := by
  simp only [LikeEach, List.map_append, each, more]

theorem defined (each : LikeEach k xs ys) :
    LikeEach k (xs.filter fun v => !v.isUndefined) (ys.filter fun v => !v.isUndefined) := by
  have blind : (fun v : Value => !v.isUndefined) = (fun v => !v.isUndefined) ∘ map (Entity.capped k) := by
    funext v
    simp
  unfold LikeEach
  rw [blind, ← List.filter_map, ← List.filter_map, each]

end LikeEach

namespace LikeEntries

variable {k : Nat} {es fs : Dict} {key : Value}

theorem find? (each : LikeEntries k es fs) (old : key.isOld k) :
    Like k ((Datum.find? key es).getD .undefined) ((Datum.find? key fs).getD .undefined) := by
  have left := find?_map (Entity.capped_blind k) (map (Entity.capped k)) old es
  have right := find?_map (Entity.capped_blind k) (map (Entity.capped k)) old fs
  rw [each, right] at left
  cases one : Datum.find? key es <;> cases other : Datum.find? key fs <;>
    simp only [one, other, Option.map_none, Option.map_some, reduceCtorEq] at left
  · rfl
  · exact (Option.some.inj left).symm

theorem insert (each : LikeEntries k es fs) (old : key.isOld k) {v w : Value} (like : Like k v w) :
    LikeEntries k (Datum.insert key v es) (Datum.insert key w fs) := by
  have left := insert_map (Entity.capped_blind k) (map (Entity.capped k)) old v es
  have right := insert_map (Entity.capped_blind k) (map (Entity.capped k)) old w fs
  unfold LikeEntries
  rw [left, right, each, like]

theorem erase (each : LikeEntries k es fs) (old : key.isOld k) :
    LikeEntries k (Datum.erase key es) (Datum.erase key fs) := by
  have left := erase_map (Entity.capped_blind k) (map (Entity.capped k)) old es
  have right := erase_map (Entity.capped_blind k) (map (Entity.capped k)) old fs
  unfold LikeEntries
  rw [left, right, each]

end LikeEntries

end Datum
end Conform
