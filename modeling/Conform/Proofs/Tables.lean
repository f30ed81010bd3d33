import Conform.Proofs.Run.Exec

/-!
# What the tables of a run hold

A property of kept results holds of every result that a cache finds, and keeping one more result that
has it keeps it.
-/

namespace Conform

namespace Cache

variable {α β : Type} {P : CacheKey → α → Prop} {c : Cache α}

/-- Every kept result has the property with its key. -/
def Holds (P : CacheKey → α → Prop) (c : Cache α) : Prop := ∀ e ∈ c.entries, ∀ a, e.2 = some a → P e.1 a

theorem holds_empty (n : Nat) : ({ capacity := n } : Cache α).Holds P := nofun

theorem Holds.use (holds : c.Holds P) (k : CacheKey) {o : Option α} (new : ∀ a, o = some a → P k a) :
    (c.use k o).Holds P := by
  intro e member a result
  rcases List.mem_append.mp (List.mem_of_mem_drop member) with old | last
  · exact holds e (List.mem_filter.mp old).1 a result
  · obtain rfl := List.mem_singleton.mp last
    exact new a result

theorem lookup?_mem {k : CacheKey} {e : CacheKey × Option α} (found : c.lookup? k = some e) :
    e ∈ c.entries := List.mem_of_find?_eq_some found

theorem lookup?_same {k : CacheKey} {e : CacheKey × Option α} (found : c.lookup? k = some e) :
    e.1.same k := by
  unfold lookup? at found
  simpa using List.find?_some found

theorem Holds.get (holds : c.Holds P) (v : Datum β) :
    (∀ a, (c.get v).1 = some a → ∃ j k, CacheKey.ofDatum? v = some k ∧ j.same k ∧ P j a) ∧
      (c.get v).2.Holds P := by
  unfold Cache.get
  cases key : CacheKey.ofDatum? v with
  | none => exact ⟨nofun, holds⟩
  | some k =>
      simp only
      split
      · rename_i j a found
        have held : P j a := holds _ (lookup?_mem found) a rfl
        refine ⟨fun b same => ?_, holds.use j fun b same => Option.some.inj same ▸ held⟩
        exact ⟨j, k, rfl, lookup?_same found, Option.some.inj same ▸ held⟩
      · exact ⟨nofun, holds⟩

theorem Holds.set (holds : c.Holds P) (v : Datum β) {a : α}
    (new : ∀ j k, CacheKey.ofDatum? v = some k → j = k ∨ j.same k → P j a) :
    (c.set v (some a)).Holds P := by
  have put : ∀ j k, CacheKey.ofDatum? v = some k → j = k ∨ j.same k → (c.use j (some a)).Holds P :=
    fun j k key entry => holds.use j fun b same => Option.some.inj same ▸ new j k key entry
  unfold Cache.set
  cases key : CacheKey.ofDatum? v with
  | none => exact holds
  | some k =>
      simp only
      split
      · rename_i found
        exact put _ k key (.inr (lookup?_same found))
      · exact put k k key (.inl rfl)

end Cache

namespace Run

variable {P : Nat → CacheKey → Result → Prop}

/-- Every result in every table has the property. -/
def Kept (P : Nat → CacheKey → Result → Prop) (ts : List (Nat × Cache Result)) : Prop :=
  ∀ e ∈ ts, e.2.Holds (P e.1)

theorem Kept.cacheOf {r : Run} (kept : Kept P r.caches) (slot : CacheSlot) (t : Nat) :
    (r.cacheOf slot t).Holds (P t) := by
  unfold Run.cacheOf
  cases found : r.caches.lookup t with
  | none => exact Cache.holds_empty slot.capacity
  | some c =>
      obtain ⟨before, after, split, -⟩ := List.lookup_eq_some_iff.mp found
      exact kept (t, c) (by simp [split])

theorem Kept.putCache {r : Run} (kept : Kept P r.caches) {t : Nat} {c : Cache Result}
    (holds : c.Holds (P t)) : Kept P (r.putCache t c).caches := by
  intro e member
  rcases List.mem_cons.mp member with rfl | old
  · exact holds
  · exact kept e (List.mem_filter.mp old).1

theorem lookup_putCache (t u : Nat) (c : Cache Result) (r : Run) :
    (r.putCache t c).caches.lookup u = if u = t then some c else r.caches.lookup u := by
  have others : u ≠ t → (r.caches.filter fun e => e.1 != t).lookup u = r.caches.lookup u := by
    intro apart
    induction r.caches with
    | nil => rfl
    | cons e es ih =>
        obtain ⟨i, c⟩ := e
        by_cases here : i = t
        · have absent : (u == i) = false := by simpa [here] using apart
          rw [List.filter_cons_of_neg (by simp [here]), List.lookup_cons, absent]
          exact ih
        · rw [List.filter_cons_of_pos (by simpa using here), List.lookup_cons, List.lookup_cons, ih]
  unfold putCache
  by_cases here : u = t
  · simp [here]
  · have absent : (u == t) = false := by simpa using here
    rw [List.lookup_cons, absent, if_neg here]
    exact others here

@[simp] theorem journal_putCache (t : Nat) (c : Cache Result) (r : Run) :
    (r.putCache t c).journal = r.journal := rfl

@[simp] theorem copies_putCache (t : Nat) (c : Cache Result) (r : Run) :
    (r.putCache t c).copies = r.copies := rfl

end Run

namespace Eval

theorem exec_cached? (slot : CacheSlot) (v : Value) (r : Run) :
    (cached? (.cache slot) v).exec r = match slot.table with
      | none => (.ok none, r)
      | some t => (.ok ((r.cacheOf slot t).get v).1, r.putCache t ((r.cacheOf slot t).get v).2) := by
  obtain ⟨table, capacity, givenAsTrue⟩ := slot
  cases table <;> rfl

theorem exec_keep (slot : CacheSlot) (v : Value) (result : Result) (r : Run) :
    (keep (.cache slot) v result).exec r = match slot.table with
      | none => (.ok (), r)
      | some t => (.ok (), r.putCache t ((r.cacheOf slot t).set v (some result))) := by
  obtain ⟨table, capacity, givenAsTrue⟩ := slot
  cases table <;> rfl

end Eval

end Conform
