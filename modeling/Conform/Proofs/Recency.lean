import Conform.Proofs.Number.Regular
import Conform.Proofs.Datum.Sameness

/-!
# A cache keeps the keys that were touched last

A history of requests says what a cache answers: a result is there as long as fewer keys than the cache
has places were touched after its own. Keys count once, however often they were touched, and a request
that finds nothing touches nothing.
-/

namespace Conform

namespace CacheKey

variable {j k l : CacheKey}

theorem same_symm (same : j.same k) : k.same j := by
  cases j with
  | float x =>
      cases k with
      | float y =>
          simp only [CacheKey.same] at same ⊢
          exact Number.sameKey_symm same
      | _ => cases same
  | _ => cases k <;> simp_all [CacheKey.same]

theorem same_trans (first : j.same k) (second : k.same l) : j.same l := by
  cases k with
  | float y =>
      cases j with
      | float x =>
          cases l with
          | float z =>
              simp only [CacheKey.same] at first second ⊢
              exact Number.sameKey_trans first second
          | _ => cases second
      | _ => cases first
  | _ => cases j <;> cases l <;> simp_all [CacheKey.same]

theorem same_congr (same : j.same k) (l : CacheKey) : j.same l = k.same l :=
  Bool.eq_iff_iff.mpr ⟨same_trans (same_symm same), same_trans same⟩

theorem same_comm (j k : CacheKey) : j.same k = k.same j :=
  Bool.eq_iff_iff.mpr ⟨same_symm, same_symm⟩

/-- The keys of a list, each where it first stands. -/
def distinct : List CacheKey → List CacheKey
  | [] => []
  | k :: ks => k :: (distinct ks).filter fun j => !j.same k

theorem distinct_apart (ks : List CacheKey) : (distinct ks).Pairwise fun j k => ¬ j.same k := by
  induction ks with
  | nil => exact .nil
  | cons k ks ih =>
      refine .cons (fun j member same => ?_) (ih.filter _)
      simpa [same_symm same] using (List.mem_filter.mp member).2

theorem any_distinct (k : CacheKey) (ks : List CacheKey) :
    (distinct ks).any (·.same k) = ks.any (·.same k) := by
  induction ks with
  | nil => rfl
  | cons j ks ih =>
      rw [distinct, List.any_cons, List.any_cons, ← ih]
      by_cases first : j.same k
      · simp [first]
      · -- what the filter drops is the key `j`, which is not the key asked for
        have kept : ∀ i ∈ distinct ks, i.same k → (!i.same j) = true := by
          intro i _ same
          simpa using fun same' => first (same_trans (same_symm same') same)
        refine congrArg _ (Bool.eq_iff_iff.mpr ?_)
        simp only [List.any_eq_true, List.mem_filter]
        exact ⟨fun ⟨i, ⟨member, _⟩, same⟩ => ⟨i, member, same⟩,
          fun ⟨i, member, same⟩ => ⟨i, ⟨member, kept i member same⟩, same⟩⟩

/-- A prefix that ends at a key is cut alike before and after keys that are not this one are dropped. -/
theorem takeWhile_filter {p q : CacheKey → Bool} (stops : ∀ j, p j = false → q j) (ks : List CacheKey) :
    (ks.filter q).takeWhile p = (ks.takeWhile p).filter q := by
  induction ks with
  | nil => rfl
  | cons k ks ih =>
      cases passed : p k with
      | false => simp [passed, stops k passed]
      | true => cases kept : q k <;> simp [passed, kept, ih]

theorem distinct_takeWhile (k : CacheKey) (ks : List CacheKey) :
    distinct (ks.takeWhile fun j => !j.same k) = (distinct ks).takeWhile fun j => !j.same k := by
  induction ks with
  | nil => rfl
  | cons j ks ih =>
      by_cases first : j.same k
      · simp [distinct, first]
      · have stops : ∀ i : CacheKey, (!i.same k) = false → (!i.same j) = true := by
          intro i here
          have same : i.same k := by simpa using here
          simpa using fun same' => first (same_trans (same_symm same') same)
        simp only [List.takeWhile_cons, distinct, first, Bool.not_false, if_true]
        rw [ih, takeWhile_filter stops]

/-- Dropping one key from a list without repetitions moves at most one other into a prefix. -/
theorem take_filter {ks : List CacheKey} (apart : ks.Pairwise fun i j => ¬ i.same j) (n : Nat) :
    ((ks.take (n + 1)).filter fun j => !j.same k).take n = (ks.filter fun j => !j.same k).take n := by
  induction ks generalizing n with
  | nil => simp
  | cons j ks ih =>
      obtain ⟨head, tail⟩ := List.pairwise_cons.mp apart
      by_cases first : j.same k
      · have rest : ∀ i ∈ ks, (!i.same k) = true := by
          intro i member
          simpa using fun same => head i member (same_trans first (same_symm same))
        have kept : ks.filter (fun i => !i.same k) = ks := List.filter_eq_self.mpr rest
        have within : (ks.take n).filter (fun i => !i.same k) = ks.take n :=
          List.filter_eq_self.mpr fun i member => rest i (List.mem_of_mem_take member)
        simp [first, kept, within]
      · cases n with
        | zero => simp
        | succ n => simp [first, ih tail]

/-- A key stands in a prefix if it is in the list and fewer keys than the prefix holds stand before it. -/
theorem any_take {p : CacheKey → Bool} (ks : List CacheKey) (n : Nat) :
    (ks.take n).any p ↔ ks.any p ∧ (ks.takeWhile fun j => !p j).length < n := by
  induction ks generalizing n with
  | nil => simp
  | cons j ks ih =>
      cases n with
      | zero => simp
      | succ n => cases here : p j <;> simp [here, ih]

end CacheKey

namespace Cache

variable {α β : Type} {c : Cache α} {v : Datum β} {k : CacheKey}

/-- What a cache is asked: to store a result for a datum, or for the result that it holds. -/
inductive Request (α β : Type) where
  | set (v : Datum β) (r : α)
  | get (v : Datum β)

namespace Request

def datum : Request α β → Datum β
  | set v _ | get v => v

/-- The cache that a request leaves. -/
def perform (c : Cache α) : Request α β → Cache α
  | set v r => c.set v (some r)
  | get v => (c.get v).2

/-- The key that a request touches: that of a store, and that of a result that is found. -/
def touched? (c : Cache α) : Request α β → Option CacheKey
  | set v _ => CacheKey.ofDatum? v
  | get v => if (c.get v).1.isSome then CacheKey.ofDatum? v else none

/-- What a request stores for a key. -/
def stored? (k : CacheKey) : Request α β → Option α
  | set v r => if (CacheKey.ofDatum? v).any (·.same k) then some r else none
  | get _ => none

end Request

/-- An empty cache after a history of requests, the latest of which stands first. -/
def after (n : Nat) : List (Request α β) → Cache α
  | [] => { capacity := n }
  | q :: earlier => q.perform (after n earlier)

/-- The keys that a history touches, the latest first. -/
def touches (n : Nat) : List (Request α β) → List CacheKey
  | [] => []
  | q :: earlier => (q.touched? (after n earlier)).toList ++ touches n earlier

/-- The result that was stored last for a key. -/
def latest? (k : CacheKey) (history : List (Request α β)) : Option α := history.findSome? (·.stored? k)

theorem latest?_congr {j k : CacheKey} (same : j.same k) (history : List (Request α β)) :
    latest? j history = latest? k history := by
  refine congrArg (List.findSome? · history) (funext fun q => ?_)
  cases q with
  | get v => rfl
  | set v r =>
      have both : ∀ i : CacheKey, i.same j = i.same k := fun i => by
        rw [CacheKey.same_comm, CacheKey.same_congr same, CacheKey.same_comm]
      simp only [Request.stored?, both]

theorem touched_of_latest {n : Nat} {history : List (Request α β)} {r : α} (stored : latest? k history = some r) :
    (touches n history).any (·.same k) := by
  induction history with
  | nil => cases stored
  | cons q earlier ih =>
      rw [touches, List.any_append, Bool.or_eq_true]
      cases here : q.stored? k with
      | none => exact .inr (ih (by simpa [latest?, here] using stored))
      | some o =>
          cases q with
          | get v => cases here
          | set v r =>
              refine .inl ?_
              simp only [Request.stored?, Option.ite_none_right_eq_some] at here
              cases key : CacheKey.ofDatum? v with
              | none => simp [key] at here
              | some j => simpa [Request.touched?, key] using here.1

/-! ## One use -/

theorem recent_use (k : CacheKey) (o : Option α) (c : Cache α) :
    (c.use k o).entries.reverse = ((k, o) :: c.entries.reverse.filter fun e => !e.1.same k).take c.capacity := by
  simp only [use]
  rw [← List.take_reverse]
  simp

theorem get_eq_some {r : α} : (c.get v).1 = some r ↔
    ∃ k j, CacheKey.ofDatum? v = some k ∧ c.lookup? k = some (j, some r) := by
  unfold get
  cases key : CacheKey.ofDatum? v with
  | none => simp
  | some k =>
      rcases found : c.lookup? k with _ | ⟨j, _ | o⟩ <;> simp [found]

/-- An entry for a key that holds what was stored last for it. -/
def Recent (history : List (Request α β)) (e : CacheKey × Option α) (k : CacheKey) : Prop :=
  e.1.same k ∧ e.2 = latest? k history

theorem Recent.filter {history later : List (Request α β)} {es : List (CacheKey × Option α)} {ks : List CacheKey}
    {j : CacheKey} (same : j.same k) (kept : ∀ i, ¬ i.same k → latest? i later = latest? i history)
    (recent : List.Forall₂ (Recent history) es ks) :
    List.Forall₂ (Recent later) (es.filter fun e => !e.1.same j) (ks.filter fun i => !i.same k) := by
  induction recent with
  | nil => exact .nil
  | @cons e i es ks first rest ih =>
      have alike : e.1.same j = i.same k := by
        rw [CacheKey.same_congr first.1, CacheKey.same_comm, CacheKey.same_congr same, CacheKey.same_comm]
      cases here : i.same k with
      | true => simpa [alike, here] using ih
      | false =>
          simp only [List.filter_cons, alike, here, Bool.not_false, if_true]
          exact .cons ⟨first.1, first.2.trans (kept i (by simp [here])).symm⟩ ih

theorem Recent.latest {history : List (Request α β)} {es : List (CacheKey × Option α)} {ks : List CacheKey}
    {e : CacheKey × Option α} (recent : List.Forall₂ (Recent history) es ks) (member : e ∈ es) (same : e.1.same k) :
    e.2 = latest? k history := by
  rw [← latest?_congr same]
  induction recent with
  | nil => cases member
  | cons first _ ih =>
      rcases List.mem_cons.mp member with rfl | rest
      · rw [first.2, latest?_congr first.1]
      · exact ih rest

theorem Recent.any {history : List (Request α β)} {es : List (CacheKey × Option α)} {ks : List CacheKey}
    (recent : List.Forall₂ (Recent history) es ks) (k : CacheKey) : es.any (·.1.same k) = ks.any (·.same k) := by
  induction recent with
  | nil => rfl
  | cons first _ ih => rw [List.any_cons, List.any_cons, ih, CacheKey.same_congr first.1]

/-- Using an entry puts its key first and leaves the others in their order. -/
theorem use_recent {n : Nat} {history later : List (Request α β)} {ks : List CacheKey} {j : CacheKey} {o : Option α}
    (apart : ks.Pairwise fun i j => ¬ i.same j) (same : j.same k) (latest : o = latest? k later)
    (kept : ∀ i, ¬ i.same k → latest? i later = latest? i history) (size : c.capacity = n)
    (recent : List.Forall₂ (Recent history) c.entries.reverse (ks.take n)) :
    List.Forall₂ (Recent later) (c.use j o).entries.reverse ((k :: ks.filter fun i => !i.same k).take n) := by
  rw [recent_use, size]
  cases n with
  | zero => exact .nil
  | succ n =>
      rw [List.take_succ_cons, List.take_succ_cons, ← CacheKey.take_filter apart]
      exact .cons ⟨same, latest⟩ (List.forall₂_take n (Recent.filter same kept recent))

theorem same_self_of_key (key : CacheKey.ofDatum? v = some k) (told : v ≠ .float (.nan none)) : k.same k := by
  refine CacheKey.same_self fun untold => told ?_
  cases v <;> simp_all [CacheKey.ofDatum?]

/-- A request touches no key and changes nothing, or it uses an entry: that of what it stores, or that of
the result that it finds. -/
theorem perform_cases (q : Request α β) (c : Cache α) (told : q.datum ≠ .float (.nan none)) :
    (q.touched? c = none ∧ q.perform c = c ∧ ∀ i, q.stored? i = none) ∨
      ∃ k j o, q.touched? c = some k ∧ q.perform c = c.use j o ∧ j.same k ∧ (∀ i, ¬ i.same k → q.stored? i = none) ∧
        ((∃ r, o = some r ∧ q.stored? k = some r) ∨ (j, o) ∈ c.entries ∧ q.stored? k = none) := by
  cases q with
  | set v r =>
      cases key : CacheKey.ofDatum? v with
      | none => exact .inl ⟨key, by simp [Request.perform, set, key], by simp [Request.stored?, key]⟩
      | some k =>
          have itself : k.same k := same_self_of_key key told
          have others : ∀ i, ¬ i.same k → (Request.set v r).stored? i = none := by
            intro i apart
            simp [Request.stored?, key, CacheKey.same_comm k i, apart]
          have stored : (Request.set v r).stored? k = some r := by simp [Request.stored?, key, itself]
          rcases found : c.lookup? k with _ | ⟨j, o⟩
          · exact .inr ⟨k, k, some r, key, by simp [Request.perform, set, key, found], itself, others,
              .inl ⟨r, rfl, stored⟩⟩
          · have same : j.same k := by simpa using List.find?_some found
            exact .inr ⟨k, j, some r, key, by simp [Request.perform, set, key, found], same, others,
              .inl ⟨r, rfl, stored⟩⟩
  | get v =>
      cases found : (c.get v).1 with
      | none =>
          refine .inl ⟨by simp [Request.touched?, found], ?_, fun _ => rfl⟩
          simp only [Request.perform]
          unfold get at found ⊢
          split <;> [rfl; split <;> simp_all]
      | some r =>
          obtain ⟨k, j, key, entry⟩ := get_eq_some.mp found
          have same : j.same k := by simpa using List.find?_some entry
          refine .inr ⟨k, j, some r, by simp [Request.touched?, found, key], ?_, same, fun _ _ => rfl,
            .inr ⟨List.mem_of_find?_eq_some entry, rfl⟩⟩
          simp [Request.perform, get, key, entry]

/-- From the latest to the first, the entries are those of the distinct keys touched last, each with the
result stored last for its key. -/
theorem after_recent (n : Nat) {history : List (Request α β)} (told : ∀ q ∈ history, q.datum ≠ .float (.nan none)) :
    (after n history).capacity = n ∧ List.Forall₂ (Recent history) (after n history).entries.reverse
      ((CacheKey.distinct (touches n history)).take n) := by
  -- On the requests before the last one, which uses one entry or leaves all of them.
  induction history with
  | nil => exact ⟨rfl, by simp [after, touches, CacheKey.distinct]⟩
  | cons q earlier ih =>
      obtain ⟨size, recent⟩ := ih fun q member => told q (List.mem_cons_of_mem _ member)
      rcases perform_cases q (after n earlier) (told q List.mem_cons_self) with
        ⟨untouched, unchanged, nothing⟩ | ⟨k, j, o, touched, used, same, others, latest⟩
      · have steady : ∀ k, latest? k (q :: earlier) = latest? k earlier := by
          intro k
          simp [latest?, nothing]
        rw [after, touches, unchanged, untouched]
        exact ⟨size, recent.imp fun e k held => ⟨held.1, by rw [held.2, steady]⟩⟩
      · have kept : ∀ i, ¬ i.same k → latest? i (q :: earlier) = latest? i earlier := by
          intro i apart
          simp [latest?, others i apart]
        have told : o = latest? k (q :: earlier) := by
          rcases latest with ⟨r, rfl, stored⟩ | ⟨member, nothing⟩
          · simp [latest?, stored]
          · have found : o = latest? k earlier := Recent.latest recent (List.mem_reverse.mpr member) same
            simpa [latest?, nothing] using found
        rw [after, touches, used, touched]
        exact ⟨size, use_recent (CacheKey.distinct_apart _) same told kept size recent⟩

/-! ## What a history says about a cache -/

/-- A cache never holds more results than it has places. It gives the result that was stored last for a
datum exactly if fewer distinct keys than it has places were touched after the key of this datum was, by
a store or by finding a result. Data that are no keys leave it as it is. -/
theorem keeps_latest_touched (n : Nat) (history : List (Request α β))
    (told : ∀ q ∈ history, q.datum ≠ .float (.nan none)) (v : Datum β) :
    (after n history).size ≤ n ∧
      (∀ r, ((after n history).get v).1 = some r ↔ ∃ k, CacheKey.ofDatum? v = some k ∧ latest? k history = some r ∧
        (CacheKey.distinct ((touches n history).takeWhile fun j => !j.same k)).length < n) ∧
      (CacheKey.ofDatum? v = none →
        (after n history).get v = (none, after n history) ∧ ∀ o, (after n history).set v o = after n history) := by
  obtain ⟨_, recent⟩ := after_recent n told
  refine ⟨?_, fun r => ?_, fun foreign => ⟨by simp [get, foreign], fun o => by simp [set, foreign]⟩⟩
  · calc (after n history).size = (after n history).entries.reverse.length := List.length_reverse.symm
      _ = ((CacheKey.distinct (touches n history)).take n).length := recent.length_eq
      _ ≤ n := List.length_take_le ..
  · have held : ∀ k, (after n history).entries.any (·.1.same k) ↔ (touches n history).any (·.same k) ∧
        (CacheKey.distinct ((touches n history).takeWhile fun j => !j.same k)).length < n := by
      intro k
      rw [← List.any_reverse, Recent.any recent, CacheKey.any_take, CacheKey.any_distinct, CacheKey.distinct_takeWhile]
    rw [get_eq_some]
    constructor
    · rintro ⟨k, j, key, found⟩
      have member := List.mem_of_find?_eq_some found
      have same : j.same k := by simpa using List.find?_some found
      exact ⟨k, key, (Recent.latest recent (List.mem_reverse.mpr member) same).symm,
        ((held k).mp (List.any_eq_true.mpr ⟨_, member, same⟩)).2⟩
    · rintro ⟨k, key, stored, few⟩
      obtain ⟨⟨j, o⟩, found⟩ : ∃ e, (after n history).lookup? k = some e :=
        Option.isSome_iff_exists.mp (by
          rw [lookup?, List.find?_isSome]
          exact List.any_eq_true.mp ((held k).mpr ⟨touched_of_latest stored, few⟩))
      have latest := Recent.latest recent (List.mem_reverse.mpr (List.mem_of_find?_eq_some found))
        (by simpa using List.find?_some found : j.same k)
      exact ⟨k, j, key, by rw [found, show o = _ from latest, stored]⟩

/-- `1` and `true` are two keys: both are kept in two places, and the second drives out the first from one. -/
theorem keeps_latest_touched_one_true :
    let history : List (Request Nat Unit) := [.set (.bool true) 2, .get (.int 1), .set (.int 1) 1]
    (∀ q ∈ history, q.datum ≠ .float (.nan none)) ∧ ((after 2 history).get (.int 1 : Datum Unit)).1 = some 1 ∧
      ¬ ((after 1 history).get (.int 1 : Datum Unit)).1 = some 1 := by
  intro history
  have told : ∀ q ∈ history, q.datum ≠ .float (.nan none) := by simp [history, Request.datum]
  refine ⟨told, ((keeps_latest_touched 2 history told (.int 1)).2.1 1).mpr ⟨.int 1, rfl, rfl, by decide⟩, ?_⟩
  intro kept
  obtain ⟨k, key, _, few⟩ := ((keeps_latest_touched 1 history told (.int 1)).2.1 1).mp kept
  cases key
  exact absurd few (by decide)

end Cache
end Conform
