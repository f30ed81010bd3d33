import Conform.Proofs.Visits

/-!
# Where the values of visits stand

A visit stands in a result at the path where it was made if every container above it gives what its base
check built and no array on the way drops an item up to it.
-/

namespace Conform

open Datum

variable {h : Hooks}

/-! ## Objects -/

theorem find?_settle_apart {k l : Value} (key : k.IsKey) (apart : Apart k l) (c : Visit h) (es : Dict) :
    find? l (c.settle k es) = find? l es :=
  Keys.find?_settle_apart apart.parted fun _ _ => apart k key.itself

theorem find?_settle_self {k : Value} (key : k.IsKey) {c : Visit h} {es : Dict}
    (given : c.given = (find? k es).getD .undefined) :
    (find? k (c.settle k es)).getD .undefined = if c.schema.strips then .undefined else c.result.value :=
  Keys.find?_settle_self (c := ⟨k, c.schema.strips, c.schema.eval h⟩) (fun _ _ => key.itself) given

/-- What is found under a declared key of an object whose children accept. -/
theorem KeysRan.find {f : Frame} {ks : List (Value × Schema)} {es : Dict} {r r' : Run}
    {cs : List (Value × Visit h)} (ran : KeysRan f ks es r cs r') (keys : ∀ e ∈ ks, e.1.IsKey)
    (apart : ks.Pairwise fun a b => Apart a.1 b.1) (accepted : ∀ c ∈ cs, c.2.accepts) :
    (∀ l, (∀ e ∈ ks, Apart e.1 l) → find? l (cs.foldl (fun es c => c.2.settle c.1 es) es) = find? l es) ∧
    ∀ c ∈ cs, (find? c.1 (cs.foldl (fun es c => c.2.settle c.1 es) es)).getD .undefined =
      if c.2.schema.strips then .undefined else c.2.result.value := by
  induction ran with
  | done => exact ⟨fun _ _ => rfl, List.forall_mem_nil _⟩
  | @key k s ks es r r' c cs visit _ later ih =>
      obtain ⟨apartHere, apartRest⟩ := List.pairwise_cons.mp apart
      obtain ⟨elsewhere, below⟩ := ih (fun e member => keys e (by simp [member])) apartRest
        fun d member => accepted d (by simp [member])
      have key := keys (k, s) (by simp)
      refine ⟨fun l apartAll => ?_, fun d member => ?_⟩
      · rw [List.foldl_cons, elsewhere l fun e member => apartAll e (by simp [member])]
        exact find?_settle_apart key (apartAll (k, s) (by simp)) c es
      · rcases List.mem_cons.mp member with rfl | rest
        · rw [List.foldl_cons, elsewhere k fun e member => (apartHere e member).symm]
          exact find?_settle_self key visit.given
        · exact below d rest
  | stop visit fails =>
      have accepts := accepted _ (List.mem_singleton.mpr rfl)
      simp [fails] at accepts
  | skip visit fails =>
      have accepts := accepted _ (List.mem_cons_self ..)
      simp [fails] at accepts

theorem isKnown_of_mem {ks : List (Value × Schema)} {k j : Value} {s : Schema} (declared : (k, s) ∈ ks)
    (same : sameKey k j) : Keys.isKnown (Schema.evalKeyList h ks) j := by
  induction ks with
  | nil => cases declared
  | cons e ks ih =>
      rcases List.mem_cons.mp declared with rfl | rest
      · simp [Schema.evalKeyList, Keys.isKnown, same]
      · have below := ih rest
        unfold Keys.isKnown at below ⊢
        simp [Schema.evalKeyList, below]

/-- The entries of declared keys are not among those that are removed. -/
theorem checkStrangers_find (unknown : Option Value) (ks : List (Value × Schema)) (f : Frame) (es : Dict) :
    ∃ fs, (Keys.checkStrangers unknown (Schema.evalKeyList h ks) f es []).value = .dict fs ∧
      ∀ e ∈ ks, e.1.IsKey → find? e.1 fs = find? e.1 es := by
  have filtered : ∀ e ∈ ks, e.1.IsKey →
      find? e.1 (es.filter fun d => Keys.isKnown (Schema.evalKeyList h ks) d.1) = find? e.1 es := by
    intro e declared key
    apply find?_filter
    intro d _ same
    exact isKnown_of_mem declared (key.symm d.1 same)
  unfold Keys.checkStrangers
  rcases unknown with _ | u
  all_goals
    simp only
    split
    · exact ⟨_, rfl, filtered⟩
    · split
      · exact ⟨es, rfl, fun _ _ _ => rfl⟩
      · split <;> exact ⟨es, rfl, fun _ _ _ => rfl⟩

theorem Schema.Fixed.declared {s : Schema} {ks : List (Value × Schema)} (fixed : s.Fixed)
    (content : s.content = .object (some ks)) : (∀ e ∈ ks, e.1.IsKey) ∧
      (ks.Pairwise fun a b => Apart a.1 b.1) ∧ ∀ e ∈ ks, e.2.Fixed := by
  cases fixed with
  | leaf isLeaf =>
      obtain rfl := content
      cases isLeaf
  | array => cases content
  | object keys apart each =>
      cases content
      exact ⟨keys, apart, each⟩

theorem Visit.Children.found {e : Visit h} {cs : List (Value × Visit h)} {built : Value}
    {ks : List (Value × Schema)} (children : e.Children cs built) (content : e.schema.content = .object (some ks))
    (fixed : e.schema.Fixed) (accepted : ∀ c ∈ cs, c.2.accepts) :
    ∃ fs, built = .dict fs ∧ ∀ c ∈ cs, c.1.IsKey ∧
      (find? c.1 fs).getD .undefined = if c.2.schema.strips then .undefined else c.2.result.value := by
  obtain ⟨keys, apart, -⟩ := fixed.declared content
  cases children with
  | items isArray => simp [isArray] at content
  | @keys ks' es q r₀ r₁ _ isObject base ran =>
      rw [isObject] at content
      cases content
      obtain ⟨-, found⟩ := ran.find keys apart accepted
      obtain ⟨fs, built, kept⟩ := checkStrangers_find (h := h) e.schema.core.unknown ks
        { e.frame q with current := .dict es } (cs.foldl (fun es c => c.2.settle c.1 es) es)
      refine ⟨fs, built, fun c member => ?_⟩
      have segment := ran.segments.subset (List.mem_map_of_mem member)
      have key := keys _ segment
      refine ⟨key, ?_⟩
      rw [kept _ segment key]
      exact found c member

/-! ## Arrays -/

section lists

variable {α : Type} {p : α → Bool}

theorem filter_place {l : List α} {i : Nat} {x : α} (at_ : l[i]? = some x) (passes : p x) :
    (l.filter p)[(l.take i).countP p]? = some x := by
  induction l generalizing i with
  | nil => simp at at_
  | cons a l ih =>
      cases i with
      | zero =>
          obtain rfl : a = x := by simpa using at_
          simp [passes]
      | succ i =>
          have below := ih (i := i) (by simpa using at_)
          by_cases first : p a <;> simp [first, below]

theorem place_of_filter {l : List α} {m : Nat} {x : α} (at_ : (l.filter p)[m]? = some x) :
    ∃ j, l[j]? = some x ∧ p x ∧ (l.take j).countP p = m := by
  induction l generalizing m with
  | nil => simp at at_
  | cons a l ih =>
      by_cases first : p a
      · rw [List.filter_cons_of_pos first] at at_
        cases m with
        | zero =>
            obtain rfl : a = x := by simpa using at_
            exact ⟨0, rfl, first, rfl⟩
        | succ m =>
            obtain ⟨j, below, passes, count⟩ := ih (m := m) (by simpa using at_)
            exact ⟨j + 1, by simpa using below, passes, by simp [first, count]⟩
      · rw [List.filter_cons_of_neg first] at at_
        obtain ⟨j, below, passes, count⟩ := ih at_
        exact ⟨j + 1, by simpa using below, passes, by simp [first, count]⟩

end lists

/-- Whether an item stays in its array. -/
def Visit.stays (c : Value × Visit h) : Bool := !c.2.result.value.isUndefined

/-- The index of an item in the array that is left when absent items are dropped. -/
def Visit.place (cs : List (Value × Visit h)) (i : Nat) : Option Nat :=
  match cs[i]? with
  | some c => if Visit.stays c then some ((cs.take i).countP Visit.stays) else none
  | none => none

theorem Visit.Children.listed {e : Visit h} {cs : List (Value × Visit h)} {built : Value} {t : Schema}
    (children : e.Children cs built) (content : e.schema.content = .array [t]) :
    built = .list ((cs.filter Visit.stays).map fun c => c.2.result.value) ∧
      ∀ (i : Nat) (c : Value × Visit h), cs[i]? = some c → c.1 = .int i := by
  cases children with
  | keys isObject => simp [isObject] at content
  | items isArray base ran =>
      refine ⟨?_, fun i c at_ => ?_⟩
      · rw [List.filter_map]
        rfl
      · have segment : (cs.map Prod.fst)[i]? = some c.1 := by simp [at_]
        rw [ran.segments] at segment
        have within := (List.getElem?_eq_some_iff.mp at_).1
        simpa [List.getElem?_range', within] using segment.symm

/-- In the array an item is found at its place. -/
theorem Visit.place_found {cs : List (Value × Visit h)} {i m : Nat} {c : Value × Visit h}
    (at_ : cs[i]? = some c) (place : Visit.place cs i = some m) :
    ((cs.filter Visit.stays).map fun c => c.2.result.value)[m]? = some c.2.result.value := by
  unfold Visit.place at place
  rw [at_] at place
  by_cases stays : Visit.stays c
  · simp only [stays, if_true, Option.some.injEq] at place
    subst place
    simp [filter_place at_ stays]
  · simp [stays] at place

/-- What the array has at an index was built for an item with that place. -/
theorem Visit.found_place {cs : List (Value × Visit h)} {m : Nat} {v : Value}
    (found : ((cs.filter Visit.stays).map fun c => c.2.result.value)[m]? = some v) :
    ∃ j c, m ≤ j ∧ cs[j]? = some c ∧ Visit.place cs j = some m ∧ v = c.2.result.value := by
  rw [List.getElem?_map, Option.map_eq_some_iff] at found
  obtain ⟨c, listed, value⟩ := found
  obtain ⟨j, at_, stays, count⟩ := place_of_filter listed
  have bound : (cs.take j).countP Visit.stays ≤ j := List.countP_le_length.trans (List.length_take_le j cs)
  refine ⟨j, c, by omega, at_, ?_, value.symm⟩
  unfold Visit.place
  simp [at_, stays, count]

/-! ## Standing in a result -/

/-- The visit below another one whose place the result still has, with what stands there: each container
between them gives what its base check built, and no array drops an item up to the one on the way. A
stripped key leaves its place without a value. -/
inductive Visit.Stands : Visit h → Path → Visit h → Value → Prop
  | self {e : Visit h} : Stands e [] e e.result.value
  | item {e d : Visit h} {cs : List (Value × Visit h)} {built u : Value} {t : Schema} {i : Nat}
      {c : Value × Visit h} {q : Path} (content : e.schema.content = .array [t]) (children : e.Children cs built)
      (delivers : e.result.value = built) (at_ : cs[i]? = some c) (place : Visit.place cs i = some i)
      (below : Stands c.2 q d u) : Stands e (c.1 :: q) d u
  | key {e d : Visit h} {cs : List (Value × Visit h)} {built u : Value} {ks : List (Value × Schema)}
      {c : Value × Visit h} {q : Path} (content : e.schema.content = .object (some ks))
      (children : e.Children cs built) (accepted : ∀ c ∈ cs, c.2.accepts) (delivers : e.result.value = built)
      (member : c ∈ cs) (kept : c.2.schema.strips = false) (below : Stands c.2 q d u) : Stands e (c.1 :: q) d u
  | stripped {e : Visit h} {cs : List (Value × Visit h)} {built : Value} {ks : List (Value × Schema)}
      {c : Value × Visit h} (content : e.schema.content = .object (some ks))
      (children : e.Children cs built) (accepted : ∀ c ∈ cs, c.2.accepts) (delivers : e.result.value = built)
      (member : c ∈ cs) (strips : c.2.schema.strips) : Stands e [c.1] c.2 .undefined

theorem Visit.Children.fixed {e : Visit h} {cs : List (Value × Visit h)} {built : Value}
    (children : e.Children cs built) (fixed : e.schema.Fixed) : ∀ c ∈ cs, c.2.schema.Fixed := by
  obtain ⟨s, given, site, prefs, before, result, after, ran⟩ := e
  cases children with
  | items isArray base visits =>
      cases fixed with
      | leaf isLeaf =>
          obtain rfl := isArray
          cases isLeaf
      | array item =>
          cases isArray
          exact fun c member => visits.schema c member ▸ item
      | object keys apart each => cases isArray
  | keys isObject base visits =>
      cases fixed with
      | leaf isLeaf =>
          obtain rfl := isObject
          cases isLeaf
      | array item => cases isObject
      | object keys apart each =>
          cases isObject
          exact fun c member => each _ (visits.segments.subset (List.mem_map_of_mem member))

theorem Visit.Stands.found {e d : Visit h} {q : Path} {u : Value} (stands : e.Stands q d u)
    (fixed : e.schema.Fixed) : reach e.result.value q = .ok u ∧ Open e.result.value q := by
  -- From the place upwards: what a container was built from its children decides the step to the child.
  induction stands with
  | self => exact ⟨rfl, trivial⟩
  | @item e d cs built u t i c q content children delivers at_ place _ ih =>
      obtain ⟨list, segments⟩ := children.listed content
      have segment := segments i c at_
      have item := Visit.place_found at_ place
      obtain ⟨bound, -⟩ := List.getElem?_eq_some_iff.mp item
      obtain ⟨reached, isOpen⟩ := ih (children.fixed fixed c (List.mem_of_getElem? at_))
      have stepped : step e.result.value c.1 = .ok c.2.result.value := by
        rw [delivers, list, segment, step_list, item]
        rfl
      refine ⟨by rw [reach_cons, stepped]; exact reached, .inr ⟨_, i, delivers.trans list, segment, bound⟩, _, stepped, isOpen⟩
  | @key e d cs built u ks c q content children accepted delivers member kept _ ih =>
      obtain ⟨fs, dict, found⟩ := children.found content fixed accepted
      obtain ⟨key, value⟩ := found c member
      obtain ⟨reached, isOpen⟩ := ih (children.fixed fixed c member)
      have stepped : step e.result.value c.1 = .ok c.2.result.value := by
        rw [delivers, dict, step_dict key, value, kept]
        rfl
      exact ⟨by rw [reach_cons, stepped]; exact reached, .inl ⟨fs, delivers.trans dict, key⟩, _, stepped, isOpen⟩
  | @stripped e cs built ks c content children accepted delivers member strips =>
      obtain ⟨fs, dict, found⟩ := children.found content fixed accepted
      obtain ⟨key, value⟩ := found c member
      have stepped : step e.result.value c.1 = .ok .undefined := by
        rw [delivers, dict, step_dict key, value, strips]
        rfl
      exact ⟨by rw [reach_cons, stepped]; rfl, .inl ⟨fs, delivers.trans dict, key⟩, _, stepped, trivial⟩

end Conform
