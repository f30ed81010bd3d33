import Conform.Proofs.Requests
import Conform.Proofs.Sight
import Conform.Proofs.Validation.Approach

/-!
# Spellings of one target

A target can be named from the object that encloses it, from any object further out, and from the root. An object is
checked in a working copy, which enters the outer copies only when the object is done. So from further out a target is
read as the input has it, and from the enclosing object as the keys checked before have left it.
-/

namespace Conform

open Datum
open Validation (isReplaceable)

/-- No object at or below a schema declares a key twice. -/
def Schema.KeysDistinct (s : Schema) : Prop :=
  ∀ t ks, s.Below t → t.content = .object (some ks) → ks.Pairwise fun a b => sameKey a.1 b.1 = false

/-- Whether the keys of an object are pairwise different. -/
def Content.hasDistinctKeys : Content → Bool
  | .object (some ks) => decide (ks.Pairwise fun a b => sameKey a.1 b.1 = false)
  | _ => true

theorem Schema.keysDistinct {s : Schema} (checked : s.all fun _ content => content.hasDistinctKeys) : s.KeysDistinct := by
  intro t ks below content
  have here := all_below checked below
  rw [content] at here
  exact of_decide_eq_true here

/-- Some object at or below a schema declares the key `x` before the key `l`. -/
def Schema.DeclaresBefore (s : Schema) (x l : Value) : Prop :=
  ∃ t front u back, s.Below t ∧ t.content = .object (some (front ++ (l, u) :: back)) ∧ ∃ e ∈ front, sameKey e.1 x

/-! ## Working copies -/

theorem Datum.apart_of_str {k : Value} {t : String} (different : sameKey k (.str t) = false) : Apart k (.str t) := by
  intro j same
  by_contra found
  obtain rfl := sameKey_str.mp (by simpa using found)
  have other : k = .str t := by cases k <;> simp_all [sameKey, isUndefined, isNull]
  subst other
  rw [(isKey_str t).itself] at different
  cases different

theorem Keys.Leaves.find? {front : List (Value × Schema)} {es es' : Dict} {l : Value} (leaves : Leaves front es es')
    (apart : ∀ e ∈ front, Apart e.1 l ∧ sameKey e.1 l = false) : Datum.find? l es' = Datum.find? l es := by
  induction leaves with
  | done => rfl
  | accepted w _ ih =>
      obtain ⟨⟨parted, different⟩, rest⟩ := List.forall_mem_cons.mp apart
      rw [ih rest]
      exact Keys.find?_settle_apart parted.parted fun _ _ => different
  | rejected _ ih => exact ih (List.forall_mem_cons.mp apart).2

/-- The working copy of an object of `s` that stands at a place of the input, when the object comes to a key. -/
inductive WorkingCopy (s : Schema) (input : Value) (x : Path) (k : Value) : Value → Prop
  | at_ {t u : Schema} {front back : List (Value × Schema)} {given es : Dict} (below : s.Below t)
      (content : t.content = .object (some (front ++ (k, u) :: back))) (whole : reach input x = .ok (.dict given))
      (leaves : Keys.Leaves front given es) : WorkingCopy s input x k (.dict es)

/-- Under the key that it has come to, a working copy has what the input has. -/
theorem WorkingCopy.here {s : Schema} {input b : Value} {x : Path} {k : String} (copy : WorkingCopy s input x (.str k) b)
    (distinct : s.KeysDistinct) (q : Path) : reach b (.str k :: q) = reach input (x ++ .str k :: q) := by
  obtain ⟨below, content, whole, leaves⟩ := copy
  have before := (List.pairwise_append.mp (distinct _ _ below content)).2.2
  have found := leaves.find? (l := .str k) fun e member =>
    have different := before e member _ (List.mem_cons_self ..)
    ⟨apart_of_str different, different⟩
  rw [reach_append, whole, reach_dict (isKey_str k), found, ← reach_dict (isKey_str k)]
  rfl

/-! ## Requests at their places -/

namespace Request

variable {h : Hooks} {s : Schema} {input : Value} {c d : Request} {role : Role}

/-- A request on the data at its own place: no deep default stands in for them, and a test is asked about them. -/
def InPlace (c : Request) (role : Role) (d : Request) : Prop :=
  Node.isDeep c.schema.core.default = false ∧ (role = .test → d.given = c.given ∨ d.given = .undefined)

/-- A request at a place that only keys lead to, below the working copies of the objects on the way. -/
structure Placed (s : Schema) (input : Value) (c : Request) : Prop where
  given : isReplaceable c.given → reach input c.site.path = .ok c.given
  depth : c.site.ancestors.length = c.site.path.length
  copies : ∀ i k b, c.site.path[i]? = some k → c.site.ancestors.reverse[i]? = some b →
    WorkingCopy s input (c.site.path.take i) k b

theorem Comes.container {q : Preferences} {w : Value} (comes : c.Comes h q w)
    (undeep : Node.isDeep c.schema.core.default = false) (container : isReplaceable w) : w = c.given := by
  obtain ⟨-, r, r', es, ran⟩ := comes
  exact Node.approach_container undeep ran container

/-- A request for a key of an object stands below the working copy of that object. -/
theorem Placed.key {d : Request} {es' : Dict} {text : String} (placed : c.Placed s input)
    (distinct : s.KeysDistinct) (site : d.site = c.site.child (.dict es') (.str text))
    (given : d.given = (find? (.str text) es').getD .undefined)
    (copy : WorkingCopy s input c.site.path (.str text) (.dict es')) : d.Placed s input := by
  refine ⟨fun _ => ?_, by simp [site, Site.child, placed.depth], fun i j b isKey isCopy => ?_⟩
  · have here := copy.here distinct []
    rw [reach_dict (isKey_str text)] at here
    rw [site, given]
    exact here.symm
  · rw [site] at isKey isCopy ⊢
    simp only [Site.child, List.reverse_cons] at isKey isCopy ⊢
    rcases Nat.lt_or_ge i c.site.path.length with inside | outside
    · rw [List.getElem?_append_left inside] at isKey
      rw [List.getElem?_append_left (by simpa [placed.depth] using inside)] at isCopy
      rw [List.take_append_of_le_length inside.le]
      exact placed.copies i j b isKey isCopy
    · have last : i = c.site.path.length := by
        have := (List.getElem?_eq_some_iff.mp isKey).1
        simp at this
        omega
      subst last
      obtain rfl : .str text = j := by simpa using isKey
      obtain rfl : .dict es' = b := by simpa [placed.depth] using isCopy
      simpa using copy

theorem Leads.placed (distinct : s.KeysDistinct) (below : s.Below c.schema) (placed : c.Placed s input)
    (leads : c.Leads h role d) (inPlace : c.InPlace role d) (texts : ∀ k ∈ d.site.path, ∃ t, k = .str t) :
    d.Placed s input := by
  obtain ⟨undeep, tests⟩ := inPlace
  -- Keys add a working copy to the way. No item is on it, and the other parts stay where they are asked.
  cases leads with
  | empty part merged converts =>
      refine ⟨fun container => ?_, placed.depth, placed.copies⟩
      have same := Node.trimmed_container container
      simp only [same] at container ⊢
      obtain rfl := Node.convert_container converts container
      exact placed.given container
  | @item _ _ _ _ _ done =>
      obtain ⟨t, same⟩ := texts (.int done.length) (by simp [Site.child])
      cases same
  | @key front back k t q es es' content comes leaves =>
      have whole : reach input c.site.path = .ok (.dict es) := by
        have given := comes.container undeep rfl
        exact given ▸ placed.given (given ▸ rfl)
      obtain ⟨text, rfl⟩ := texts k (by simp [Site.child])
      have copy : WorkingCopy s input c.site.path (.str text) (.dict es') := .at_ below content whole leaves
      exact placed.key distinct rfl rfl copy
  | entry part comes =>
      refine ⟨fun container => ?_, placed.depth, placed.copies⟩
      have same := comes.container undeep container
      simp only [same] at container ⊢
      exact placed.given container
  | test part comes subject =>
      refine ⟨fun container => ?_, placed.depth, placed.copies⟩
      rcases tests rfl with same | same
      · simp only at same container ⊢
        rw [same] at container ⊢
        exact placed.given container
      · simp only at same container
        rw [same] at container
        cases container

theorem Reaches.placed (distinct : s.KeysDistinct) {p : Preferences} (reached : Reaches h InPlace ⟨s, input, {}, p⟩ c)
    (texts : ∀ k ∈ c.site.path, ∃ t, k = .str t) : c.Placed s input := by
  induction reached with
  | refl => exact ⟨fun _ => rfl, rfl, by simp⟩
  | tail steps step ih =>
      obtain ⟨role, leads, inPlace⟩ := step
      have placed := ih fun k member => texts k (leads.path ▸ List.mem_append_left _ member)
      exact leads.placed distinct (below steps) placed inPlace texts

/-- The working copies are those of the objects on the way, the one of the root last. -/
theorem Placed.copy (placed : c.Placed s input) {x y : Path} {k : Value} (path : c.site.path = x ++ k :: y) :
    ∃ b, c.site.ancestors[y.length]? = some b ∧ WorkingCopy s input x k b := by
  have depth : c.site.ancestors.length = x.length + (y.length + 1) := by simp [placed.depth, path]
  obtain ⟨b, isCopy⟩ : ∃ b, c.site.ancestors[y.length]? = some b :=
    ⟨_, List.getElem?_eq_getElem (by omega)⟩
  have reversed : c.site.ancestors.reverse[x.length]? = some b := by
    rw [List.getElem?_reverse (by omega), ← isCopy]
    congr 1
    omega
  have copy := placed.copies x.length k b (by simp [path]) reversed
  rw [path, List.take_left] at copy
  exact ⟨b, isCopy, copy⟩

/-- Under the first key on the way the outermost copy has what the input has. -/
theorem Placed.root (placed : c.Placed s input) (distinct : s.KeysDistinct) {k : String} {y : Path}
    (path : c.site.path = .str k :: y) :
    ∃ b, c.site.ancestors.getLast? = some b ∧ ∀ q, reach b (.str k :: q) = reach input (.str k :: q) := by
  obtain ⟨b, isCopy, copy⟩ := placed.copy (x := []) path
  refine ⟨b, ?_, copy.here distinct⟩
  rw [List.getLast?_eq_getElem?, placed.depth, path]
  exact isCopy

end Request

/-! ## What the spellings find -/

/-- A reference to a path below a target, which neither adjusts what it finds nor looks it up. -/
structure Reference.Names (r : Reference) (target : Target) (path : List String) : Prop where
  target : r.target = target
  path : r.path = path
  unadjusted : r.adjust = none
  untabled : r.table = none

theorem Reference.Names.resolves {h : Hooks} {r : Reference} {target : Target} {path : List String}
    (names : r.Names target path) {f : Frame} {v o : Value} {x : Path} (origin : r.origin? v f.site = some o)
    (place : r.absolute f.site = .ok x) (texts : ∀ k ∈ x, ∃ t, k = .str t) (run : Run) :
    (Node.resolve h f v r).exec run = (run.find x (reach o (path.map .str)), run) := by
  have hashable : ∀ k ∈ x, k.isHashable := by
    intro k member
    obtain ⟨t, rfl⟩ := texts k member
    exact (isKey_str t).hashable
  have found : r.resolve h.adjust run.journal.shadow f.prefs.context v f.site =
      run.find x (reach o r.pathValues) >>= r.finish h.adjust :=
    Reference.resolve_found h.adjust origin place hashable
  rw [Reference.pathValues, names.path, r.finish_plain names.unadjusted names.untabled] at found
  exact Prod.ext found rfl

theorem Run.find_eq {run : Run} {x : Path} {l l' : Except Fault Value} :
    run.find x l = run.find x l' ↔ (∃ w, run.captured x = some w ∧ w.isUndefined = false) ∨ l = l' := by
  unfold find
  cases run.captured x with
  | none => simp
  | some w => cases absent : w.isUndefined <;> simp [absent]

theorem Site.above_append {s : Site} {x y : Path} (path : s.path = x ++ y) : s.above y.length = x := by
  simp [above, path]

theorem texts_of_map {ks : List String} {x : Value} (member : x ∈ ks.map .str) : ∃ t, x = (.str t : Value) := by
  obtain ⟨t, -, rfl⟩ := List.mem_map.mp member
  exact ⟨t, rfl⟩

section

variable {h : Hooks} {s : Schema} {input : Value} {c : Request} {outer inner target : List String} {k l : String} {r : Reference}
  {f : Frame}

/-- From the object around the enclosing one a target is read as the input has it. -/
theorem Reference.Names.far (names : r.Names (.ancestor (inner.length + 2)) (k :: target)) (placed : c.Placed s input)
    (distinct : s.KeysDistinct) (path : c.site.path = (outer ++ k :: l :: inner).map .str) (site : f.site = c.site)
    (v : Value) (run : Run) : (Node.resolve h f v r).exec run =
      (run.find ((outer ++ k :: target).map .str) (reach input ((outer ++ k :: target).map .str)), run) := by
  rw [List.map_append, List.map_cons, List.map_cons] at path
  obtain ⟨b, isCopy, copy⟩ := placed.copy path
  have absolute : r.absolute f.site = .ok ((outer ++ k :: target).map .str) := by
    have above := site ▸ Site.above_append path
    simp only [List.length_cons, List.length_map] at above
    rw [Reference.absolute, names.target]
    simp [above, Reference.pathValues, names.path]
  have origin : r.origin? v f.site = some b := by
    rw [Reference.origin?, names.target, site]
    simpa using isCopy
  have found := names.resolves origin absolute (fun _ => texts_of_map) (h := h) run
  rwa [List.map_cons, copy.here distinct, ← List.map_cons, ← List.map_append] at found

/-- So it is from the root. -/
theorem Reference.Names.root (names : r.Names .root (outer ++ k :: target)) (placed : c.Placed s input)
    (distinct : s.KeysDistinct) (path : c.site.path = (outer ++ k :: l :: inner).map .str) (site : f.site = c.site)
    (v : Value) (run : Run) : (Node.resolve h f v r).exec run =
      (run.find ((outer ++ k :: target).map .str) (reach input ((outer ++ k :: target).map .str)), run) := by
  have absolute : r.absolute f.site = .ok ((outer ++ k :: target).map .str) := by
    rw [Reference.absolute, names.target, Reference.pathValues, names.path]
  obtain ⟨first, y, z, start, onWay⟩ : ∃ first y z, c.site.path = .str first :: y ∧
      (outer ++ k :: target).map Datum.str = (.str first :: z : Path) := by
    cases outer with
    | nil => exact ⟨k, _, _, path, rfl⟩
    | cons o outer => exact ⟨o, _, _, path, rfl⟩
  obtain ⟨b, isCopy, has⟩ := placed.root distinct start
  have origin : r.origin? v f.site = some b := by
    rw [Reference.origin?, names.target, site, isCopy]
    rfl
  have found := names.resolves origin absolute (fun _ => texts_of_map) (h := h) run
  rw [found, onWay, has]

/-- From the enclosing object it is read as its working copy has it. -/
theorem Reference.Names.near (names : r.Names (.ancestor (inner.length + 1)) target)
    (path : c.site.path = (outer ++ k :: l :: inner).map .str) (site : f.site = c.site) {b : Value}
    (isCopy : c.site.ancestors[inner.length]? = some b) (v : Value) (run : Run) : (Node.resolve h f v r).exec run =
      (run.find ((outer ++ k :: target).map .str) (reach b (target.map .str)), run) := by
  have split : c.site.path = (outer ++ [k]).map .str ++ (l :: inner).map .str := by simp [path]
  have absolute : r.absolute f.site = .ok ((outer ++ k :: target).map .str) := by
    have above := site ▸ Site.above_append split
    simp only [List.length_cons, List.length_map] at above
    rw [Reference.absolute, names.target]
    simp [above, Reference.pathValues, names.path]
  have origin : r.origin? v f.site = some b := by
    rw [Reference.origin?, names.target, site]
    exact isCopy
  exact names.resolves origin absolute (fun _ => texts_of_map) run

end

open Request in
/-- Three names of a target that lies under the keys `outer` and `k`, seen from below the key `l` of the object there:
from that object, from the one around it and from the root. The last two always find the same. So does the first one
exactly if a value was captured at the place or the object still has there what it was given, as it has unless it has
checked the key of the target before. -/
theorem spellings_agree {h : Hooks} {s : Schema} (distinct : s.KeysDistinct) {input : Value} {p : Preferences} {c : Request}
    (reached : Reaches h InPlace ⟨s, input, {}, p⟩ c) {outer inner target : List String} {k l : String}
    (path : c.site.path = (outer ++ k :: l :: inner).map .str) {near far root : Reference}
    (isNear : near.Names (.ancestor (inner.length + 1)) target)
    (isFar : far.Names (.ancestor (inner.length + 2)) (k :: target))
    (isRoot : root.Names .root (outer ++ k :: target)) {f : Frame} (site : f.site = c.site) (v : Value) (run : Run) :
    let place : Path := (outer ++ k :: target).map .str
    let find (r : Reference) := (Node.resolve h f v r).exec run
    find far = find root ∧
      (∃ b, c.site.ancestors[inner.length]? = some b ∧ (find near = find far ↔
        (∃ w, run.captured place = some w ∧ w.isUndefined = false) ∨ reach b (target.map .str) = reach input place)) ∧
      ∀ x rest, target = x :: rest → ¬ s.DeclaresBefore (.str x) (.str l) → find near = find far := by
  intro place find
  have placed := reached.placed distinct fun x member => texts_of_map (path ▸ member)
  have farFinds : find far = (run.find place (reach input place), run) := isFar.far placed distinct path site v run
  have rootFinds : find root = (run.find place (reach input place), run) := isRoot.root placed distinct path site v run
  have inside : c.site.path = (outer ++ [k]).map .str ++ .str l :: inner.map .str := by simp [path]
  obtain ⟨b, isCopy, copy⟩ := placed.copy inside
  rw [List.length_map] at isCopy
  have nearFinds : find near = (run.find place (reach b (target.map .str)), run) := isNear.near path site isCopy v run
  have agree : find near = find far ↔
      (∃ w, run.captured place = some w ∧ w.isUndefined = false) ∨ reach b (target.map .str) = reach input place := by
    rw [nearFinds, farFinds, Prod.mk.injEq, and_iff_left rfl, Run.find_eq]
  -- The first key of the target is none of those checked before, so the working copy still has what was given.
  obtain ⟨below, content, whole, leaves⟩ := copy
  refine ⟨farFinds.trans rootFinds.symm, ⟨_, isCopy, agree⟩, ?_⟩
  rintro x rest rfl unchecked
  have kept := leaves.find? (l := .str x) fun e member => by
    have different : sameKey e.1 (.str x) = false :=
      Bool.eq_false_iff.mpr fun same => unchecked ⟨_, _, _, _, below, content, e, member, same⟩
    exact ⟨apart_of_str different, different⟩
  have split : place = (outer ++ [k]).map .str ++ (.str x :: rest.map .str) := by simp [place]
  refine agree.mpr (.inr ?_)
  rw [split, reach_append, whole, List.map_cons, reach_dict (isKey_str x), kept, ← reach_dict (isKey_str x)]
  rfl

/-! ## A number and what it is compared with -/

/-- The names of the key `b` of the object under `a`, for a key beside it. -/
def nearB : Reference := referenceTo ["b"]

def farB : Reference := { serial := 0, key := "...a.b", target := .ancestor 2, holdsCache := false, path := ["a", "b"] }

def rootB : Reference := { serial := 0, key := "/a.b", target := .root, holdsCache := false, path := ["a", "b"] }

def numberB : Value × Schema := (.str "b", .node {} none .number)

def onlyC (r : Reference) : Value × Schema := (.str "c", .node { allowed := some { refs := [r] }, only := true } none .any)

/-- An object with the given keys under the key `a`. -/
def underA (keys : List (Value × Schema)) : Schema := .node {} none (.object (some
  [(.str "a", .node {} none (.object (some keys)))]))

/-- The entries of the object, of which `b` is a text that can be converted. -/
def textB : Dict := [(.str "b", .str "5"), (.str "c", .int 5)]

/-- The request for the key `c`. -/
def askedC : Request :=
  ⟨(onlyC nearB).2, .int 5, ⟨[.str "a", .str "c"], [.dict textB, .dict [(.str "a", .dict textB)]]⟩, {}⟩

theorem underA_asks (keys : List (Value × Schema)) :
    Request.Leads Hooks.idle ⟨underA keys, .dict [(.str "a", .dict textB)], {}, {}⟩ (.key (.str "a"))
      ⟨.node {} none (.object (some keys)), .dict textB, ⟨[.str "a"], [.dict [(.str "a", .dict textB)]]⟩, {}⟩ :=
  .key rfl ⟨rfl, {}, {}, [], rfl⟩ (.done : Keys.Leaves [] [(.str "a", .dict textB)] _)

theorem underA_reaches {keys : List (Value × Schema)} {d : Request}
    (leads : Request.Leads Hooks.idle ⟨.node {} none (.object (some keys)), .dict textB,
      ⟨[.str "a"], [.dict [(.str "a", .dict textB)]]⟩, {}⟩ (.key (.str "c")) d) :
    Request.Reaches Hooks.idle Request.InPlace ⟨underA keys, .dict [(.str "a", .dict textB)], {}, {}⟩ d :=
  (Relation.ReflTransGen.single ⟨_, underA_asks keys, rfl, fun same => by cases same⟩).tail
    ⟨_, leads, rfl, fun same => by cases same⟩

theorem askedC_reached : Request.Reaches Hooks.idle Request.InPlace
    ⟨underA [onlyC nearB, numberB], .dict [(.str "a", .dict textB)], {}, {}⟩ askedC :=
  underA_reaches (.key rfl ⟨rfl, {}, {}, [], rfl⟩ (.done : Keys.Leaves [] textB _))

/-- All three names find the text, before the number under `b` is checked. -/
theorem textB_found : (underA [onlyC nearB, numberB]).KeysDistinct ∧
    Request.Reaches Hooks.idle Request.InPlace ⟨underA [onlyC nearB, numberB], .dict [(.str "a", .dict textB)], {}, {}⟩ askedC ∧
    ∀ r ∈ [farB, rootB], (Node.resolve Hooks.idle (askedC.frame Hooks.idle {}) (.int 5) nearB).exec {} =
      (Node.resolve Hooks.idle (askedC.frame Hooks.idle {}) (.int 5) r).exec {} := by
  have distinct : (underA [onlyC nearB, numberB]).KeysDistinct := Schema.keysDistinct rfl
  have isNear : nearB.Names (.ancestor 1) ["b"] := ⟨rfl, rfl, rfl, rfl⟩
  have isFar : farB.Names (.ancestor 2) ["a", "b"] := ⟨rfl, rfl, rfl, rfl⟩
  have isRoot : rootB.Names .root ["a", "b"] := ⟨rfl, rfl, rfl, rfl⟩
  have path : askedC.site.path = (([] : List String) ++ "a" :: "c" :: []).map .str := rfl
  obtain ⟨outside, ⟨b, isCopy, agree⟩, -⟩ := spellings_agree distinct askedC_reached path isNear isFar isRoot
    (f := askedC.frame Hooks.idle {}) rfl (.int 5) {}
  obtain rfl : .dict textB = b := Option.some.inj isCopy
  have inside := agree.mpr (.inr rfl)
  exact ⟨distinct, askedC_reached, List.forall_mem_cons.mpr ⟨inside, List.forall_mem_singleton.mpr (inside.trans outside)⟩⟩

/-- The entries after the number was checked first, and the request for `c` that follows. -/
def convertedB : Dict := [(.str "b", .int 5), (.str "c", .int 5)]

def askedLater : Request :=
  ⟨(onlyC nearB).2, .int 5, ⟨[.str "a", .str "c"], [.dict convertedB, .dict [(.str "a", .dict textB)]]⟩, {}⟩

/-- What a reference finds on behalf of that request. -/
def foundLater (r : Reference) : Except Fault Value :=
  ((Node.resolve Hooks.idle (askedLater.frame Hooks.idle {}) (.int 5) r).exec {}).1

/-- How many errors the object has if `c` admits what a reference finds. -/
def errorsAt (r : Reference) : Except Fault Nat :=
  (((underA [numberB, onlyC r]).eval Hooks.idle (.dict [(.str "a", .dict textB)]) {} {}).exec {}).1.map fun r => r.errors.length

/-- From the enclosing object the number is found as it was converted, from further out as the text. -/
theorem names_of_number_differ :
    Request.Reaches Hooks.idle Request.InPlace
        ⟨underA [numberB, onlyC nearB], .dict [(.str "a", .dict textB)], {}, {}⟩ askedLater ∧
      (foundLater nearB = .ok (.int 5) ∧ foundLater farB = .ok (.str "5") ∧ foundLater rootB = .ok (.str "5")) ∧
      errorsAt nearB = .ok 0 ∧ errorsAt farB = .ok 1 ∧ errorsAt rootB = .ok 1 := by
  have checked : Keys.Leaves [numberB] textB convertedB := .accepted (e := numberB.2.eval Hooks.idle) (.int 5) .done
  exact ⟨underA_reaches (.key rfl ⟨rfl, {}, {}, [], rfl⟩ checked), ⟨rfl, rfl, rfl⟩, rfl, rfl, rfl⟩

end Conform
