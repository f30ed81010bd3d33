import Conform.Proofs.Marked

/-!
# What references see of a marked node

A reference finds the value that a raw or stripped node captured at its place, the same as without the mark.
Below the place nothing is captured, and it finds what the object keeps of the node: its input or nothing.
-/

namespace Conform

open Datum

variable {h : Hooks} {m : ResultMode}

/-! ## Finding -/

/-- What a reference finds at a place where a value may be captured. -/
def Run.find (r : Run) (x : Path) (live : Except Fault Value) : Except Fault Value :=
  match r.captured x with
  | some w => if w.isUndefined then live else .ok w
  | none => live

theorem Run.captured_fresh {r : Run} (unused : r.journal.shadow = none) (x : Path) : r.captured x = none := by
  rw [Run.captured, unused]
  cases x <;> rfl

theorem Reference.resolve_found (adjust : Adjustment) {r : Reference} {run : Run} {context : Option Dict} {v o : Value}
    {s : Site} {x : Path} (origin : r.origin? v s = some o) (place : r.absolute s = .ok x)
    (hashable : ∀ k ∈ x, k.isHashable) : r.resolve adjust run.journal.shadow context v s =
      run.find x (reach o r.pathValues) >>= r.finish adjust := by
  unfold Reference.resolve
  rw [origin]
  cases target : r.target with
  | context => simp [Reference.absolute, target] at place
  | root | ancestor =>
      unfold Run.find Run.captured
      cases run.journal.shadow with
      | none => cases x <;> rfl
      | some sh =>
          simp only [place, Option.getD_some, bind, Except.bind, sh.lookup_of_hashable x hashable, Shadow.get]
          cases sh.tree.at? x with
          | none => rfl
          | some w => cases absent : w.isUndefined <;> simp [absent, pure, Except.pure]

/-! ## Looking back -/

/-- A reference into an object that is resolved below a later key of it, in a run in which nothing was captured
at the place `p` under the key since the visit there began. -/
inductive Visit.Reads (e : Visit h) (k : Value) (c : Visit h) (p : Path) (r : Reference) : Site → Run → Prop
  | later {a b : List (Value × Visit h)} {built j : Value} {d o : Visit h} {q : Path} {run : Run}
      (children : e.Children (a ++ (k, c) :: b) built) (member : (j, d) ∈ b) (visits : d.Visits q o)
      (target : r.target = .ancestor (q.length + 1) ∨ r.target = .root ∧ e.site = {})
      (goesOn : o.before.Extends (Within (e.site.path ++ k :: p)) run) : Reads e k c p r o.site run

/-- What an object keeps of the visit of a key. -/
def Visit.kept (c : Visit h) : Value := if c.schema.strips then .undefined else c.result.value

/-- From below a later key a reference starts at the object, which has what was kept of the visit, and sees what
was captured when the visit ended. -/
theorem Visit.Reads.sees (growing : ∀ K, h.Growing K) {e c : Visit h} {k : Value} {p : Path} {r : Reference}
    {s : Site} {run : Run} {ks : List (Value × Schema)} (reads : e.Reads k c p r s run) (fixed : e.schema.Fixed)
    (content : e.schema.content = .object (some ks)) (keys : ∀ i ∈ e.site.path, i.IsKey) (accepts : c.accepts)
    (v : Value) : k.IsKey ∧ (∃ es, r.origin? v s = some (.dict es) ∧ (find? k es).getD .undefined = c.kept) ∧
      r.absolute s = .ok (e.site.path ++ r.pathValues) ∧
      ∀ x, Within (e.site.path ++ k :: p) x → run.captured x = c.after.captured x := by
  cases reads with
  | @later a b built j d o q run children member visits target goesOn =>
  obtain ⟨key, -⟩ := children.others fixed content
  have spares := children.spares fixed content keys p
  have entry : ∃ es, d.site = e.site.child (.dict es) j ∧ (find? k es).getD .undefined = c.kept := by
    cases children with
    | items isArray => simp [content] at isArray
    | keys isObject base ran =>
        obtain ⟨declared, apart, -⟩ := fixed.declared isObject
        obtain ⟨es, ks₁, ks₂, t, rfl, visit, goesOn⟩ := ran.split
        have after := (List.pairwise_cons.mp (List.pairwise_append.mp apart).2.1).1
        obtain ⟨es', site, found⟩ := (goesOn accepts).entry (fun x below => declared x (by simp [below]))
          (fun x below => (after x below).symm) member
        exact ⟨es', site, by rw [found]; exact find?_settle_self key visit.given⟩
  obtain ⟨es, place, found⟩ := entry
  obtain ⟨_, _, _, _, -, sequence, -⟩ := children.runs
  obtain ⟨before, after, rfl⟩ := List.append_of_mem member
  have passed := sequence.split.2.2.split.1.grows (growing (Within (e.site.path ++ k :: p)))
    fun x below => spares x (by simp [below])
  have path : d.site.path = e.site.path ++ [j] := by rw [place]; rfl
  obtain ⟨started, around, site, length⟩ := visits.starts growing (path ▸ spares (j, d) (by simp))
  have ancestors : o.site.ancestors = around ++ .dict es :: e.site.ancestors := by rw [site, place]; rfl
  have segments : o.site.path = e.site.path ++ j :: q := by rw [site, path]; simp
  refine ⟨key, ⟨es, ?_, found⟩, ?_, (passed.trans (started.trans goesOn)).kept⟩
  · rcases target with above | ⟨root, top⟩
    · rw [Reference.origin?, above, ancestors, ← length]
      simp
    · rw [Reference.origin?, root, ancestors, top]
      simp
  · rcases target with above | ⟨root, top⟩
    · have levels : o.site.above (q.length + 1) = e.site.path := by
        have bound : q.length + 1 ≤ (e.site.path ++ j :: q).length := by simp
        have rest : (e.site.path ++ j :: q).length - (q.length + 1) = e.site.path.length := by simp
        rw [Site.above, segments]
        simp only [bound, if_true, rest, List.take_left]
      rw [Reference.absolute, above]
      exact congrArg (fun x => Except.ok (x ++ r.pathValues)) levels
    · rw [Reference.absolute, root, top]
      rfl

/-! ## With and without a mark -/

/-- What a reference finds at and below a marked node of which the value `w` was captured. -/
def ResultMode.sight (m : ResultMode) (given w : Value) : Path → Except Fault Value
  | [] => .ok (if w.isUndefined then m.gives given else w)
  | k :: q => reach (m.gives given) (k :: q)

/-- Whether a mark makes no difference at or below a node: at the node its value was captured, and below it what
the object keeps of the node is the same as in its value. -/
def ResultMode.Transparent (m : ResultMode) (given w : Value) (q : Path) : Prop :=
  q = [] ∧ w.isUndefined = false ∨ reach (m.gives given) q = reach w q

theorem ResultMode.transparent_iff (m : ResultMode) (given w : Value) (q : Path) :
    m.Transparent given w q ↔ m.sight given w q = reach w q := by
  unfold Transparent
  cases q with
  | nil => cases absent : w.isUndefined <;> simp [sight, absent, reach, pure, Except.pure]
  | cons k q => simp [sight]

theorem Reference.finish_plain {r : Reference} (unadjusted : r.adjust = none) (untabled : r.table = none)
    (adjust : Adjustment) (found : Except Fault Value) : found >>= r.finish adjust = found := by
  cases found with
  | error fault => rfl
  | ok v => simp [finish, unadjusted, untabled, bind, Except.bind, pure, Except.pure]

theorem Visit.Reads.children {e c : Visit h} {k : Value} {p : Path} {r : Reference} {s : Site} {run : Run}
    (reads : e.Reads k c p r s run) : ∃ a b built, e.Children (a ++ (k, c) :: b) built := by
  cases reads with
  | later children => exact ⟨_, _, _, children⟩

theorem reach_dict {k : Value} (key : k.IsKey) (es : Dict) (q : Path) :
    reach (.dict es) (k :: q) = reach ((find? k es).getD .undefined) q := by
  rw [reach_cons, step_dict key]
  rfl

theorem Reference.pathValues_hashable (r : Reference) : ∀ k ∈ r.pathValues, k.isHashable := by
  intro k member
  obtain ⟨text, -, rfl⟩ := List.mem_map.mp member
  exact (isKey_str text).hashable

/-- References look at one node of two objects that are the same, but for a mark of the node in the second. What
they see without the mark is the value of the node. With it they see the same at the node, unless the value is
absent, and below the node they see what the object keeps of it. So a mark is transparent to them at the node, and
below it exactly if what is kept has the same there. -/
theorem marked_node_resolves (growing : ∀ K, h.Growing K) {e e' : Visit h} (alongside : e.Alongside e')
    {core : Core} {empty : Option Schema} {front back : List (Value × Schema)} {k : Value} {t t' : Schema} {p : Path}
    (schema : e.schema = .node core empty (.object (some (front ++ (k, t) :: back))))
    (schema' : e'.schema = .node core empty (.object (some (front ++ (k, t') :: back))))
    (marks : Schema.Marks m p t t') (fixed : e.schema.Fixed) (keys : ∀ i ∈ e.site.path, i.IsKey)
    (clear : ∀ x, Within (e.site.path ++ k :: p) x → e.before.captured x = none) {c c' d d' : Visit h} {w u : Value}
    (accepts : c.accepts) (accepts' : c'.accepts) (stands : c.Stands p d w) (stands' : c'.Stands p d' u)
    {r : Reference} {q : Path} (path : r.pathValues = k :: (p ++ q)) {s s' : Site} {run run' : Run}
    (reads : e.Reads k c p r s run) (reads' : e'.Reads k c' p r s' run') (adjust : Adjustment)
    (context context' : Option Dict) (v v' : Value) :
    r.resolve adjust run.journal.shadow context v s = reach d.result.value q >>= r.finish adjust ∧
      r.resolve adjust run'.journal.shadow context' v' s' =
        m.sight d.given d.result.value q >>= r.finish adjust ∧
      (m.Transparent d.given d.result.value q → r.resolve adjust run'.journal.shadow context' v' s' =
        r.resolve adjust run.journal.shadow context v s) ∧
      (r.adjust = none → r.table = none → r.resolve adjust run'.journal.shadow context' v' s' =
        r.resolve adjust run.journal.shadow context v s → m.Transparent d.given d.result.value q) := by
  have content : e.schema.content = .object (some (front ++ (k, t) :: back)) := by rw [schema]; rfl
  have content' : e'.schema.content = .object (some (front ++ (k, t') :: back)) := by rw [schema']; rfl
  have fixedBelow : t.Fixed := (schema ▸ fixed).others.1
  have fixed' : e'.schema.Fixed := schema' ▸ (schema ▸ fixed).replaced (marks.fixed fixedBelow)
  obtain ⟨a, b, built, children⟩ := reads.children
  obtain ⟨a', b', built', children'⟩ := reads'.children
  obtain ⟨beside, isT, isT', parent, site⟩ := children.alongside alongside schema schema' fixed children'
    (List.mem_append_right _ (List.mem_cons_self ..)) (List.mem_append_right _ (List.mem_cons_self ..))
  -- What the visits of the key leave in the shadow.
  have place : c.site.path = e.site.path ++ [k] := by rw [site]; rfl
  have at_ : c.site.path ++ p = e.site.path ++ k :: p := by simp [place]
  have spares := children.spares fixed content keys p
  have started := children.starts growing fun x member => spares x (by simp [member])
  obtain ⟨key, ⟨es, origin, found⟩, absolute, captured⟩ := reads.sees growing fixed content keys accepts v
  obtain ⟨-, ⟨es', origin', found'⟩, absolute', captured'⟩ := reads'.sees growing fixed' content'
    (alongside.site ▸ keys) accepts' v'
  have left := marks.leave growing beside isT isT' fixedBelow (by simp [place])
    (fun i member => by
      rw [place] at member
      rcases List.mem_append.mp member with above | last
      · exact keys i above
      · exact List.mem_singleton.mp last ▸ key)
    (fun x within => by
      rw [at_] at within
      exact (started.kept x within).trans (clear x within)) stands stands'
  -- What the objects keep of them.
  have live : reach (.dict es) r.pathValues = reach w q := by
    have kept : c.kept = c.result.value := by
      rw [Visit.kept, isT, Schema.strips_eq_false marks.unmarked]
      rfl
    rw [path, reach_dict key, found, kept, reach_append, (stands.found (isT ▸ fixedBelow)).1]
    rfl
  have live' : reach (.dict es') r.pathValues = reach (m.gives d.given) q := by
    have kept : reach c'.kept p = .ok (m.gives d.given) := by
      cases strips : c'.schema.strips with
      | false =>
          rw [Visit.kept, strips, ← left.gives]
          exact (stands'.found (isT' ▸ marks.fixed fixedBelow)).1
      | true =>
          rw [isT'] at strips
          cases marks with
          | here =>
              rw [Schema.strips_marked] at strips
              subst strips
              rw [Visit.kept, isT', (Schema.strips_marked _).mpr rfl]
              rfl
          | key unmarked =>
              exact absurd strips (by simp [Schema.strips, Schema.core, unmarked])
    rw [path, reach_dict key, found', reach_append, kept]
    rfl
  have hashable : ∀ i ∈ e.site.path ++ r.pathValues, i.isHashable := by
    intro i member
    rcases List.mem_append.mp member with above | below
    · exact (keys i above).hashable
    · exact r.pathValues_hashable i below
  have inside : e.site.path ++ r.pathValues = c.site.path ++ p ++ q := by rw [path, at_]; simp
  have within : Within (e.site.path ++ k :: p) (e.site.path ++ r.pathValues) := by
    rw [inside, at_]
    exact List.prefix_append _ _
  have without : r.resolve adjust run.journal.shadow context v s = reach d.result.value q >>= r.finish adjust := by
    rw [Reference.resolve_found adjust origin absolute hashable, Run.find, captured _ within,
      left.clear _ (by rw [inside]; exact List.prefix_append _ _), live, left.value]
  have with_ : r.resolve adjust run'.journal.shadow context' v' s' =
      m.sight d.given d.result.value q >>= r.finish adjust := by
    rw [Reference.resolve_found adjust origin' absolute' (alongside.site ▸ hashable), Run.find, live', ← left.value]
    congr 1
    rw [captured' _ (alongside.site ▸ within), alongside.site, inside]
    cases q with
    | nil =>
        rw [List.append_nil, left.captured]
        cases absent : w.isUndefined <;> simp [ResultMode.sight, absent, reach, pure, Except.pure]
    | cons j q =>
        rw [left.below]
        rfl
  refine ⟨without, with_, fun transparent => ?_, fun unadjusted untabled same => ?_⟩
  · rw [without, with_, (m.transparent_iff _ _ _).mp transparent]
  · rw [without, with_, r.finish_plain unadjusted untabled, r.finish_plain unadjusted untabled] at same
    exact (m.transparent_iff _ _ _).mpr same

/-! ## A number and an object -/

def referenceTo (path : List String) : Reference :=
  { serial := 0, key := ".".intercalate path, target := .ancestor 1, holdsCache := false, path }

/-- Two keys, of which the first has a number and may have a mark. -/
def numberPair (mark : Option ResultMode) : Schema := .node {} none (.object (some
  [(.str "a", .node { result := mark } none .number), (.str "b", .node {} none .any)]))

/-- The entries of a pair, with the datum under the first key. -/
def pairOf (a : Value) : Dict := [(.str "a", a), (.str "b", .int 5)]

def wholeVisit : Visit Hooks.idle :=
  ⟨numberPair none, .dict (pairOf (.str "5")), {}, {}, {}, ⟨.dict (pairOf (.int 5)), []⟩, {}, rfl⟩

/-- The run in which 5 was captured. -/
def fiveCaptured : Run := ({} : Run).onJournal (Journal.capture [.str "a"] (.int 5))

def wholeRawVisit : Visit Hooks.idle :=
  ⟨numberPair (some .raw), .dict (pairOf (.str "5")), {}, {}, {}, ⟨.dict (pairOf (.str "5")), []⟩, fiveCaptured, rfl⟩

def numberVisit : Visit Hooks.idle :=
  ⟨.node {} none .number, .str "5", ⟨[.str "a"], [.dict (pairOf (.str "5"))]⟩, {}, {}, ⟨.int 5, []⟩, {}, rfl⟩

def rawNumberVisit : Visit Hooks.idle :=
  ⟨.node { result := some .raw } none .number, .str "5", ⟨[.str "a"], [.dict (pairOf (.str "5"))]⟩, {}, {},
    ⟨.str "5", []⟩, fiveCaptured, rfl⟩

def siblingVisit (a : Value) (r : Run) : Visit Hooks.idle :=
  ⟨.node {} none .any, .int 5, ⟨[.str "b"], [.dict (pairOf a)]⟩, {}, r, ⟨.int 5, []⟩, r, rfl⟩

theorem numberPair_fixed (mark : Option ResultMode) : (numberPair mark).Fixed := by
  refine .object (fun e member => ?_) (by simp [apart_str]) fun e member => ?_
  all_goals rcases List.mem_cons.mp member with rfl | member
  · exact isKey_str "a"
  · obtain rfl := List.mem_singleton.mp member
    exact isKey_str "b"
  · exact .leaf rfl
  · obtain rfl := List.mem_singleton.mp member
    exact .leaf rfl

/-- The second key finds the converted number under the first one, whether that is raw or not. -/
theorem rawNumber_resolves :
    (referenceTo ["a"]).resolve Hooks.idle.adjust fiveCaptured.journal.shadow none (.int 5)
        ⟨[.str "b"], [.dict (pairOf (.str "5"))]⟩ =
      (referenceTo ["a"]).resolve Hooks.idle.adjust none none (.int 5)
        ⟨[.str "b"], [.dict (pairOf (.int 5))]⟩ := by
  have alongside : wholeVisit.Alongside wholeRawVisit := ⟨rfl, rfl, rfl, rfl⟩
  have whole : wholeVisit.Children [(.str "a", numberVisit), (.str "b", siblingVisit (.int 5) {})] _ :=
    .keys rfl ⟨rfl, {}, [], rfl, rfl⟩ (.key ⟨rfl, rfl, rfl, rfl, rfl⟩ rfl (.key ⟨rfl, rfl, rfl, rfl, rfl⟩ rfl .done))
  have wholeRaw : wholeRawVisit.Children
      [(.str "a", rawNumberVisit), (.str "b", siblingVisit (.str "5") fiveCaptured)] _ :=
    .keys rfl ⟨rfl, {}, [], rfl, rfl⟩ (.key ⟨rfl, rfl, rfl, rfl, rfl⟩ rfl (.key ⟨rfl, rfl, rfl, rfl, rfl⟩ rfl .done))
  have reads : wholeVisit.Reads (.str "a") numberVisit [] (referenceTo ["a"]) (siblingVisit (.int 5) {}).site {} :=
    .later (a := []) whole (List.mem_singleton.mpr rfl) .self (.inl rfl) (.refl _)
  have readsRaw : wholeRawVisit.Reads (.str "a") rawNumberVisit [] (referenceTo ["a"])
      (siblingVisit (.str "5") fiveCaptured).site fiveCaptured :=
    .later (a := []) wholeRaw (List.mem_singleton.mpr rfl) .self (.inl rfl) (.refl _)
  have marks : Schema.Marks .raw [] (.node {} none .number) (.node { result := some .raw } none .number) :=
    .here rfl rfl
  have schema : ∀ mark, numberPair mark = .node {} none (.object (some
      ([] ++ (.str "a", .node { result := mark } none .number) :: [(.str "b", .node {} none .any)]))) := fun _ => rfl
  obtain ⟨-, -, same, -⟩ := marked_node_resolves (fun _ => idle_growing) alongside (schema none) (schema (some .raw)) marks
    (numberPair_fixed none) (List.forall_mem_nil _) (fun x _ => Run.captured_fresh rfl x) rfl rfl .self .self (q := []) rfl reads readsRaw
    Hooks.idle.adjust none none (.int 5) (.int 5)
  exact same (.inl ⟨rfl, rfl⟩)

/-- An object with a number under the key `b` of `a`, and a key that admits this number only. -/
def nestedNumber (mark : Option ResultMode) : Schema := .node {} none (.object (some
  [(.str "a", .node { result := mark } none (.object (some [(.str "b", .node {} none .number)]))),
    (.str "c", .node { allowed := some { refs := [referenceTo ["a", "b"]] }, only := true } none .any)]))

/-- How many errors the object has on a text that is converted to the admitted number. -/
def nestedErrors (mark : Option ResultMode) : Except Fault Nat :=
  (((nestedNumber mark).eval Hooks.idle (.dict [(.str "a", .dict [(.str "b", .str "5")]), (.str "c", .int 5)])
    {} {}).exec {}).1.map fun r => r.errors.length

/-- Below a raw or stripped object the reference does not find the converted number. -/
theorem marked_object_hides_number :
    nestedErrors none = .ok 0 ∧ nestedErrors (some .raw) = .ok 1 ∧ nestedErrors (some .strip) = .ok 1 :=
  ⟨rfl, rfl, rfl⟩

end Conform
