import Conform.Proofs.Passing

/-!
# Raw and stripped nodes

A raw or stripped node evaluates like the node without its mark. Besides, it captures its value, and it gives
its input or nothing instead.
-/

namespace Conform

open Datum

variable {h : Hooks} {m : ResultMode}

/-- What a marked node gives for its input. -/
def ResultMode.gives : ResultMode → Value → Value
  | .raw, v => v
  | .strip, _ => .undefined

namespace Schema

/-- The schema with its root raw or stripped. -/
def marked (m : ResultMode) : Schema → Schema
  | .node core empty content => .node { core with result := some m } empty content

theorem eval_marked (s : Schema) (unmarked : s.core.result = none) (uncached : s.core.cache = none) (v : Value)
    (site : Site) (p : Preferences) : (s.marked m).eval h v site p = s.eval h v site p >>= fun r =>
      (modify (Run.onJournal (Journal.capture site.path r.value)) : Eval Unit) >>= fun _ =>
        pure ⟨m.gives v, r.errors⟩ := by
  obtain ⟨core, empty, content⟩ := s
  rw [marked, eval_eq, eval_eq, Node.evaluate_eq, Node.evaluate_eq, bind_assoc]
  congr 1
  funext q
  rw [Node.through_idle _ _ _ (.inl uncached), Node.through_idle _ _ _ (.inl uncached), Node.settled_eq,
    Node.settled_eq]
  have body : ∀ f, Node.body h ((node { core with result := some m } empty content).toNode h) f =
      Node.body h ((node core empty content).toNode h) f := by
    intro f
    cases content <;> rfl
  have finishing : ∀ f u es, Node.finishing h { core with result := some m } f u es =
      Node.finishing h core f u es >>= fun r =>
        (modify (Run.onJournal (Journal.capture f.site.path r.value)) : Eval Unit) >>= fun _ =>
          pure ⟨m.gives f.given, r.errors⟩ := by
    intro f u es
    have delivered : ∀ w fs, Node.deliver { core with result := some m } f w fs =
        Node.deliver core f w fs >>= fun r =>
          (modify (Run.onJournal (Journal.capture f.site.path r.value)) : Eval Unit) >>= fun _ =>
            pure ⟨m.gives f.given, r.errors⟩ := by
      intro w fs
      have plain : Node.deliver core f w fs = pure ⟨w, fs⟩ := by
        have none : core.result = none := unmarked
        unfold Node.deliver
        rw [none]
      rw [plain, pure_bind]
      cases m <;> rfl
    unfold Node.finishing
    simp only [delivered, bind_assoc]
    rfl
  rw [body, bind_assoc]
  congr 1
  funext state
  exact finishing _ _ _

/-- Schemas that differ in one node below keys, which has a mark in the second. The node holds no cache and no
marks in the first, and above it there is no mark in either. -/
inductive Marks (m : ResultMode) : Path → Schema → Schema → Prop
  | here {s : Schema} (unmarked : s.all fun core _ => core.result.isNone) (uncached : s.core.cache = none) :
      Marks m [] s (s.marked m)
  | key {core : Core} {empty : Option Schema} {front back : List (Value × Schema)} {k : Value} {t t' : Schema}
      {p : Path} (unmarked : core.result = none) (below : Marks m p t t') :
      Marks m (k :: p) (.node core empty (.object (some (front ++ (k, t) :: back))))
        (.node core empty (.object (some (front ++ (k, t') :: back))))

end Schema

/-! ## Two evaluations side by side -/

namespace Visit

/-- Visits that start alike. -/
structure Alongside (c c' : Visit h) : Prop where
  given : c'.given = c.given
  site : c'.site = c.site
  prefs : c'.prefs = c.prefs
  before : c'.before = c.before

theorem At.alongside {c c' : Visit h} {t t' : Schema} {v : Value} {s : Site} {p : Preferences} {r : Run}
    (one : c.At t v s p r) (other : c'.At t' v s p r) : c.Alongside c' where
  given := other.given.trans one.given.symm
  site := other.site.trans one.site.symm
  prefs := other.prefs.trans one.prefs.symm
  before := other.before.trans one.before.symm

/-- A visit to a marked node beside one to the node without its mark. -/
theorem Alongside.marked {c c' : Visit h} (alongside : c.Alongside c') (schema : c'.schema = c.schema.marked m)
    (unmarked : c.schema.core.result = none) (uncached : c.schema.core.cache = none) :
    c'.result = ⟨m.gives c.given, c.result.errors⟩ ∧
      c'.after = c.after.onJournal (Journal.capture c.site.path c.result.value) := by
  obtain ⟨_, given, site, prefs, before, result, after, ran⟩ := c
  obtain ⟨_, _, _, _, _, result', after', ran'⟩ := c'
  obtain ⟨rfl, rfl, rfl, rfl⟩ := alongside
  simp only at schema
  subst schema
  rw [Schema.eval_marked _ unmarked uncached, Eval.exec_bind, ran] at ran'
  obtain ⟨same, rfl⟩ := Prod.mk.inj ran'
  exact ⟨(Except.ok.inj same).symm, rfl⟩

theorem Base.alongside {e e' : Visit h} (alongside : e.Alongside e') {core : Core} {empty : Option Schema}
    {ks ks' : List (Value × Schema)} (schema : e.schema = .node core empty (.object (some ks)))
    (schema' : e'.schema = .node core empty (.object (some ks'))) {q q' : Preferences} {w w' : Value} {r₀ r₀' : Run}
    (base : e.Base q w r₀) (base' : e'.Base q' w' r₀') : q = q' ∧ w = w' ∧ r₀ = r₀' ∧ e.frame q = e'.frame q' := by
  obtain ⟨merged, r, es, consulted, approached⟩ := base
  obtain ⟨merged', r', es', consulted', approached'⟩ := base'
  have shared : e'.schema.merged e'.prefs = e.schema.merged e.prefs := by
    rw [schema, schema', alongside.prefs]
    rfl
  obtain rfl : q = q' := Except.ok.inj (merged.symm.trans (shared ▸ merged'))
  have frames : e.frame q = e'.frame q := by
    unfold frame
    rw [schema, schema', alongside.given, alongside.site]
    rfl
  have consults : ∀ f, (e'.schema.toNode h).consult f = (e.schema.toNode h).consult f := by
    intro f
    rw [schema, schema']
    rfl
  have approaches : ∀ f, Node.approach h (e'.schema.toNode h) f = Node.approach h (e.schema.toNode h) f := by
    intro f
    have presence : ∀ keys, ((Schema.node core empty (.object keys)).toNode h).presence f =
        some (core.presence.getD f.prefs.presence) := by
      intro keys
      obtain ⟨presence⟩ := core
      cases presence <;> rfl
    rw [schema, schema']
    unfold Node.approach Node.approachPresence
    rw [presence, presence]
    rfl
  rw [consults, ← frames, alongside.before, consulted] at consulted'
  obtain rfl : r = r' := congrArg Prod.snd consulted'
  rw [approaches, ← frames, approached] at approached'
  obtain ⟨same, rfl⟩ := Prod.mk.inj approached'
  cases same
  exact ⟨rfl, rfl, rfl, frames⟩

end Visit

namespace KeysRan

variable {f : Frame} {ks : List (Value × Schema)} {es : Dict} {r r' : Run} {j k : Value} {s t : Schema} {c : Visit h}
  {cs : List (Value × Visit h)}

theorem head (ran : KeysRan f ((k, t) :: ks) es r cs r') (others : ∀ e ∈ ks, e.1 ≠ k) (member : (k, c) ∈ cs) :
    c.At t ((find? k es).getD .undefined) (f.site.child (.dict es) k) f.prefs r := by
  have first : ∀ {d : Visit h} {es' : Dict} {r₁ : Run} {ds : List (Value × Visit h)},
      d.At t ((find? k es).getD .undefined) (f.site.child (.dict es) k) f.prefs r →
      KeysRan f ks es' r₁ ds r' → (k, c) ∈ (k, d) :: ds →
      c.At t ((find? k es).getD .undefined) (f.site.child (.dict es) k) f.prefs r := by
    intro d es' r₁ ds visit later member
    rcases List.mem_cons.mp member with same | rest
    · obtain rfl : c = d := congrArg Prod.snd same
      exact visit
    · exact absurd rfl (others _ (later.segments.subset (List.mem_map_of_mem rest)))
  cases ran with
  | key visit _ later => exact first visit later member
  | skip visit _ _ later => exact first visit later member
  | stop visit =>
      obtain rfl : c = _ := congrArg Prod.snd (List.mem_singleton.mp member)
      exact visit

/-- The visits of the keys after the first one. -/
theorem tail (ran : KeysRan f ((j, s) :: ks) es r cs r') (different : j ≠ k) (member : (k, c) ∈ cs) :
    ∃ d : Visit h, d.At s ((find? j es).getD .undefined) (f.site.child (.dict es) j) f.prefs r ∧
      ∃ ds, KeysRan f ks (if d.accepts then d.settle j es else es) d.after ds r' ∧ (k, c) ∈ ds := by
  have later : ∀ {d : Visit h} {ds : List (Value × Visit h)}, (k, c) ∈ (j, d) :: ds → (k, c) ∈ ds := by
    intro d ds member
    rcases List.mem_cons.mp member with same | rest
    · exact absurd (congrArg Prod.fst same).symm different
    · exact rest
  cases ran with
  | key visit accepts rest => exact ⟨_, visit, _, by rwa [if_pos accepts], later member⟩
  | skip visit fails _ rest => exact ⟨_, visit, _, by rwa [fails, if_neg Bool.false_ne_true], later member⟩
  | stop => cases later member

/-- Where two objects have the same keys up to one, its visits start alike. -/
theorem alongside {front back : List (Value × Schema)} {t' : Schema} {c' : Visit h} {cs' : List (Value × Visit h)}
    {r₁ r₁' : Run} (ran : KeysRan f (front ++ (k, t) :: back) es r cs r₁)
    (ran' : KeysRan f (front ++ (k, t') :: back) es r cs' r₁') (others : ∀ e ∈ front ++ back, e.1 ≠ k)
    (member : (k, c) ∈ cs) (member' : (k, c') ∈ cs') :
    c.Alongside c' ∧ c.schema = t ∧ c'.schema = t' ∧ ∃ parent, c.site = f.site.child parent k := by
  induction front generalizing es r cs cs' with
  | nil =>
      have visit := ran.head others member
      have visit' := ran'.head others member'
      exact ⟨visit.alongside visit', visit.schema, visit'.schema, _, visit.site⟩
  | cons e front ih =>
      obtain ⟨j, s⟩ := e
      have different : j ≠ k := others (j, s) (by simp)
      obtain ⟨d, visit, ds, rest, inside⟩ := ran.tail different member
      obtain ⟨d', visit', ds', rest', inside'⟩ := ran'.tail different member'
      obtain rfl := visit.unique visit'
      exact ih rest rest' (fun e below => others e (by simp [List.mem_append.mp below])) inside inside'

end KeysRan

/-! ## Beside a key -/

theorem Apart.ne {j k : Value} (apart : Apart j k) (key : k.IsKey) : j ≠ k := by
  rintro rfl
  have own := apart j key.itself
  simp [key.itself] at own

/-- The other visits of an object are of keys apart from one key. -/
theorem Visit.Children.others {e c : Visit h} {k built : Value} {a b : List (Value × Visit h)}
    {ks : List (Value × Schema)} (children : e.Children (a ++ (k, c) :: b) built) (fixed : e.schema.Fixed)
    (content : e.schema.content = .object (some ks)) :
    k.IsKey ∧ ∀ d ∈ a ++ b, d.1.IsKey ∧ Apart d.1 k := by
  obtain ⟨keys, apart, -⟩ := fixed.declared content
  cases children with
  | items isArray => simp [content] at isArray
  | keys isObject base ran =>
      rw [content] at isObject
      cases isObject
      have declared : ∀ d ∈ a ++ (k, c) :: b, d.1.IsKey := fun d member =>
        keys _ (ran.segments.subset (List.mem_map_of_mem member))
      have separate := apart.sublist ran.segments.sublist
      rw [List.pairwise_map, List.pairwise_append] at separate
      obtain ⟨-, after, between⟩ := separate
      refine ⟨declared (k, c) (by simp), fun d member => ?_⟩
      rcases List.mem_append.mp member with before | later
      · exact ⟨declared d (by simp [before]), between d before (k, c) (by simp)⟩
      · exact ⟨declared d (by simp [later]), ((List.pairwise_cons.mp after).1 d later).symm⟩

/-- A declared key has its schema, and no other entry is of that key. -/
theorem Schema.Fixed.others {core : Core} {empty : Option Schema} {front back : List (Value × Schema)} {k : Value}
    {t : Schema} (fixed : (Schema.node core empty (.object (some (front ++ (k, t) :: back)))).Fixed) :
    t.Fixed ∧ ∀ x ∈ front ++ back, x.1 ≠ k := by
  obtain ⟨declared, apart, each⟩ := fixed.declared rfl
  obtain ⟨-, after, between⟩ := List.pairwise_append.mp apart
  have key := declared (k, t) (by simp)
  refine ⟨each (k, t) (by simp), fun x member => ?_⟩
  rcases List.mem_append.mp member with before | later
  · exact Apart.ne (between x before (k, t) (by simp)) key
  · exact Apart.ne ((List.pairwise_cons.mp after).1 x later).symm key

theorem Schema.Fixed.replaced {core : Core} {empty : Option Schema} {front back : List (Value × Schema)} {k : Value}
    {t t' : Schema} (fixed : (Schema.node core empty (.object (some (front ++ (k, t) :: back)))).Fixed)
    (fixed' : t'.Fixed) : (Schema.node core empty (.object (some (front ++ (k, t') :: back)))).Fixed := by
  obtain ⟨keys, apart, each⟩ := fixed.declared rfl
  have names : (front ++ (k, t') :: back).map Prod.fst = (front ++ (k, t) :: back).map Prod.fst := by simp
  refine .object (fun e member => ?_) ?_ fun e member => ?_
  · obtain ⟨d, inside, same⟩ := List.mem_map.mp (names ▸ List.mem_map_of_mem member)
    exact same ▸ keys d inside
  · have separate : ((front ++ (k, t) :: back).map Prod.fst).Pairwise Apart := List.pairwise_map.mpr apart
    rw [← names, List.pairwise_map] at separate
    exact separate
  · rcases List.mem_append.mp member with first | rest
    · exact each e (by simp [first])
    · rcases List.mem_cons.mp rest with rfl | last
      · exact fixed'
      · exact each e (by simp [last])

/-- Objects with the same keys up to one come to it alike. -/
theorem Visit.Children.alongside {e e' c c' : Visit h} {core : Core} {empty : Option Schema}
    {front back : List (Value × Schema)} {k built built' : Value} {t t' : Schema} {cs cs' : List (Value × Visit h)}
    (alongside : e.Alongside e') (schema : e.schema = .node core empty (.object (some (front ++ (k, t) :: back))))
    (schema' : e'.schema = .node core empty (.object (some (front ++ (k, t') :: back))))
    (fixed : e.schema.Fixed) (children : e.Children cs built) (children' : e'.Children cs' built')
    (member : (k, c) ∈ cs) (member' : (k, c') ∈ cs') :
    c.Alongside c' ∧ c.schema = t ∧ c'.schema = t' ∧ ∃ parent, c.site = e.site.child parent k := by
  have content : e.schema.content = .object (some (front ++ (k, t) :: back)) := by rw [schema]; rfl
  have content' : e'.schema.content = .object (some (front ++ (k, t') :: back)) := by rw [schema']; rfl
  cases children with
  | items isArray => simp [content] at isArray
  | @keys _ es q r₀ r₁ _ isObject base ran =>
  cases children' with
  | items isArray => simp [content'] at isArray
  | @keys _ es' q' r₀' r₁' _ isObject' base' ran' =>
      rw [content] at isObject
      rw [content'] at isObject'
      cases isObject
      cases isObject'
      obtain ⟨rfl, same, rfl, frames⟩ := base.alongside alongside schema schema' base'
      cases same
      rw [← frames] at ran'
      exact ran.alongside ran' (Schema.Fixed.others (schema ▸ fixed)).2 member member'

/-- The other visits of an object capture nothing under a key. -/
theorem Visit.Children.spares {e c : Visit h} {k built : Value} {a b : List (Value × Visit h)}
    {ks : List (Value × Schema)} (children : e.Children (a ++ (k, c) :: b) built) (fixed : e.schema.Fixed)
    (content : e.schema.content = .object (some ks)) (keys : ∀ i ∈ e.site.path, i.IsKey) (p : Path) :
    ∀ d ∈ a ++ b, SparesBelow (Within (e.site.path ++ k :: p)) (e.site.path ++ [d.1]) := by
  intro d member
  obtain ⟨key, apart⟩ := (children.others fixed content).2 d member
  exact sparesBelow_apart (fun i inside => (keys i inside).itself) key.itself apart

/-- Under a key up to which two objects have the same keys nothing is captured before the visits of the key, if
nothing was before those of the objects. -/
theorem Visit.Children.comes (growing : ∀ K, h.Growing K) {e e' c c' : Visit h} {core : Core} {empty : Option Schema}
    {front back : List (Value × Schema)} {k built built' : Value} {t t' : Schema} {p : Path}
    {a b a' b' : List (Value × Visit h)} (alongside : e.Alongside e')
    (schema : e.schema = .node core empty (.object (some (front ++ (k, t) :: back))))
    (schema' : e'.schema = .node core empty (.object (some (front ++ (k, t') :: back)))) (fixed : e.schema.Fixed)
    (children : e.Children (a ++ (k, c) :: b) built) (children' : e'.Children (a' ++ (k, c') :: b') built')
    (keys : ∀ i ∈ e.site.path, i.IsKey)
    (clear : ∀ x, Within (e.site.path ++ k :: p) x → e.before.captured x = none) :
    c.Alongside c' ∧ c.schema = t ∧ c'.schema = t' ∧ c.site.path = e.site.path ++ [k] ∧
      (∀ i ∈ c.site.path, i.IsKey) ∧ ∀ x, Within (c.site.path ++ p) x → c.before.captured x = none := by
  have content : e.schema.content = .object (some (front ++ (k, t) :: back)) := by rw [schema]; rfl
  obtain ⟨beside, isT, isT', parent, site⟩ := children.alongside alongside schema schema' fixed children'
    (List.mem_append_right _ (List.mem_cons_self ..)) (List.mem_append_right _ (List.mem_cons_self ..))
  have path : c.site.path = e.site.path ++ [k] := by rw [site]; rfl
  have spares := children.spares fixed content keys p
  have started := children.starts growing fun x member => spares x (by simp [member])
  refine ⟨beside, isT, isT', path, ?_, fun x within => ?_⟩
  · rw [path]
    exact List.forall_mem_append.mpr ⟨keys, List.forall_mem_singleton.mpr (children.others fixed content).1⟩
  · have place : c.site.path ++ p = e.site.path ++ k :: p := by simp [path]
    rw [place] at within
    exact (started.kept x within).trans (clear x within)

theorem Schema.strips_eq_false {s : Schema} (unmarked : s.core.result = none) : s.strips = false := by
  unfold strips
  rw [unmarked]
  rfl

theorem Schema.strips_marked (s : Schema) : (s.marked m).strips ↔ m = .strip := by
  cases s
  simp [strips, marked, core]

theorem Run.captured_capture {p : Path} (inside : p ≠ []) (v : Value) (r : Run) (x : Path) :
    (r.onJournal (Journal.capture p v)).captured x = ((r.journal.shadow.getD {}).tree.capture v p).at? x := by
  cases p with
  | nil => contradiction
  | cons k p => rfl

/-- Where a visit stands under a key of an object. -/
theorem Visit.Stands.under {e d : Visit h} {k u : Value} {q : Path} {ks : List (Value × Schema)}
    (stands : e.Stands (k :: q) d u) (content : e.schema.content = .object (some ks)) :
    ∃ a c b built, e.Children (a ++ (k, c) :: b) built ∧
      (c.schema.strips = false ∧ c.Stands q d u ∨ c.schema.strips ∧ q = [] ∧ d = c ∧ u = .undefined) := by
  generalize shape : k :: q = path at stands
  cases stands with
  | self => cases shape
  | item isArray => simp [content] at isArray
  | @key _ _ cs built _ _ child _ _ children _ _ member kept below =>
      obtain ⟨rfl, rfl⟩ := List.cons.inj shape
      obtain ⟨a, b, rfl⟩ := List.append_of_mem member
      exact ⟨a, child.2, b, built, children, .inl ⟨kept, below⟩⟩
  | @stripped _ cs built _ child _ children _ _ member strips =>
      obtain ⟨rfl, rfl⟩ := List.cons.inj shape
      obtain ⟨a, b, rfl⟩ := List.append_of_mem member
      exact ⟨a, child.2, b, built, children, .inr ⟨strips, rfl, rfl, rfl⟩⟩

/-! ## The marked node -/

/-- What visits without and with a mark leave at the place of the marked node. -/
structure Visit.Leave (m : ResultMode) (p : Path) (c c' d : Visit h) (w u : Value) : Prop where
  value : w = d.result.value
  gives : u = m.gives d.given
  clear : ∀ x, Within (c.site.path ++ p) x → c.after.captured x = none
  captured : c'.after.captured (c.site.path ++ p) = some w
  below : ∀ j q, c'.after.captured (c.site.path ++ p ++ j :: q) = none

/-- A visit to a marked node leaves its value in the shadow, and the one without the mark leaves nothing. -/
theorem Visit.Alongside.leave (growing : ∀ K, h.Growing K) {c c' : Visit h} (alongside : c.Alongside c')
    (schema : c'.schema = c.schema.marked m) (unmarked : c.schema.all fun core _ => core.result.isNone)
    (uncached : c.schema.core.cache = none) (inside : c.site.path ≠ []) (keys : ∀ i ∈ c.site.path, i.IsKey)
    (clear : ∀ x, Within (c.site.path ++ []) x → c.before.captured x = none) :
    Visit.Leave m [] c c' c c.result.value c'.result.value := by
  obtain ⟨result, after⟩ := alongside.marked schema (Option.isNone_iff_eq_none.mp (Schema.all_here unmarked)) uncached
  have kept := c.unmarked_grows (growing (Within (c.site.path ++ []))) unmarked
  have itself : ∀ i ∈ c.site.path, sameKey i i := fun i member => (keys i member).itself
  refine ⟨rfl, by rw [result], fun x within => (kept.kept x within).trans (clear x within), ?_, fun j q => ?_⟩
  · rw [List.append_nil, after, Run.captured_capture inside]
    exact ShadowTree.at?_capture itself _ _
  · rw [List.append_nil, after, Run.captured_capture inside]
    exact ShadowTree.at?_capture_below itself _ _ j q

/-- What is left under a key is left by the object, if what comes after the key captures nothing there. -/
theorem Visit.Leave.above {c c' e e' d : Visit h} {k w u : Value} {p : Path} (left : Visit.Leave m p c c' d w u)
    (path : c.site.path = e.site.path ++ [k])
    (later : ∀ x, Within (e.site.path ++ k :: p) x → e.after.captured x = c.after.captured x)
    (later' : ∀ x, Within (e.site.path ++ k :: p) x → e'.after.captured x = c'.after.captured x) :
    Visit.Leave m (k :: p) e e' d w u := by
  have place : c.site.path ++ p = e.site.path ++ k :: p := by simp [path]
  refine ⟨left.value, left.gives, fun x within => ?_, ?_, fun j q => ?_⟩
  · rw [later x within]
    exact left.clear x (place ▸ within)
  · rw [later' _ (List.prefix_refl _), ← place]
    exact left.captured
  · rw [later' _ (List.prefix_append _ _), ← place]
    exact left.below j q

namespace Schema.Marks

variable {p : Path} {t t' : Schema}

theorem fixed (marks : Marks m p t t') (isFixed : t.Fixed) : t'.Fixed := by
  induction marks with
  | here =>
      cases isFixed with
      | leaf isLeaf => exact .leaf isLeaf
      | array item => exact .array item
      | object keys apart each => exact .object keys apart each
  | key _ _ ih => exact isFixed.replaced (ih isFixed.others.1)

theorem unmarked (marks : Marks m p t t') : t.core.result = none := by
  cases marks with
  | here unmarked _ => exact Option.isNone_iff_eq_none.mp (all_here unmarked)
  | key unmarked => exact unmarked

theorem leave_stripped (marks : Marks m p t t') (strips : t'.strips) (last : p = []) {c c' d : Visit h} {w u : Value}
    (left : Visit.Leave m p c c' d w u) : Visit.Leave m p c c' d w .undefined := by
  cases marks with
  | here =>
      rw [strips_marked] at strips
      exact { left with gives := strips ▸ rfl }
  | key => cases last

/-- Where the visits of both schemas come to an end, the marked node has left its value in the shadow, and
without a mark there is nothing. -/
theorem leave (growing : ∀ K, h.Growing K) (marks : Marks m p t t') {c c' d d' : Visit h} {w u : Value}
    (alongside : c.Alongside c') (schema : c.schema = t) (schema' : c'.schema = t') (fixed : t.Fixed)
    (inside : c.site.path ≠ []) (keys : ∀ i ∈ c.site.path, i.IsKey)
    (clear : ∀ x, Within (c.site.path ++ p) x → c.before.captured x = none) (stands : c.Stands p d w)
    (stands' : c'.Stands p d' u) : Visit.Leave m p c c' d w u := by
  induction marks generalizing c c' d d' w u with
  | here unmarked uncached =>
      cases stands
      cases stands'
      subst schema
      exact alongside.leave growing schema' unmarked uncached inside keys clear
  | @key core empty front back k t t' p unmarked below ih =>
      have content : c.schema.content = .object (some (front ++ (k, t) :: back)) := by rw [schema]; rfl
      have content' : c'.schema.content = .object (some (front ++ (k, t') :: back)) := by rw [schema']; rfl
      have fixedHere : c.schema.Fixed := schema ▸ fixed
      have fixedHere' : c'.schema.Fixed := schema' ▸ fixed.replaced (below.fixed fixed.others.1)
      obtain ⟨a, d₁, b, built, children, place⟩ := stands.under content
      obtain ⟨a', d₁', b', built', children', place'⟩ := stands'.under content'
      obtain ⟨beside, isT, isT', path, keysBelow, clearBelow⟩ :=
        children.comes growing alongside schema schema' fixedHere children' keys clear
      -- The key itself is not stripped without the mark, so the marked node is below it or is the key's own node.
      have stands : d₁.Stands p d w := by
        rcases place with ⟨-, stands⟩ | ⟨strips, -⟩
        · exact stands
        · rw [isT, strips_eq_false below.unmarked] at strips
          cases strips
      have left : Visit.Leave m p d₁ d₁' d w u := by
        have leaves {u : Value} {d' : Visit h} (stands' : d₁'.Stands p d' u) : Visit.Leave m p d₁ d₁' d w u :=
          ih beside isT isT' fixed.others.1 (by simp [path]) keysBelow clearBelow stands stands'
        rcases place' with ⟨-, stands'⟩ | ⟨strips, rfl, rfl, rfl⟩
        · exact leaves stands'
        · exact below.leave_stripped (isT' ▸ strips) rfl (leaves .self)
      -- What comes after the key captures nothing under it.
      have spares := children.spares fixedHere content keys p
      have spares' := children'.spares fixedHere' content' (alongside.site ▸ keys) p
      have ended := children.ends growing content (by rw [schema]; exact unmarked) fun x member =>
        spares x (by simp [member])
      have ended' := children'.ends growing content' (by rw [schema']; exact unmarked) fun x member =>
        spares' x (by simp [member])
      exact left.above path ended.kept (alongside.site ▸ ended'.kept)

end Schema.Marks

end Conform
