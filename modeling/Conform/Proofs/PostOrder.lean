import Conform.Proofs.Composed
import Conform.Proofs.Marked
import Conform.Proofs.Meeting
import Conform.Proofs.Validation.Approach

/-!
# The order of the queue

A node queues its hooks when it is done. So the hooks of the nodes below it stand before its own, in the order in which
the evaluation came to these nodes, and each of them with the path of its node.
-/

namespace Conform

open Datum

variable {h : Hooks}

/-! ## Schemas -/

/-- Settings of a node that caches nothing and does not say whether hooks run. -/
structure Core.Straight (core : Core) : Prop where
  uncached : core.cache = none
  unnamed : ∀ o, core.prefs = some o → hasKey (.str "externals") o = false

/-- Settings that say whether hooks run come from no builder. -/
theorem Schema.Built.unnamed {s t : Schema} (built : s.Built) (below : s.Below t) :
    ∀ o, t.core.prefs = some o → hasKey (.str "externals") o = false := by
  intro o overrides
  have leaves := (built.made t below).1.leaves_externals
  rwa [Core.overrides, overrides] at leaves

/-- Objects whose keys are told apart, arrays with at most one item schema, and leaves, where nothing counts as empty. -/
inductive Schema.Straight : Schema → Prop
  | leaf {core : Core} {content : Content} (plain : core.Straight) (isLeaf : content.isLeaf) :
      Straight (.node core none content)
  | untyped {core : Core} (plain : core.Straight) : Straight (.node core none (.array []))
  | array {core : Core} {t : Schema} (plain : core.Straight) (item : Straight t) : Straight (.node core none (.array [t]))
  | object {core : Core} {ks : List (Value × Schema)} (plain : core.Straight) (keys : ∀ e ∈ ks, e.1.IsKey)
      (apart : ks.Pairwise fun a b => Apart a.1 b.1) (each : ∀ e ∈ ks, Straight e.2) :
      Straight (.node core none (.object (some ks)))

namespace Schema.Straight

variable {s : Schema}

theorem core (straight : s.Straight) : s.core.Straight := by
  cases straight <;> assumption

theorem full (straight : s.Straight) : s.empty? = none := by
  cases straight <;> rfl

theorem shape (straight : s.Straight) : s.content.isLeaf ∨ s.content = .array [] ∨
    (∃ t, s.content = .array [t] ∧ t.Straight) ∨ ∃ ks, s.content = .object (some ks) ∧ (∀ e ∈ ks, e.1.IsKey) ∧
      (ks.Pairwise fun a b => Apart a.1 b.1) ∧ ∀ e ∈ ks, e.2.Straight := by
  cases straight with
  | leaf _ isLeaf => exact .inl isLeaf
  | untyped => exact .inr (.inl rfl)
  | array _ item => exact .inr (.inr (.inl ⟨_, rfl, item⟩))
  | object _ keys apart each => exact .inr (.inr (.inr ⟨_, rfl, keys, apart, each⟩))

theorem item (straight : s.Straight) {t : Schema} (content : s.content = .array [t]) : t.Straight := by
  rcases straight.shape with isLeaf | bare | ⟨t', isArray, below⟩ | ⟨ks, isObject, -⟩
  · simp [content, Content.isLeaf] at isLeaf
  · simp [content] at bare
  · rw [content] at isArray
    cases isArray
    exact below
  · simp [content] at isObject

theorem declared (straight : s.Straight) {ks : List (Value × Schema)} (content : s.content = .object (some ks)) :
    (∀ e ∈ ks, e.1.IsKey) ∧ (ks.Pairwise fun a b => Apart a.1 b.1) ∧ ∀ e ∈ ks, e.2.Straight := by
  rcases straight.shape with isLeaf | bare | ⟨t, isArray, -⟩ | ⟨ks', isObject, facts⟩
  · simp [content, Content.isLeaf] at isLeaf
  · simp [content] at bare
  · simp [content] at isArray
  · rw [content] at isObject
    cases isObject
    exact facts

end Schema.Straight

/-! ## Visits to straight schemas -/

/-- The hooks of the node of a visit as they were registered, each with the path of the visit. -/
def Visit.hooks (e : Visit h) : List Pending :=
  match e.schema.merged e.prefs with
  | .error _ => []
  | .ok q => e.schema.core.externals.map fun fn =>
      ⟨fn, e.site.path, nodeLabel e.schema.core.label e.site.path q.errorLabel⟩

namespace Visit

variable {e c : Visit h} {q q' : Preferences} {w w' : Value} {r₀ r₀' r₁ : Run} {o : Option Outcome}
  {cs ds : List (Value × Visit h)} {built built' : Value} {k : Value}

theorem merged_asked (straight : e.schema.Straight) (merged : e.schema.merged e.prefs = .ok q) :
    q.externals = e.prefs.externals := by
  unfold Schema.merged at merged
  split at merged
  · rename_i o overrides
    exact Preferences.merge_externals merged (straight.core.unnamed o overrides)
  · cases merged
    rfl

theorem own_hooks (straight : e.schema.Straight) (asked : e.prefs.externals) (merged : e.schema.merged e.prefs = .ok q) :
    (e.schema.toNode h).own (e.frame q) = e.hooks := by
  have asks : (e.frame q).prefs.externals := by
    show q.externals
    rw [merged_asked straight merged, asked]
  unfold hooks Node.own
  rw [merged, if_pos asks]
  rfl

theorem settles (straight : e.schema.Straight) : ∃ q, e.schema.merged e.prefs = .ok q ∧
    (Node.settled h (e.schema.toNode h) (e.frame q)).exec e.before = (.ok e.result, e.after) := by
  have ran := e.ran
  cases merged : e.schema.merged e.prefs with
  | error fault =>
      have none : (e.schema.toNode h).merged e.prefs = .error fault := merged
      rw [Schema.eval_eq, Node.evaluate_eq, none] at ran
      cases congrArg Prod.fst ran
  | ok q =>
      rw [Schema.eval_bare straight.core.uncached merged] at ran
      exact ⟨q, rfl, ran⟩

theorem consults (straight : e.schema.Straight) (f : Frame) (r : Run) :
    ((e.schema.toNode h).consult f).exec r = (.ok none, r) := by
  have uncached : (e.schema.toNode h).core.cache = none := straight.core.uncached
  unfold Node.consult
  rw [uncached]
  rfl

theorem Base.unique (one : e.Base q w r₀) (other : e.Base q' w' r₀') : q = q' ∧ w = w' ∧ r₀ = r₀' := by
  obtain ⟨merged, r, es, consulted, approached⟩ := one
  obtain ⟨merged', r', es', consulted', approached'⟩ := other
  obtain rfl := Except.ok.inj (merged.symm.trans merged')
  obtain ⟨-, rfl⟩ := Prod.mk.inj (consulted.symm.trans consulted')
  obtain ⟨same, rfl⟩ := Prod.mk.inj (approached.symm.trans approached')
  obtain ⟨rfl, -⟩ := Node.Verdict.goOn.inj (Except.ok.inj same)
  exact ⟨rfl, rfl, rfl⟩

/-- A container comes to its base check as it was given, or empty in place of an absent value. -/
theorem Base.given (straight : e.schema.Straight) (base : e.Base q w r₀)
    (container : (∃ ts, e.schema.content = .array ts) ∨ ∃ ks, e.schema.content = .object ks) :
    w = e.given ∨ e.given = .undefined ∧ w = .dict [] := by
  have whole : (e.schema.toNode h).convert (e.frame q) e.given = .goOn e.given [] := by
    apply Node.convert_idle
    · show prepare e.schema.content.kind (e.frame q) e.given = none
      rcases container with ⟨ts, content⟩ | ⟨ks, content⟩ <;> rw [content] <;> rfl
    · show coerce e.schema.core e.schema.content (e.frame q) e.given = none
      rcases container with ⟨ts, content⟩ | ⟨ks, content⟩ <;> rw [content] <;> rfl
  obtain ⟨-, r, es, -, approached⟩ := base
  obtain ⟨v, is, u, s, converted, emptied, came⟩ := Node.approach_goOn approached
  obtain ⟨rfl, -⟩ := Node.Verdict.goOn.inj (whole.symm.trans converted)
  have filled : (e.schema.toNode h).empty = none := by
    show Schema.evalOption h e.schema.empty? = none
    rw [straight.full]
    rfl
  unfold Node.emptied at emptied
  rw [filled] at emptied
  cases emptied
  rcases came with rfl | ⟨-, absent, rfl⟩
  · exact .inl rfl
  · exact .inr ⟨absent, rfl⟩

theorem Base.list {xs : List Value} (straight : e.schema.Straight) (base : e.Base q (.list xs) r₀) {ts : List Schema}
    (content : e.schema.content = .array ts) : e.given = .list xs := by
  rcases base.given straight (.inl ⟨ts, content⟩) with same | ⟨-, other⟩
  · exact same.symm
  · cases other

end Visit

theorem ItemsRan.unique {t : Schema} {f : Frame} {before xs : List Value} {r r' r'' : Run} {cs ds : List (Value × Visit h)}
    (one : ItemsRan t f before xs r cs r') (other : ItemsRan t f before xs r ds r'') : cs = ds ∧ r' = r'' := by
  induction one generalizing ds with
  | done =>
      cases other
      exact ⟨rfl, rfl⟩
  | item visit accepts _ ih =>
      cases other with
      | item visit' _ later =>
          obtain rfl := visit.unique visit'
          obtain ⟨rfl, rfl⟩ := ih later
          exact ⟨rfl, rfl⟩
      | stop visit' fails =>
          obtain rfl := visit.unique visit'
          simp [accepts] at fails
      | skip visit' fails =>
          obtain rfl := visit.unique visit'
          simp [accepts] at fails
  | stop visit fails aborts =>
      cases other with
      | item visit' accepts =>
          obtain rfl := visit.unique visit'
          simp [accepts] at fails
      | stop visit' =>
          obtain rfl := visit.unique visit'
          exact ⟨rfl, rfl⟩
      | skip visit' _ goesOn => simp [aborts] at goesOn
  | skip visit fails goesOn _ ih =>
      cases other with
      | item visit' accepts =>
          obtain rfl := visit.unique visit'
          simp [accepts] at fails
      | stop visit' _ aborts => simp [goesOn] at aborts
      | skip visit' _ _ later =>
          obtain rfl := visit.unique visit'
          obtain ⟨rfl, rfl⟩ := ih later
          exact ⟨rfl, rfl⟩

theorem ItemsRan.given {t : Schema} {f : Frame} {before xs : List Value} {r r' : Run} {cs : List (Value × Visit h)}
    (ran : ItemsRan t f before xs r cs r') : cs.map (fun c => c.2.given) <+: xs := by
  induction ran with
  | done => exact List.nil_prefix
  | item visit _ _ ih =>
      rw [List.map_cons, visit.given]
      exact (List.prefix_cons_inj _).mpr ih
  | stop visit _ _ =>
      rw [List.map_cons, visit.given]
      exact (List.prefix_cons_inj _).mpr List.nil_prefix
  | skip visit _ _ _ ih =>
      rw [List.map_cons, visit.given]
      exact (List.prefix_cons_inj _).mpr ih

theorem ItemsRan.all {t : Schema} {f : Frame} {before xs : List Value} {r r' : Run} {cs : List (Value × Visit h)}
    (ran : ItemsRan t f before xs r cs r') (accepted : ∀ c ∈ cs, c.2.accepts) : cs.map (fun c => c.2.given) = xs := by
  induction ran with
  | done => rfl
  | item visit _ _ ih =>
      rw [List.map_cons, visit.given, ih fun c member => accepted c (List.mem_cons_of_mem _ member)]
  | stop _ fails =>
      have accepts := accepted _ (List.mem_cons_self ..)
      simp [fails] at accepts
  | skip _ fails =>
      have accepts := accepted _ (List.mem_cons_self ..)
      simp [fails] at accepts

theorem KeysRan.all {f : Frame} {ks : List (Value × Schema)} {es : Dict} {r r' : Run} {cs : List (Value × Visit h)}
    (ran : KeysRan f ks es r cs r') (accepted : ∀ c ∈ cs, c.2.accepts) : cs.map (fun c => (c.1, c.2.schema)) = ks := by
  induction ran with
  | done => rfl
  | key visit _ _ ih =>
      rw [List.map_cons, visit.schema, ih fun c member => accepted c (List.mem_cons_of_mem _ member)]
  | stop _ fails =>
      have accepts := accepted _ (List.mem_cons_self ..)
      simp [fails] at accepts
  | skip _ fails =>
      have accepts := accepted _ (List.mem_cons_self ..)
      simp [fails] at accepts

/-- The visit of a key is given the entry that the object came with, whatever the keys before it have changed. -/
theorem KeysRan.given {f : Frame} {ks : List (Value × Schema)} {es : Dict} {r r' : Run} {cs : List (Value × Visit h)}
    (ran : KeysRan f ks es r cs r') (keys : ∀ e ∈ ks, e.1.IsKey) (apart : ks.Pairwise fun a b => Apart a.1 b.1) :
    ∀ c ∈ cs, c.2.given = (find? c.1 es).getD .undefined := by
  induction ran with
  | done => exact List.forall_mem_nil _
  | @key k s ks es r r' c cs visit _ later ih =>
      obtain ⟨apartHere, apartRest⟩ := List.pairwise_cons.mp apart
      have rest := ih (fun e member => keys e (List.mem_cons_of_mem _ member)) apartRest
      refine List.forall_mem_cons.mpr ⟨visit.given, fun d member => ?_⟩
      rw [rest d member, find?_settle_apart (keys (k, s) (List.mem_cons_self ..)) (apartHere _ (later.declared d member))]
  | stop visit => exact List.forall_mem_cons.mpr ⟨visit.given, List.forall_mem_nil _⟩
  | @skip k s ks es r r' c cs visit _ _ _ ih =>
      have rest := ih (fun e member => keys e (List.mem_cons_of_mem _ member)) (List.pairwise_cons.mp apart).2
      exact List.forall_mem_cons.mpr ⟨visit.given, rest⟩

/-! ## Children -/

namespace Visit

variable {e c : Visit h} {cs ds : List (Value × Visit h)} {built built' k : Value}

/-- The children are visited in the order in which the keys are declared or in that of the items, and all of them if
none is rejected. -/
def InOrder (e : Visit h) (cs : List (Value × Visit h)) : Prop :=
  (∃ ks, e.schema.content = .object (some ks) ∧ cs.map (fun c => (c.1, c.2.schema)) <+: ks ∧
    ((∀ c ∈ cs, c.2.accepts) → cs.map (fun c => (c.1, c.2.schema)) = ks)) ∨
  ∃ t xs, e.schema.content = .array [t] ∧ e.given = .list xs ∧
    cs.map Prod.fst = ((List.range cs.length).map fun i : Nat => .int i) ∧
    cs.map (fun c => c.2.given) <+: xs ∧ ((∀ c ∈ cs, c.2.accepts) → cs.map (fun c => c.2.given) = xs)

/-- How a visit stands to the visit above it. -/
structure Under (e : Visit h) (k : Value) (c : Visit h) : Prop where
  straight : c.schema.Straight
  part : ∃ role, e.schema.Part role c.schema
  asked : c.prefs.externals = e.prefs.externals
  path : c.site.path = e.site.path ++ [k]
  given : step e.given k = .ok c.given

namespace Children

theorem unique (one : e.Children cs built) (other : e.Children ds built') : cs = ds := by
  cases one with
  | items content base ran =>
      cases other with
      | items content' base' ran' =>
          rw [content] at content'
          cases content'
          obtain ⟨rfl, same, rfl⟩ := base.unique base'
          cases same
          exact (ran.unique ran').1
      | keys content' => simp [content] at content'
  | keys content base ran =>
      cases other with
      | items content' => simp [content] at content'
      | keys content' base' ran' =>
          rw [content] at content'
          cases content'
          obtain ⟨rfl, same, rfl⟩ := base.unique base'
          cases same
          exact (ran.unique ran').1

theorem inOrder (straight : e.schema.Straight) (children : e.Children cs built) : e.InOrder cs := by
  cases children with
  | @items t xs q r₀ r₁ cs content base ran =>
      refine .inr ⟨t, xs, content, base.list straight content, ?_, ran.given, ran.all⟩
      rw [ran.segments, List.length_nil, ← List.range_eq_range']
  | keys content base ran => exact .inl ⟨_, content, ran.segments, ran.all⟩

theorem distinct (straight : e.schema.Straight) (children : e.Children cs built) : (cs.map Prod.fst).Nodup := by
  cases children with
  | items content base ran =>
      rw [ran.segments]
      apply List.Nodup.map fun i j same => ?_
      · exact List.nodup_range'
      · exact Int.ofNat.inj (Datum.int.inj same)
  | keys content base ran =>
      obtain ⟨keys, apart, -⟩ := straight.declared content
      have declared := ran.apart apart
      apply List.pairwise_map.mpr
      exact declared.imp_of_mem fun {a b} _ member apart => Apart.ne apart (keys _ (ran.declared b member))

theorem under (straight : e.schema.Straight) (children : e.Children cs built) : ∀ c ∈ cs, e.Under c.1 c.2 := by
  intro c member
  cases children with
  | @items t xs q r₀ r₁ _ content base ran =>
      obtain ⟨v, parent, s, visit⟩ := ran.visit c member
      refine ⟨visit.schema ▸ straight.item content, ⟨.item 0, ?_⟩, ?_, ?_, ?_⟩
      · rw [visit.schema]
        exact e.schema.part_of_item content 0 (List.mem_singleton.mpr rfl)
      · rw [visit.prefs]
        exact merged_asked straight base.merged
      · rw [visit.site]
        rfl
      · obtain ⟨i, at_⟩ := List.mem_iff_getElem?.mp member
        have segment : c.1 = .int i := by
          have listed : (cs.map Prod.fst)[i]? = some c.1 := by rw [List.getElem?_map, at_]; rfl
          rw [ran.segments] at listed
          simpa [List.getElem?_range', (List.getElem?_eq_some_iff.mp at_).1] using listed.symm
        have found : xs[i]? = some c.2.given := by
          obtain ⟨rest, rfl⟩ := ran.given
          rw [List.getElem?_append_left (by simpa using (List.getElem?_eq_some_iff.mp at_).1), List.getElem?_map, at_]
          rfl
        rw [base.list straight content, segment, step_list, found]
        rfl
  | @keys ks es q r₀ r₁ _ content base ran =>
      obtain ⟨keys, apart, each⟩ := straight.declared content
      obtain ⟨t, v, parent, s, visit⟩ := ran.visit c member
      have declared := ran.declared c member
      refine ⟨each _ declared, ⟨.key c.1, e.schema.part_of_key content declared⟩, ?_, ?_, ?_⟩
      · rw [visit.prefs]
        exact merged_asked straight base.merged
      · rw [visit.site]
        rfl
      · rw [ran.given keys apart c member]
        rcases base.given straight (.inr ⟨_, content⟩) with same | ⟨absent, none⟩
        · rw [← same, step_dict (keys _ declared)]
        · cases none
          rw [absent]
          rfl

theorem came {q : Preferences} {w : Value} {r₀ : Run} (children : e.Children cs built) (base : e.Base q w r₀) :
    (∃ t xs, e.schema.content = .array [t] ∧ w = .list xs) ∨ ∃ ks es, e.schema.content = .object (some ks) ∧ w = .dict es := by
  cases children with
  | items content base' ran => exact .inl ⟨_, _, content, (base.unique base').2.1⟩
  | keys content base' ran => exact .inr ⟨_, _, content, (base.unique base').2.1⟩

end Children

/-- A base check makes the visits of the children one after the other, or none if there are no children. -/
theorem Base.visits {q : Preferences} {w : Value} {r₀ r₁ : Run} {o : Option Outcome} (straight : e.schema.Straight)
    (base : e.Base q w r₀) (ran : ((e.schema.toNode h).base { e.frame q with current := w } w).exec r₀ = (.ok o, r₁)) :
    ((∀ cs built, ¬ e.Children cs built) ∧ r₁ = r₀) ∨ ∃ cs built, e.Children cs built ∧ Sequence e.site.path r₀ cs r₁ := by
  rcases straight.shape with isLeaf | untyped | ⟨t, content, -⟩ | ⟨ks, content, -⟩
  · refine .inl ⟨fun cs built children => ?_, base_leaf isLeaf ran⟩
    rcases children.came base with ⟨t, xs, content, -⟩ | ⟨ks, es, content, -⟩ <;> simp [content, Content.isLeaf] at isLeaf
  · refine .inl ⟨fun cs built children => ?_, ?_⟩
    · rcases children.came base with ⟨t, xs, content, -⟩ | ⟨ks, es, content, -⟩ <;> simp [content] at untyped
    · change (Schema.evalContent h e.schema.core e.schema.content _ _).exec r₀ = _ at ran
      rw [untyped] at ran
      cases w <;> exact (congrArg Prod.snd ran).symm
  · rcases base_items content ran with ⟨other, same⟩ | ⟨xs, cs, rfl, visits⟩
    · refine .inl ⟨fun cs built children => ?_, same⟩
      rcases children.came base with ⟨t, xs, -, list⟩ | ⟨ks, es, isObject, -⟩
      · exact other xs list
      · simp [content] at isObject
    · exact .inr ⟨cs, _, .items content base visits, visits.sequence⟩
  · rcases base_keys content ran with ⟨other, same⟩ | ⟨es, cs, rfl, visits⟩
    · refine .inl ⟨fun cs built children => ?_, same⟩
      rcases children.came base with ⟨t, xs, isArray, -⟩ | ⟨ks, es, -, dict⟩
      · simp [content] at isArray
      · exact other es dict
    · exact .inr ⟨cs, _, .keys content base visits, visits.sequence⟩

/-- A visit queues the hooks of its node after all that its children have queued. -/
theorem queues_last (calm : h.Calm) (straight : e.schema.Straight) (asked : e.prefs.externals) :
    ((∀ cs built, ¬ e.Children cs built) ∧ e.after.journal.externals = e.before.journal.externals ++ e.hooks) ∨
    ∃ cs built r₀ r₁, e.Children cs built ∧ Sequence e.site.path r₀ cs r₁ ∧
      r₀.journal.externals = e.before.journal.externals ∧ e.after.journal.externals = r₁.journal.externals ++ e.hooks := by
  obtain ⟨q, merged, settled⟩ := e.settles straight
  obtain ⟨state, r₂, bodyRan, queued⟩ := Node.settled_ran calm settled
  rw [own_hooks straight asked merged] at queued
  rcases Node.body_ran calm rfl bodyRan with ⟨⟨v, es, finished⟩, early⟩ | ⟨w, es, r₀, o, r₁, approached, based, quiet, rest⟩
  · -- A visit that is settled before its base check has no children, for a child says that there was one.
    refine .inl ⟨fun cs built children => ?_, by rw [queued, early]⟩
    obtain ⟨q', w, r₀, r₁, base, -, -⟩ := children.runs
    obtain ⟨merged', r, es', consulted, approached⟩ := base
    obtain rfl := Except.ok.inj (merged.symm.trans merged')
    obtain ⟨-, rfl⟩ := Prod.mk.inj ((consults straight _ _).symm.trans consulted)
    simp [finished] at approached
  · have base : e.Base q w r₀ := ⟨merged, e.before, es, consults straight _ _, approached⟩
    rcases base.visits straight based with ⟨childless, rfl⟩ | ⟨cs, built, children, sequence⟩
    · exact .inl ⟨childless, by rw [queued, rest, quiet]⟩
    · exact .inr ⟨cs, built, r₀, r₁, children, sequence, quiet, by rw [queued, rest]⟩

/-! ## Post-order -/

/-- The visits at and below a visit, each with its path from there: those of one child after the other, and the visit
itself at last. -/
inductive PostOrder : Visit h → List (Path × Visit h) → Prop
  | alone {e : Visit h} (childless : ∀ cs built, ¬ e.Children cs built) : PostOrder e [([], e)]
  | above {e : Visit h} {parts : List ((Value × Visit h) × List (Path × Visit h))} {built : Value}
      (children : e.Children (parts.map Prod.fst) built) (each : ∀ part ∈ parts, PostOrder part.1.2 part.2) :
      PostOrder e (parts.flatMap (fun part => part.2.map fun n => (part.1.1 :: n.1, n.2)) ++ [([], e)])

namespace PostOrder

variable {nodes : List (Path × Visit h)}

theorem mem_iff (order : e.PostOrder nodes) (q : Path) (d : Visit h) : (q, d) ∈ nodes ↔ e.Visits q d := by
  induction order generalizing q with
  | @alone e childless =>
      constructor
      · intro member
        obtain ⟨rfl, rfl⟩ := Prod.mk.inj (List.mem_singleton.mp member)
        exact .self
      · intro visits
        cases visits with
        | self => exact List.mem_singleton.mpr rfl
        | child children => exact absurd children (childless _ _)
  | @above e parts built children each ih =>
      constructor
      · intro member
        rcases List.mem_append.mp member with below | own
        · obtain ⟨part, isPart, inside⟩ := List.mem_flatMap.mp below
          obtain ⟨⟨p, b⟩, isNode, same⟩ := List.mem_map.mp inside
          obtain ⟨rfl, rfl⟩ := Prod.mk.inj same
          exact .child children (List.mem_map_of_mem isPart) ((ih part isPart p).mp isNode)
        · obtain ⟨rfl, rfl⟩ := Prod.mk.inj (List.mem_singleton.mp own)
          exact .self
      · intro visits
        cases visits with
        | self => exact List.mem_append_right _ (List.mem_singleton.mpr rfl)
        | child children' isChild below =>
            rw [← children.unique children'] at isChild
            obtain ⟨⟨⟨k, c⟩, ns⟩, isPart, same⟩ := List.mem_map.mp isChild
            obtain ⟨rfl, rfl⟩ := Prod.mk.inj same
            apply List.mem_append_left
            exact List.mem_flatMap.mpr ⟨_, isPart, List.mem_map.mpr ⟨_, (ih _ isPart _).mpr below, rfl⟩⟩

theorem nodup (order : e.PostOrder nodes) (straight : e.schema.Straight) : (nodes.map Prod.fst).Nodup := by
  -- Paths of one child differ by what is below it, those of two children by their first segment.
  induction order with
  | alone => exact List.nodup_singleton _
  | @above e parts built children each ih =>
      have paths (part : (Value × Visit h) × List (Path × Visit h)) :
          (part.2.map fun n => (part.1.1 :: n.1, n.2)).map Prod.fst = (part.2.map Prod.fst).map (part.1.1 :: ·) := by
        rw [List.map_map, List.map_map]
        rfl
      rw [List.map_append, List.map_flatMap]
      simp only [paths]
      apply List.nodup_append.mpr
      refine ⟨List.nodup_flatMap.mpr ⟨fun part member => ?_, ?_⟩, List.nodup_singleton _, ?_⟩
      · have below := children.under straight part.1 (List.mem_map_of_mem member)
        exact (ih part member below.straight).map (List.cons_injective)
      · have distinct := children.distinct straight
        rw [List.map_map] at distinct
        refine (List.pairwise_map.mp distinct).imp fun {a b} different => ?_
        intro p left right
        obtain ⟨_, -, rfl⟩ := List.mem_map.mp left
        obtain ⟨_, -, same⟩ := List.mem_map.mp right
        exact different (List.cons.inj same).1.symm
      · intro p below q own same
        obtain ⟨part, -, inside⟩ := List.mem_flatMap.mp below
        obtain ⟨_, -, rfl⟩ := List.mem_map.mp inside
        cases same.trans (List.mem_singleton.mp own)

end PostOrder

/-- Visits in post-order whose hooks are what the visit above them puts into the queue. -/
def Ordered (e : Visit h) (nodes : List (Path × Visit h)) : Prop :=
  e.PostOrder nodes ∧ e.after.journal.externals = e.before.journal.externals ++ nodes.flatMap fun n => n.2.hooks

end Visit

theorem Sequence.ordered {p : Path} {r r' : Run} {cs : List (Value × Visit h)} (sequence : Sequence p r cs r')
    (each : ∀ c ∈ cs, ∃ nodes, c.2.Ordered nodes) : ∃ parts : List ((Value × Visit h) × List (Path × Visit h)),
      parts.map Prod.fst = cs ∧ (∀ part ∈ parts, part.1.2.PostOrder part.2) ∧
        r'.journal.externals = r.journal.externals ++ parts.flatMap fun part => part.2.flatMap fun n => n.2.hooks := by
  induction sequence with
  | nil => exact ⟨[], rfl, List.forall_mem_nil _, (List.append_nil _).symm⟩
  | @cons k c cs r' path later ih =>
      obtain ⟨here, rest⟩ := List.forall_mem_cons.mp each
      obtain ⟨nodes, order, queued⟩ := here
      obtain ⟨parts, rfl, orders, queuedRest⟩ := ih rest
      refine ⟨((k, c), nodes) :: parts, rfl, List.forall_mem_cons.mpr ⟨order, orders⟩, ?_⟩
      rw [queuedRest, queued, List.flatMap_cons, List.append_assoc]

namespace Visit

theorem ordered (calm : h.Calm) (e : Visit h) (straight : e.schema.Straight) (asked : e.prefs.externals) :
    ∃ nodes, e.Ordered nodes := by
  -- The children of a visit are visits to parts of its schema, whatever the values are.
  obtain ⟨s, shape⟩ : ∃ s, e.schema = s := ⟨_, rfl⟩
  induction s using Schema.parts_induction generalizing e with
  | step s ih =>
  rcases queues_last calm straight asked with ⟨childless, queued⟩ | ⟨cs, built, r₀, r₁, children, sequence, quiet, queued⟩
  · refine ⟨[([], e)], .alone childless, ?_⟩
    rw [queued]
    simp
  have each : ∀ c ∈ cs, ∃ nodes, c.2.Ordered nodes := by
    intro c member
    have below := children.under straight c member
    obtain ⟨role, part⟩ := below.part
    exact ih role c.2.schema (shape ▸ part) c.2 below.straight (below.asked.trans asked) rfl
  obtain ⟨parts, rfl, orders, queuedBelow⟩ := sequence.ordered each
  refine ⟨_, .above children orders, ?_⟩
  rw [queued, queuedBelow, quiet]
  simp [List.flatMap_append, List.flatMap_assoc, List.flatMap_map]

theorem Visits.placed {e d : Visit h} {q : Path} (visits : e.Visits q d) (straight : e.schema.Straight) :
    d.schema.Straight ∧ d.site.path = e.site.path ++ q ∧ reach e.given q = .ok d.given := by
  induction visits with
  | self => exact ⟨straight, (List.append_nil _).symm, rfl⟩
  | @child e c d cs built k q children member below ih =>
      have under := children.under straight (k, c) member
      obtain ⟨straightBelow, path, reached⟩ := ih under.straight
      refine ⟨straightBelow, ?_, ?_⟩
      · rw [path, under.path, List.append_assoc]
        rfl
      · rw [reach_cons, under.given]
        exact reached

end Visit

/-- Hooks are queued in post-order. A visit leaves the queue that it found, and after it come, for each node that it
evaluates and once, the hooks of the node with its path in the input: those below the node before its own, children in
the order of the keys or items. -/
theorem hooks_in_post_order (calm : h.Calm) (e : Visit h) (straight : e.schema.Straight) (asked : e.prefs.externals) :
    ∃ nodes, e.PostOrder nodes ∧
      e.after.journal.externals = e.before.journal.externals ++ nodes.flatMap (fun n => n.2.hooks) ∧
      (nodes.map Prod.fst).Nodup ∧ (∀ q d, (q, d) ∈ nodes ↔ e.Visits q d) ∧
      ∀ q d, e.Visits q d → d.site.path = e.site.path ++ q ∧ reach e.given q = .ok d.given ∧
        ∀ cs built, d.Children cs built → d.InOrder cs := by
  obtain ⟨nodes, order, queued⟩ := e.ordered calm straight asked
  refine ⟨nodes, order, queued, order.nodup straight, order.mem_iff, fun q d visits => ?_⟩
  obtain ⟨straightBelow, path, reached⟩ := visits.placed straight
  exact ⟨path, reached, fun cs built children => children.inOrder straightBelow⟩

/-! ## Hooks on several levels -/

/-- Settings with one hook. -/
def hooked (n : Nat) : Core := { externals := [⟨n, "f", [], none⟩] }

def hookedTree : Schema :=
  .node (hooked 0) none (.object (some [
    (.str "xs", .node (hooked 1) none (.array [.node (hooked 2) none .any])), (.str "y", .node (hooked 3) none .any)]))

def hookedTreePass : Except Fault Result × Run :=
  (hookedTree.eval wrapping (.dict [(.str "y", .null), (.str "xs", .list [.int 4])]) {} {}).exec {}

/-- The visit to an object with a list of one item. -/
def treeVisit : Visit wrapping :=
  ⟨hookedTree, .dict [(.str "y", .null), (.str "xs", .list [.int 4])], {}, {}, {},
    ⟨.dict [(.str "y", .null), (.str "xs", .list [.int 4])], []⟩, hookedTreePass.2, rfl⟩

theorem hooked_straight (n : Nat) : (hooked n).Straight := ⟨rfl, nofun⟩

theorem hookedTree_straight : hookedTree.Straight := by
  have keys : ∀ k : String, (Datum.str k : Value).IsKey := isKey_str
  refine .object (hooked_straight 0) ?_ ?_ ?_
  · simp [keys]
  · simp [apart_str]
  · simp only [List.forall_mem_cons]
    exact ⟨.array (hooked_straight 1) (.leaf (hooked_straight 2) rfl), .leaf (hooked_straight 3) rfl, nofun⟩

/-- The hook of the item comes first, then those of its list, of the other key and of the object. -/
theorem treeVisit_queue : ∃ nodes, treeVisit.PostOrder nodes ∧
    treeVisit.after.journal.externals = nodes.flatMap (fun n => n.2.hooks) ∧
    treeVisit.after.journal.externals.map (fun g => (g.fn.serial, g.path)) =
      [(2, [.str "xs", .int 0]), (1, [.str "xs"]), (3, [.str "y"]), (0, [])] := by
  obtain ⟨nodes, order, queued, -⟩ := hooks_in_post_order wrapping_calm treeVisit hookedTree_straight rfl
  exact ⟨nodes, order, queued, rfl⟩

end Conform
