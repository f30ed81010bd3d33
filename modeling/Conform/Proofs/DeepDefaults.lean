import Conform.Proofs.Absent
import Conform.Proofs.Answers
import Conform.Proofs.Composed
import Conform.Proofs.Validation.Accepted

/-!
# Deep defaults

An object with a deep default starts from an empty dictionary where it is absent. Each of its keys is then absent in turn
and fills in its own default, so the whole tree of defaults is built.
-/

namespace Conform

open Datum

variable {h : Hooks}

/-! ## Trees of defaults -/

/-- An optional node that leaves absence to its static default, if it has one. -/
structure Schema.Leaf (h : Hooks) (s : Schema) : Prop where
  single : s.kind ≠ .alternatives
  optional : s.core.presence = none ∨ s.core.presence = some .optional
  default : s.core.default = none ∨ ∃ v, s.core.default = some (.static v) ∧ (v.isMutableContainer → v.isCopyable)
  uncast : s.core.cast = none
  unmarked : s.core.result = none
  unset : s.core.prefs = none
  uncached : s.core.cache = none
  hookless : s.core.externals = []
  answers : ∀ e, s.empty? = some e → (e.all fun core _ => core.isPlain) ∧
    ∀ site r, ∃ b, ((Node.accepts (e.eval h) .undefined site {}).exec r).1 = .ok b

/-- The settings of a node whose default is left to its keys. -/
def Core.deep : Core := { default := some .deep }

/-- Objects that hold a deep default and their keys alone, down to the leaves. -/
inductive Schema.DefaultTree (h : Hooks) : Schema → Prop
  | leaf {s : Schema} (leaf : s.Leaf h) : DefaultTree h s
  | keyless : DefaultTree h (.node .deep none (.object none))
  | keys {ks : List (Value × Schema)} (itself : ∀ e ∈ ks, sameKey e.1 e.1)
      (distinct : ks.Pairwise fun a b => sameKey a.1 b.1 = false) (each : ∀ e ∈ ks, DefaultTree h e.2) :
      DefaultTree h (.node .deep none (.object (some ks)))

mutual

/-- What stands in place of an absent value: nothing, the static default or a copy of it, or the dictionary of a tree. -/
inductive Schema.Fills : Schema → Value → Prop
  | nothing {s : Schema} (without : s.core.default = none) : Fills s .undefined
  | static {s : Schema} {v : Value} (static : s.core.default = some (.static v)) (fixed : v.isMutableContainer = false) :
      Fills s v
  | copied {s : Schema} {v w : Value} {n : Nat} (static : s.core.default = some (.static v))
      (grows : v.isMutableContainer) (copy : v.copy n = .ok w) : Fills s w
  | keyless : Fills (.node .deep none (.object none)) (.dict [])
  | keys {ks : List (Value × Schema)} {es : Dict} (each : KeysFill ks es) :
      Fills (.node .deep none (.object (some ks))) (.dict es)

/-- Entries for the keys that something stands for, in their order. -/
inductive Schema.KeysFill : List (Value × Schema) → Dict → Prop
  | nil : KeysFill [] []
  | without {k : Value} {s : Schema} {ks : List (Value × Schema)} {es : Dict} (fills : Fills s .undefined)
      (later : KeysFill ks es) : KeysFill ((k, s) :: ks) es
  | entry {k v : Value} {s : Schema} {ks : List (Value × Schema)} {es : Dict} (fills : Fills s v)
      (present : v.isUndefined = false) (later : KeysFill ks es) : KeysFill ((k, s) :: ks) ((k, v) :: es)

end

namespace Schema

/-- In every run a schema fills in absence, and the journal stays as it was. -/
def FillsIn (h : Hooks) (s : Schema) : Prop :=
  ∀ (site : Site) (r : Run), ∃ w r', (s.eval h .undefined site {}).exec r = (.ok ⟨w, []⟩, r') ∧
    r'.journal = r.journal ∧ s.Fills w

theorem KeysFill.declared {ks : List (Value × Schema)} {es : Dict} (fill : KeysFill ks es) :
    ∀ e ∈ es, ∃ d ∈ ks, d.1 = e.1 := by
  induction ks generalizing es with
  | nil =>
      cases fill
      exact List.forall_mem_nil _
  | cons d ks ih =>
      have below {es : Dict} (later : KeysFill ks es) : ∀ e ∈ es, ∃ d' ∈ d :: ks, d'.1 = e.1 := by
        intro e member
        obtain ⟨d', declared, same⟩ := ih later e member
        exact ⟨d', List.mem_cons_of_mem _ declared, same⟩
      cases fill with
      | without _ later => exact below later
      | entry _ _ later => exact List.forall_mem_cons.mpr ⟨⟨_, List.mem_cons_self .., rfl⟩, below later⟩

/-! ## Leaves -/

namespace Leaf

variable {s : Schema}

theorem emptied (leaf : s.Leaf h) (site : Site) (r : Run) : ∃ r',
    ((s.toNode h).emptied ((s.toNode h).frame .undefined site {}) .undefined).exec r = (.ok .undefined, r') ∧
      r'.journal = r.journal := by
  cases isEmpty : s.empty? with
  | none =>
      refine ⟨r, ?_, rfl⟩
      rw [Node.emptied, toNode, isEmpty, evalOption]
      rfl
  | some e =>
      obtain ⟨plain, answers⟩ := leaf.answers e isEmpty
      obtain ⟨b, answered⟩ := answers site r
      have traceless := Node.accepts_traceless (plain_grows (h := h) plain) .undefined site {} r
      have asked : (Node.accepts (e.eval h) (trimmed s.core .undefined) site {}).exec r =
          (.ok b, ((Node.accepts (e.eval h) .undefined site {}).exec r).2) := Prod.ext answered rfl
      have emptied := exec_emptied isEmpty ((s.toNode h).frame .undefined site {}) asked
      rw [ite_self] at emptied
      exact ⟨_, emptied, traceless⟩

theorem filled (leaf : s.Leaf h) (f : Frame) (standard : f.prefs = {}) (r : Run) : ∃ w r',
    (Node.fill h s.core f .undefined []).exec r = (.ok (w, []), r') ∧ r'.journal = r.journal ∧ s.Fills w := by
  have filling {w : Value} {r' : Run} (given : (Node.fallback h f "any.default" s.core.default).exec r = (.ok (w, []), r')) :
      (Node.fill h s.core f .undefined []).exec r = (.ok (w, []), r') := by
    show Eval.exec (Node.fallback h f "any.default" s.core.default >>= fun d => pure (d.1, [] ++ d.2)) r = _
    rw [Eval.exec_bind, given]
    rfl
  have asks : f.prefs.noDefaults = false := by rw [standard]
  rcases leaf.default with without | ⟨v, static, copyable⟩
  · refine ⟨.undefined, r, filling ?_, rfl, .nothing without⟩
    rw [without, Node.fallback, asks]
    rfl
  · cases grows : v.isMutableContainer with
    | false =>
        refine ⟨v, r, filling ?_, rfl, .static static grows⟩
        rw [static, Node.fallback, asks, grows]
        rfl
    | true =>
        have copies : v.copy r.copies = .ok (v.map (Entity.copied r.copies)).relisted := by
          rw [Datum.copy, if_pos (copyable grows)]
        refine ⟨_, { r with copies := r.copies + 1 }, filling ?_, rfl, .copied static grows copies⟩
        have copied : (Eval.copy v).exec r =
            (.ok (v.map (Entity.copied r.copies)).relisted, { r with copies := r.copies + 1 }) := by
          show (v.copy r.copies, _) = _
          rw [copies]
        simp only [static, Node.fallback, asks, grows, Bool.false_eq_true, if_false, if_true, Eval.exec_bind, copied]
        rfl

theorem undeep (leaf : s.Leaf h) : Node.isDeep s.core.default = false := by
  rcases leaf.default with without | ⟨v, static, -⟩
  · rw [without]
    rfl
  · rw [static]
    rfl

theorem presence (leaf : s.Leaf h) (f : Frame) (standard : f.prefs = {}) : (s.toNode h).presence f = some .optional := by
  have single := leaf.single
  have optional := leaf.optional
  obtain ⟨core, empty, content⟩ := s
  unfold Node.presence
  change core.presence = none ∨ core.presence = some .optional at optional
  simp only [toNode, Schema.core, Schema.content]
  rcases optional with without | stated
  · rw [without, standard]
    cases content with
    | alternatives => exact absurd rfl single
    | _ => rfl
  · rw [stated]

theorem fillsIn (leaf : s.Leaf h) : s.FillsIn h := by
  intro site r
  obtain ⟨r₁, emptied, kept⟩ := leaf.emptied site r
  let f := (s.toNode h).frame .undefined site {}
  obtain ⟨w, r₂, filled, keptThen, fills⟩ := leaf.filled f rfl r₁
  have merged : s.merged {} = .ok {} := by
    rw [Schema.merged, leaf.unset]
  have absent : Node.checkPresence h (s.toNode h) f .undefined = pure (.undefined, []) := by
    have undeep : Node.isDeep (s.toNode h).core.default = false := leaf.undeep
    simp only [Node.checkPresence, leaf.presence f rfl, undeep]
    rfl
  have cast : Node.cast s.core f w = .ok w := by rw [Node.cast, leaf.uncast]
  have queue : Node.queue s.core f = pure () := by
    rw [Node.queue, leaf.hookless]
    rfl
  have deliver : Node.deliver s.core f w [] = pure ⟨w, []⟩ := by rw [Node.deliver, leaf.unmarked]
  have finished : (Node.onward h (s.toNode h) f .undefined).exec r₁ = (.ok ⟨w, []⟩, r₂) := by
    rw [Node.onward, absent, pure_bind]
    show Eval.exec (Node.fill h s.core f .undefined [] >>= fun d => liftM (Node.cast s.core f d.1) >>= fun v =>
      Node.queue s.core f >>= fun _ => Node.deliver s.core f v d.2) r₁ = _
    rw [Eval.exec_bind, filled, Eval.andThen_ok, cast, Eval.lift_ok_bind, queue, pure_bind, deliver]
    rfl
  refine ⟨w, r₂, ?_, keptThen.trans kept, fills⟩
  rw [eval_onward leaf.uncached merged (convert_undefined _ _), Eval.exec_bind, emptied]
  exact finished

end Leaf

/-! ## Objects -/

/-- The declared keys of an object, all of them absent, fill in their entries one after the other. -/
theorem checkDeclared_fills {f : Frame} (standard : f.prefs = {}) {ks : List (Value × Schema)}
    (distinct : ks.Pairwise fun a b => sameKey a.1 b.1 = false) (each : ∀ e ∈ ks, e.2.strips = false ∧ e.2.FillsIn h)
    {es : Dict} (missed : ∀ e ∈ ks, find? e.1 es = none) (r : Run) :
    ∃ fs r', (Keys.checkDeclared f (evalKeyList h ks) es []).exec r = (.ok (es ++ fs, [], false), r') ∧
      r'.journal = r.journal ∧ KeysFill ks fs := by
  induction ks generalizing es r with
  | nil => exact ⟨[], r, by rw [List.append_nil]; rfl, rfl, .nil⟩
  | cons e ks ih =>
      obtain ⟨k, s⟩ := e
      obtain ⟨distinctHere, distinctLater⟩ := List.pairwise_cons.mp distinct
      obtain ⟨⟨keeps, fillsIn⟩, eachLater⟩ := List.forall_mem_cons.mp each
      obtain ⟨missedHere, missedLater⟩ := List.forall_mem_cons.mp missed
      obtain ⟨w, r₁, ran, kept, fills⟩ := fillsIn (f.site.child (.dict es) k) r
      have step : (Keys.checkDeclared f (evalKeyList h ((k, s) :: ks)) es []).exec r =
          (Keys.checkDeclared f (evalKeyList h ks) (Keys.settle ⟨k, s.strips, s.eval h⟩ .undefined w es) []).exec r₁ := by
        rw [evalKeyList, Keys.checkDeclared, Eval.exec_bind, missedHere, standard]
        show Eval.andThen _ ((s.eval h .undefined (f.site.child (.dict es) k) {}).exec r) = _
        rw [ran]
        rfl
      cases present : w.isUndefined with
      | true =>
          obtain rfl : w = .undefined := by cases w <;> first | rfl | cases present
          have settled : Keys.settle ⟨k, s.strips, s.eval h⟩ .undefined .undefined es = es := by
            rw [keeps]
            rfl
          rw [step, settled]
          obtain ⟨fs, r₂, later, keptThen, fill⟩ := ih distinctLater eachLater missedLater r₁
          exact ⟨fs, r₂, later, keptThen.trans kept, .without fills fill⟩
      | false =>
          have settled : Keys.settle ⟨k, s.strips, s.eval h⟩ .undefined w es = es ++ [(k, w)] := by
            rw [← insert_missed missedHere, keeps, Keys.settle, present]
            rfl
          -- The working copy has grown by an entry that no later key finds.
          have missedThen : ∀ d ∈ ks, find? d.1 (es ++ [(k, w)]) = none := by
            intro d member
            rw [find?_append, missedLater d member]
            simp [find?, distinctHere d member]
          rw [step, settled]
          obtain ⟨fs, r₂, later, keptThen, fill⟩ := ih distinctLater eachLater missedThen r₁
          rw [List.append_assoc] at later
          exact ⟨(k, w) :: fs, r₂, later, keptThen.trans kept, .entry fills present fill⟩

section

variable {keys : Option (List (Value × Schema))} {site : Site} {v : Value} {es : Dict} {r r' : Run}

/-- From absence and from an empty dictionary an object with a deep default comes to the same base check. -/
theorem deep_checked {o : Option Outcome} (start : v = .undefined ∨ v = .dict [])
    (based : (Keys.base none (evalKeys h keys) (dictFrame [] site {}) (.dict [])).exec r = (.ok o, r'))
    (built : o = none ∧ es = [] ∨ o = some ⟨.dict es, []⟩) :
    ((Schema.node .deep none (.object keys)).eval h v site {}).exec r = (.ok ⟨.dict es, []⟩, r') := by
  let n := (Schema.node .deep none (.object keys)).toNode h
  have checked : (Node.checkBase h n (n.frame v site {}) (.dict []) []).exec r = (.ok (.dict es, []), r') := by
    have same : n.base { n.frame v site {} with current := .dict [] } (.dict []) =
        Keys.base none (evalKeys h keys) (dictFrame [] site {}) (.dict []) :=
      evalContent_regiven (dictFrame [] site {}) v Core.deep (.object keys) (.dict [])
    rw [Node.checkBase, same, Eval.exec_bind, based]
    rcases built with ⟨rfl, rfl⟩ | rfl <;> rfl
  have present : Node.checkPresence h n (n.frame v site {}) v = Node.checkBase h n (n.frame v site {}) (.dict []) [] := by
    rcases start with rfl | rfl <;> rfl
  have onward : (Node.onward h n (n.frame v site {}) v).exec r = (.ok ⟨.dict es, []⟩, r') := by
    rw [Node.onward, present, Eval.exec_bind, checked]
    rfl
  have converted : n.convert (n.frame v site {}) v = .goOn v [] := by
    rcases start with rfl | rfl <;> rfl
  rw [eval_onward rfl rfl converted]
  exact onward

theorem checkStrangers_known {f : Frame} (standard : f.prefs = {}) {cs : List KeyCheck}
    (known : ∀ e ∈ es, Keys.isKnown cs e.1) : Keys.checkStrangers none cs f es [] = ⟨.dict es, []⟩ := by
  have none : es.filter (fun e => !Keys.isKnown cs e.1) = [] := by
    rw [List.filter_eq_nil_iff]
    intro e member
    simp [known e member]
  rw [Keys.checkStrangers_standard standard, none]
  rfl

theorem DefaultTree.keeps {s : Schema} (tree : s.DefaultTree h) : s.strips = false := by
  unfold strips
  cases tree with
  | leaf leaf =>
      rw [leaf.unmarked]
      rfl
  | keyless => rfl
  | keys => rfl

/-- An object with a deep default fills in its keys if they fill in absence. -/
theorem deep_fills (tree : DefaultTree h (.node .deep none (.object keys)))
    (each : ∀ ks, keys = some ks → ∀ e ∈ ks, e.2.FillsIn h) (site : Site) (r : Run) :
    ∃ es r', (∀ v, v = .undefined ∨ v = .dict [] →
      ((Schema.node .deep none (.object keys)).eval h v site {}).exec r = (.ok ⟨.dict es, []⟩, r')) ∧
      r'.journal = r.journal ∧ Fills (.node .deep none (.object keys)) (.dict es) := by
  cases tree with
  | leaf leaf => cases leaf.undeep
  | keyless => exact ⟨[], r, fun v start => deep_checked start rfl (.inl ⟨rfl, rfl⟩), rfl, .keyless⟩
  | @keys ks itself distinct below =>
      have fill : ∀ e ∈ ks, e.2.strips = false ∧ e.2.FillsIn h :=
        fun e member => ⟨(below e member).keeps, each ks rfl e member⟩
      have missed : ∀ e ∈ ks, find? e.1 ([] : Dict) = none := fun _ _ => rfl
      obtain ⟨fs, r', declared, kept, filled⟩ :=
        checkDeclared_fills (f := dictFrame [] site {}) rfl distinct fill missed r
      refine ⟨fs, r', fun v start => deep_checked start ?_ (.inr rfl), kept, .keys filled⟩
      have known : ∀ e ∈ fs, Keys.isKnown (evalKeyList h ks) e.1 := by
        intro e member
        obtain ⟨d, inside, same⟩ := filled.declared e member
        rw [Keys.isKnown_declares]
        exact List.any_eq_true.mpr ⟨d, inside, same ▸ itself d inside⟩
      have based : Keys.base none (evalKeys h (some ks)) (dictFrame [] site {}) (.dict []) =
          Keys.checkDeclared (dictFrame [] site {}) (evalKeyList h ks) [] [] >>= fun d =>
            if d.2.2 then pure (some ⟨.dict d.1, d.2.1⟩)
            else pure (some (Keys.checkStrangers none (evalKeyList h ks) (dictFrame [] site {}) d.1 d.2.1)) := rfl
      have through : Keys.checkStrangers none (evalKeyList h ks) (dictFrame [] site {}) fs [] = ⟨.dict fs, []⟩ :=
        checkStrangers_known rfl known
      rw [based, Eval.exec_bind, declared, List.nil_append, Eval.andThen_ok]
      simp only [through]
      rfl

end

theorem DefaultTree.fillsIn {s : Schema} (tree : s.DefaultTree h) : s.FillsIn h := by
  have object {keys : Option (List (Value × Schema))} (tree : DefaultTree h (.node .deep none (.object keys)))
      (each : ∀ ks, keys = some ks → ∀ e ∈ ks, e.2.FillsIn h) : FillsIn h (.node .deep none (.object keys)) := by
    intro site r
    obtain ⟨es, r', ran, kept, fills⟩ := deep_fills tree each site r
    exact ⟨.dict es, r', ran .undefined (.inl rfl), kept, fills⟩
  induction tree with
  | leaf leaf => exact leaf.fillsIn
  | keyless => exact object .keyless nofun
  | keys itself distinct each ih =>
      apply object (.keys itself distinct each)
      rintro _ ⟨⟩
      exact ih

theorem DefaultTree.parts {keys : Option (List (Value × Schema))} (tree : DefaultTree h (.node .deep none (.object keys))) :
    ∀ ks, keys = some ks → ∀ e ∈ ks, e.2.FillsIn h := by
  rintro ks rfl
  cases tree with
  | leaf leaf => cases leaf.undeep
  | keys _ _ each => exact fun e member => (each e member).fillsIn

theorem DefaultTree.object {s : Schema} (tree : s.DefaultTree h) (deep : s.core.default = some .deep) :
    ∃ keys, s = .node .deep none (.object keys) := by
  cases tree with
  | leaf leaf =>
      have undeep := leaf.undeep
      rw [deep] at undeep
      cases undeep
  | keyless => exact ⟨none, rfl⟩
  | keys => exact ⟨_, rfl⟩

end Schema

/-- A tree of deep defaults answers absence, and an empty dictionary, with the dictionary that has for each key in the
order of declaration the static default of a leaf or what a deep default builds in turn, and nothing for a leaf without
a default. -/
theorem deep_defaults_build {s : Schema} (tree : s.DefaultTree h) (deep : s.core.default = some .deep) (r : Run) :
    ∃ es r', s.Fills (.dict es) ∧
      (Validation.validate h s .undefined []).exec r = (.ok ⟨.dict es, none, none⟩, r') ∧
      (Validation.validate h s (.dict []) []).exec r = (.ok ⟨.dict es, none, none⟩, r') := by
  obtain ⟨keys, rfl⟩ := tree.object deep
  obtain ⟨es, r', ran, kept, fills⟩ := Schema.deep_fills tree tree.parts {} (Validation.fresh r)
  have answers (v : Value) (start : v = .undefined ∨ v = .dict []) :
      (Validation.validate h (.node .deep none (.object keys)) v []).exec r = (.ok ⟨.dict es, none, none⟩, r') := by
    apply (Validation.validate_accepts rfl).mpr
    rw [kept]
    exact ⟨ran v start, rfl, rfl⟩
  exact ⟨es, r', fills, answers .undefined (.inl rfl), answers (.dict []) (.inr rfl)⟩

/-! ## Trees and other schemas -/

def leafOf (v : Value) (empty : Option Schema) (content : Content) : Schema := .node { default := some (.static v) } empty content

theorem leafOf_leaf {v : Value} {empty : Option Schema} {content : Content} (single : content.kind ≠ .alternatives)
    (copyable : v.isMutableContainer → v.isCopyable) (answers : ∀ e, empty = some e → (e.all fun core _ => core.isPlain) ∧
      ∀ site r, ∃ b, ((Node.accepts (e.eval h) .undefined site {}).exec r).1 = .ok b) : (leafOf v empty content).Leaf h :=
  ⟨single, .inl rfl, .inr ⟨v, rfl, copyable⟩, rfl, rfl, rfl, rfl, rfl, answers⟩

def nestedTree : Schema := .node .deep none (.object (some [
  (.str "b", .node .deep none (.object (some [(.str "e", leafOf (.list [.int 1]) none (.array []))]))),
  (.str "c", leafOf (.str "x") (some emptyText) .string),
  (.str "d", .any)]))

theorem nestedTree_tree : nestedTree.DefaultTree .idle := by
  have answers : ∀ e, some emptyText = some e → (e.all fun core _ => core.isPlain) ∧
      ∀ site r, ∃ b, ((Node.accepts (e.eval .idle) .undefined site {}).exec r).1 = .ok b := by
    rintro _ ⟨⟩
    exact ⟨rfl, fun _ _ => ⟨_, rfl⟩⟩
  have bare : Schema.any.Leaf .idle := ⟨by decide, .inl rfl, .inl rfl, rfl, rfl, rfl, rfl, rfl, by rintro _ ⟨⟩⟩
  refine .keys (by simp [sameKey]) (by simp [sameKey]) ?_
  simp only [List.forall_mem_cons]
  refine ⟨?_, .leaf (leafOf_leaf (by decide) (by decide) answers), .leaf bare, List.forall_mem_nil _⟩
  refine .keys (by simp [sameKey]) (by simp [sameKey]) ?_
  simp only [List.forall_mem_cons]
  exact ⟨.leaf (leafOf_leaf (by decide) (fun _ => rfl) (by simp)), List.forall_mem_nil _⟩

def nestedDefaults : Dict := [(.str "b", .dict [(.str "e", .list [.int 1])]), (.str "c", .str "x")]

/-- The defaults of the tree in their order, and nothing under the key without one. -/
theorem nestedTree_built : nestedTree.Fills (.dict nestedDefaults) ∧
    ∃ r', (Validation.validate .idle nestedTree .undefined []).exec {} = (.ok ⟨.dict nestedDefaults, none, none⟩, r') := by
  obtain ⟨es, r', fills, ran, -⟩ := deep_defaults_build nestedTree_tree rfl {}
  have answer : ((Validation.validate .idle nestedTree .undefined []).exec {}).1 = .ok ⟨.dict nestedDefaults, none, none⟩ :=
    rfl
  have same : (Except.ok ⟨.dict es, none, none⟩ : Except Fault Answer) = .ok ⟨.dict nestedDefaults, none, none⟩ :=
    (congrArg Prod.fst ran).symm.trans answer
  obtain rfl : es = nestedDefaults := Datum.dict.inj (congrArg Answer.value (Except.ok.inj same))
  exact ⟨fills, r', ran⟩

/-- An object with a deep default merged with one that declares its key again. -/
def declaredTwice : Schema :=
  .node .deep none (.object (some [(.str "a", leafOf (.int 5) none .any), (.str "a", leafOf (.int 5) none .string)]))

/-- An object that checks for a number what it fills in. -/
def hugeWithin : Schema :=
  .node .deep none (.object (some [(.str "a", leafOf (.int huge) none .any), (.str "a", .number)]))

def hugeEmpty : Schema := .node .deep none (.object (some [(.str "a", .node {} (some hugeWithin) .any)]))

/-- The second child of a key rejects what the first one has filled in. A leaf whose schema for empty values has no
answer about absence leaves the tree without one. -/
theorem second_child_rejects :
    ((Schema.node .deep none (.object (some [(.str "a", leafOf (.int 5) none .any)]))).concat
      (.leaf (.schema 0 (.node {} none (.object (some [(.str "a", leafOf (.int 5) none .string)]))))) = .ok declaredTwice ∧
      (leafOf (.int 5) none .any).Leaf .idle ∧ (leafOf (.int 5) none .string).Leaf .idle ∧
      ∃ rejection r', (Validation.validate .idle declaredTwice .undefined []).exec {} =
        (.ok ⟨.dict [(.str "a", .int 5)], some (.rejected rejection), none⟩, r')) ∧
    ((Validation.validate .idle hugeEmpty .undefined []).exec {}).1 = .error .tooLarge := by
  have leaf {content : Content} (single : content.kind ≠ .alternatives) : (leafOf (.int 5) none content).Leaf .idle :=
    leafOf_leaf single (by decide) (by simp)
  refine ⟨⟨rfl, leaf (by decide), leaf (by decide), _, _, rfl⟩, ?_⟩
  -- Outcomes cannot be compared, so what is decided is whether this one is the fault.
  have stopped : (match ((Validation.validate .idle hugeEmpty .undefined []).exec {}).1 with
      | .error .tooLarge => true
      | _ => false) = true := by decide +kernel
  revert stopped
  generalize ((Validation.validate .idle hugeEmpty .undefined []).exec {}).1 = outcome
  intro stopped
  split at stopped
  · rfl
  · cases stopped

end Conform
