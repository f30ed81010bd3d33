import Conform.Proofs.Validation.Stages
import Conform.Proofs.HookRun

/-!
# Visits to nodes

An evaluation visits the nodes below it one after the other. In a schema of objects, of arrays with one
item schema and of leaves every hook in the queue was put there by one of these visits, those below a
node before its own.
-/

namespace Conform

/-- One evaluation of a schema, with the run before and the run after it. -/
structure Visit (h : Hooks) where
  schema : Schema
  given : Value
  site : Site
  prefs : Preferences
  before : Run
  result : Result
  after : Run
  ran : (schema.eval h given site prefs).exec before = (.ok result, after)

/-- Contents without child schemas. -/
def Content.isLeaf : Content → Bool
  | .any | .boolean _ _ | .number | .string | .probe | .object none => true
  | _ => false

/-- Objects, arrays with one item schema, and leaves. The keys of an object are told apart. -/
inductive Schema.Fixed : Schema → Prop
  | leaf {core : Core} {empty : Option Schema} {content : Content} (isLeaf : content.isLeaf) :
      Fixed (.node core empty content)
  | array {core : Core} {empty : Option Schema} {t : Schema} (item : Fixed t) :
      Fixed (.node core empty (.array [t]))
  | object {core : Core} {empty : Option Schema} {ks : List (Value × Schema)}
      (keys : ∀ e ∈ ks, e.1.IsKey) (apart : ks.Pairwise fun a b => Datum.Apart a.1 b.1)
      (each : ∀ e ∈ ks, Fixed e.2) : Fixed (.node core empty (.object (some ks)))

theorem Schema.Fixed.shape {s : Schema} (fixed : s.Fixed) : s.content.isLeaf ∨ (∃ t, s.content = .array [t] ∧ t.Fixed) ∨
    ∃ ks, s.content = .object (some ks) ∧ (ks.Pairwise fun a b => Datum.Apart a.1 b.1) ∧ ∀ e ∈ ks, e.2.Fixed := by
  cases fixed with
  | leaf isLeaf => exact .inl isLeaf
  | array item => exact .inr (.inl ⟨_, rfl, item⟩)
  | object keys apart each => exact .inr (.inr ⟨_, rfl, apart, each⟩)

variable {h : Hooks}

namespace Visit

def frame (e : Visit h) (q : Preferences) : Frame := (e.schema.toNode h).frame e.given e.site q

/-- The visit of a child schema from a run. -/
structure At (c : Visit h) (t : Schema) (v : Value) (s : Site) (p : Preferences) (r : Run) : Prop where
  schema : c.schema = t
  given : c.given = v
  site : c.site = s
  prefs : c.prefs = p
  before : c.before = r

def accepts (c : Visit h) : Bool := c.result.errors.isEmpty

/-- From a run the node comes to its base check of a value, with the merged preferences. -/
structure Base (e : Visit h) (q : Preferences) (w : Value) (r₀ : Run) : Prop where
  merged : e.schema.merged e.prefs = .ok q
  came : ∃ r es, ((e.schema.toNode h).consult (e.frame q)).exec e.before = (.ok none, r) ∧
    (Node.approach h (e.schema.toNode h) (e.frame q)).exec r = (.ok (.goOn w es), r₀)

end Visit

/-- The visits of the items of an array, of which some are done, each under its index. -/
inductive ItemsRan (t : Schema) (f : Frame) : List Value → List Value → Run → List (Value × Visit h) → Run → Prop
  | done {before : List Value} {r : Run} : ItemsRan t f before [] r [] r
  | item {before rest : List Value} {v : Value} {r r' : Run} {c : Visit h} {cs : List (Value × Visit h)}
      (visit : c.At t v (f.site.child (.list (before ++ v :: rest)) (.int before.length)) f.prefs r)
      (accepts : c.accepts) (later : ItemsRan t f (before ++ [c.result.value]) rest c.after cs r') :
      ItemsRan t f before (v :: rest) r ((.int before.length, c) :: cs) r'
  | stop {before rest : List Value} {v : Value} {r : Run} {c : Visit h}
      (visit : c.At t v (f.site.child (.list (before ++ v :: rest)) (.int before.length)) f.prefs r)
      (fails : c.accepts = false) (aborts : f.prefs.abortEarly) : ItemsRan t f before (v :: rest) r [(.int before.length, c)] c.after
  | skip {before rest : List Value} {v : Value} {r r' : Run} {c : Visit h} {cs : List (Value × Visit h)}
      (visit : c.At t v (f.site.child (.list (before ++ v :: rest)) (.int before.length)) f.prefs r)
      (fails : c.accepts = false) (goesOn : f.prefs.abortEarly = false)
      (later : ItemsRan t f (before ++ [v]) rest c.after cs r') :
      ItemsRan t f before (v :: rest) r ((.int before.length, c) :: cs) r'

/-- The entries after an accepted child. -/
def Visit.settle (k : Value) (c : Visit h) (es : Dict) : Dict :=
  Keys.settle ⟨k, c.schema.strips, c.schema.eval h⟩ c.given c.result.value es

/-- The visits of the declared keys of an object. -/
inductive KeysRan (f : Frame) : List (Value × Schema) → Dict → Run → List (Value × Visit h) → Run → Prop
  | done {es : Dict} {r : Run} : KeysRan f [] es r [] r
  | key {k : Value} {s : Schema} {ks : List (Value × Schema)} {es : Dict} {r r' : Run} {c : Visit h}
      {cs : List (Value × Visit h)}
      (visit : c.At s ((Datum.find? k es).getD .undefined) (f.site.child (.dict es) k) f.prefs r)
      (accepts : c.accepts) (later : KeysRan f ks (c.settle k es) c.after cs r') :
      KeysRan f ((k, s) :: ks) es r ((k, c) :: cs) r'
  | stop {k : Value} {s : Schema} {ks : List (Value × Schema)} {es : Dict} {r : Run} {c : Visit h}
      (visit : c.At s ((Datum.find? k es).getD .undefined) (f.site.child (.dict es) k) f.prefs r)
      (fails : c.accepts = false) (aborts : f.prefs.abortEarly) : KeysRan f ((k, s) :: ks) es r [(k, c)] c.after
  | skip {k : Value} {s : Schema} {ks : List (Value × Schema)} {es : Dict} {r r' : Run} {c : Visit h}
      {cs : List (Value × Visit h)}
      (visit : c.At s ((Datum.find? k es).getD .undefined) (f.site.child (.dict es) k) f.prefs r)
      (fails : c.accepts = false) (goesOn : f.prefs.abortEarly = false)
      (later : KeysRan f ks es c.after cs r') :
      KeysRan f ((k, s) :: ks) es r ((k, c) :: cs) r'

theorem items_ran {t : Schema} {f : Frame} {before xs : List Value} {errors : List Issue} {r r' : Run}
    {o : Outcome} (ran : (Items.checkFrom [t.eval h] f before xs errors).exec r = (.ok o, r')) :
    ∃ cs : List (Value × Visit h), ItemsRan t f before xs r cs r' := by
  induction xs generalizing before errors r with
  | nil =>
      obtain rfl : r = r' := congrArg Prod.snd ran
      exact ⟨[], .done⟩
  | cons v rest ih =>
      obtain ⟨result, s, checked, later⟩ := Eval.bind_ok ran
      let c : Visit h := ⟨t, v, _, f.prefs, r, result, s, checked⟩
      have visit : c.At t v (f.site.child (.list (before ++ v :: rest)) (.int before.length)) f.prefs r :=
        ⟨rfl, rfl, rfl, rfl, rfl⟩
      by_cases accepts : result.errors.isEmpty
      · simp only [accepts, if_true] at later
        obtain ⟨cs, others⟩ := ih later
        exact ⟨_, .item visit accepts others⟩
      · have fails : c.accepts = false := by simpa [Visit.accepts, c] using accepts
        simp only [accepts] at later
        by_cases aborts : f.prefs.abortEarly
        · simp only [aborts] at later
          obtain rfl : s = r' := congrArg Prod.snd later
          exact ⟨_, .stop visit fails aborts⟩
        · simp only [aborts] at later
          obtain ⟨cs, others⟩ := ih later
          exact ⟨_, .skip visit fails (by simpa using aborts) others⟩

theorem keys_ran {f : Frame} {ks : List (Value × Schema)} {es : Dict} {errors : List Issue} {r r' : Run}
    {o : Dict × List Issue × Bool}
    (ran : (Keys.checkDeclared f (Schema.evalKeyList h ks) es errors).exec r = (.ok o, r')) :
    ∃ cs : List (Value × Visit h), KeysRan f ks es r cs r' := by
  induction ks generalizing es errors r with
  | nil =>
      obtain rfl : r = r' := congrArg Prod.snd ran
      exact ⟨[], .done⟩
  | cons e ks ih =>
      obtain ⟨k, t⟩ := e
      obtain ⟨result, s, checked, later⟩ := Eval.bind_ok ran
      let c : Visit h := ⟨t, (Datum.find? k es).getD .undefined, f.site.child (.dict es) k, f.prefs, r, result, s, checked⟩
      have visit : c.At t ((Datum.find? k es).getD .undefined) (f.site.child (.dict es) k) f.prefs r :=
        ⟨rfl, rfl, rfl, rfl, rfl⟩
      by_cases accepts : result.errors.isEmpty
      · simp only [accepts, if_true] at later
        obtain ⟨cs, others⟩ := ih later
        exact ⟨_, .key visit accepts others⟩
      · have fails : c.accepts = false := by simpa [Visit.accepts, c] using accepts
        simp only [accepts] at later
        by_cases aborts : f.prefs.abortEarly
        · simp only [aborts] at later
          obtain rfl : s = r' := congrArg Prod.snd later
          exact ⟨_, .stop visit fails aborts⟩
        · simp only [aborts] at later
          obtain ⟨cs, others⟩ := ih later
          exact ⟨_, .skip visit fails (by simpa using aborts) others⟩

/-- The visits that the base check of a node makes, with their segments, and the container that it builds
where all of them accept. -/
inductive Visit.Children (e : Visit h) : List (Value × Visit h) → Value → Prop
  | items {t : Schema} {xs : List Value} {q : Preferences} {r₀ r₁ : Run} {cs : List (Value × Visit h)}
      (content : e.schema.content = .array [t]) (base : e.Base q (.list xs) r₀)
      (ran : ItemsRan t { e.frame q with current := .list xs } [] xs r₀ cs r₁) :
      Children e cs (.list ((cs.map fun c => c.2.result.value).filter fun v => !v.isUndefined))
  | keys {ks : List (Value × Schema)} {es : Dict} {q : Preferences} {r₀ r₁ : Run} {cs : List (Value × Visit h)}
      (content : e.schema.content = .object (some ks)) (base : e.Base q (.dict es) r₀)
      (ran : KeysRan { e.frame q with current := .dict es } ks es r₀ cs r₁) :
      Children e cs (Keys.checkStrangers e.schema.core.unknown (Schema.evalKeyList h ks)
        { e.frame q with current := .dict es } (cs.foldl (fun es c => c.2.settle c.1 es) es) []).value

/-- The visits at and below a visit, each with its path from there. -/
inductive Visit.Visits : Visit h → Path → Visit h → Prop
  | self {e : Visit h} : Visits e [] e
  | child {e c d : Visit h} {cs : List (Value × Visit h)} {built : Value} {k : Value} {q : Path}
      (children : e.Children cs built) (member : (k, c) ∈ cs) (below : Visits c q d) : Visits e (k :: q) d

/-- The hooks that the node of a visit queues itself. -/
def Visit.Queued (e : Visit h) (g : Pending) : Prop :=
  ∃ q, e.schema.merged e.prefs = .ok q ∧ g ∈ (e.schema.toNode h).own (e.frame q)

/-- Visits one after the other, each at its segment below a path. -/
inductive Sequence (p : Path) : Run → List (Value × Visit h) → Run → Prop
  | nil {r : Run} : Sequence p r [] r
  | cons {k : Value} {c : Visit h} {cs : List (Value × Visit h)} {r' : Run} (path : c.site.path = p ++ [k])
      (later : Sequence p c.after cs r') : Sequence p c.before ((k, c) :: cs) r'

theorem Visit.At.path {c : Visit h} {t : Schema} {v parent k : Value} {s : Site} {p : Preferences} {r : Run}
    (visit : c.At t v (s.child parent k) p r) : c.site.path = s.path ++ [k] := by
  rw [visit.site]
  rfl

theorem ItemsRan.sequence {t : Schema} {f : Frame} {before xs : List Value} {r r' : Run}
    {cs : List (Value × Visit h)} (ran : ItemsRan t f before xs r cs r') : Sequence f.site.path r cs r' := by
  induction ran with
  | done => exact .nil
  | item visit _ _ ih => exact visit.before ▸ .cons visit.path ih
  | stop visit _ _ => exact visit.before ▸ .cons visit.path .nil
  | skip visit _ _ _ ih => exact visit.before ▸ .cons visit.path ih

theorem KeysRan.sequence {f : Frame} {ks : List (Value × Schema)} {es : Dict} {r r' : Run}
    {cs : List (Value × Visit h)} (ran : KeysRan f ks es r cs r') : Sequence f.site.path r cs r' := by
  induction ran with
  | done => exact .nil
  | key visit _ _ ih => exact visit.before ▸ .cons visit.path ih
  | stop visit _ _ => exact visit.before ▸ .cons visit.path .nil
  | skip visit _ _ _ ih => exact visit.before ▸ .cons visit.path ih

theorem ItemsRan.segments {t : Schema} {f : Frame} {before xs : List Value} {r r' : Run}
    {cs : List (Value × Visit h)} (ran : ItemsRan t f before xs r cs r') :
    cs.map Prod.fst = (List.range' before.length cs.length).map fun i : Nat => .int i := by
  induction ran with
  | done => rfl
  | item _ _ _ ih => simpa [List.range'_succ] using ih
  | stop => simp [List.range'_succ]
  | skip _ _ _ _ ih => simpa [List.range'_succ] using ih

theorem KeysRan.segments {f : Frame} {ks : List (Value × Schema)} {es : Dict} {r r' : Run}
    {cs : List (Value × Visit h)} (ran : KeysRan f ks es r cs r') :
    cs.map (fun c => (c.1, c.2.schema)) <+: ks := by
  induction ran with
  | done => exact List.nil_prefix
  | key visit _ _ ih =>
      rw [List.map_cons, visit.schema]
      exact List.prefix_cons_inj _ |>.mpr ih
  | stop visit _ _ =>
      rw [List.map_cons, visit.schema]
      exact List.prefix_cons_inj _ |>.mpr List.nil_prefix
  | skip visit _ _ _ ih =>
      rw [List.map_cons, visit.schema]
      exact List.prefix_cons_inj _ |>.mpr ih

/-- The visits of items are visits to the item schema, each at its segment. -/
theorem ItemsRan.visit {t : Schema} {f : Frame} {before xs : List Value} {r r' : Run}
    {cs : List (Value × Visit h)} (ran : ItemsRan t f before xs r cs r') :
    ∀ c ∈ cs, ∃ v parent s, c.2.At t v (f.site.child parent c.1) f.prefs s := by
  induction ran with
  | done => exact List.forall_mem_nil _
  | item visit _ _ ih => exact List.forall_mem_cons.mpr ⟨⟨_, _, _, visit⟩, ih⟩
  | stop visit _ _ => exact List.forall_mem_cons.mpr ⟨⟨_, _, _, visit⟩, List.forall_mem_nil _⟩
  | skip visit _ _ _ ih => exact List.forall_mem_cons.mpr ⟨⟨_, _, _, visit⟩, ih⟩

/-- Those of keys are visits to the schemas of the keys, each at its key. -/
theorem KeysRan.visit {f : Frame} {ks : List (Value × Schema)} {es : Dict} {r r' : Run}
    {cs : List (Value × Visit h)} (ran : KeysRan f ks es r cs r') :
    ∀ c ∈ cs, ∃ t v parent s, c.2.At t v (f.site.child parent c.1) f.prefs s := by
  induction ran with
  | done => exact List.forall_mem_nil _
  | key visit _ _ ih => exact List.forall_mem_cons.mpr ⟨⟨_, _, _, _, visit⟩, ih⟩
  | stop visit _ _ => exact List.forall_mem_cons.mpr ⟨⟨_, _, _, _, visit⟩, List.forall_mem_nil _⟩
  | skip visit _ _ _ ih => exact List.forall_mem_cons.mpr ⟨⟨_, _, _, _, visit⟩, ih⟩

theorem ItemsRan.schema {t : Schema} {f : Frame} {before xs : List Value} {r r' : Run}
    {cs : List (Value × Visit h)} (ran : ItemsRan t f before xs r cs r') : ∀ c ∈ cs, c.2.schema = t := by
  intro c member
  obtain ⟨_, _, _, visit⟩ := ran.visit c member
  exact visit.schema

theorem later_of_apart {k l : Value} (apart : Datum.Apart k l) (p q s : Path) :
    Later (p ++ k :: q) (p ++ l :: s) := by
  right
  induction p with
  | nil => exact .here apart
  | cons j p ih => exact .under ih

/-- Hooks of visits below a path, each before those that lie above it. -/
structure QueuedBelow (p : Path) (cs : List (Value × Visit h)) (ws : List Pending) : Prop where
  ordered : ws.Pairwise fun a b => Later a.path b.path
  visits : ∀ g ∈ ws, ∃ k c q d, (k, c) ∈ cs ∧ c.Visits q d ∧ d.Queued g ∧ g.path = p ++ k :: q

/-- What a visit puts into the queue. -/
def Visit.Queues (e : Visit h) : Prop :=
  ∃ ws, e.after.journal.externals = e.before.journal.externals ++ ws ∧
    ws.Pairwise (fun a b => Later a.path b.path) ∧
    ∀ g ∈ ws, ∃ q d, e.Visits q d ∧ d.Queued g ∧ g.path = e.site.path ++ q

theorem Sequence.queued {p : Path} {r r' : Run} {cs : List (Value × Visit h)} (sequence : Sequence p r cs r')
    (apart : cs.Pairwise fun a b => Datum.Apart a.1 b.1) (each : ∀ c ∈ cs, c.2.Queues) :
    ∃ ws, r'.journal.externals = r.journal.externals ++ ws ∧ QueuedBelow p cs ws := by
  induction sequence with
  | nil => exact ⟨[], by simp, .nil, nofun⟩
  | @cons k c cs r' path later ih =>
      obtain ⟨apartHere, apartRest⟩ := List.pairwise_cons.mp apart
      obtain ⟨us, first, orderedFirst, visitsFirst⟩ := each (k, c) (by simp)
      obtain ⟨ws, rest, queuedRest⟩ := ih apartRest fun d member => each d (by simp [member])
      have here : ∀ g ∈ us, ∃ q d, c.Visits q d ∧ d.Queued g ∧ g.path = p ++ k :: q := by
        intro g member
        obtain ⟨q, d, visits, queued, at_⟩ := visitsFirst g member
        exact ⟨q, d, visits, queued, by simpa [path] using at_⟩
      refine ⟨us ++ ws, by rw [rest, first, List.append_assoc], ?_, ?_⟩
      · refine List.pairwise_append.mpr ⟨orderedFirst, queuedRest.ordered, fun a left b right => ?_⟩
        obtain ⟨q, -, -, -, pathA⟩ := here a left
        obtain ⟨l, d, s, -, member, -, -, pathB⟩ := queuedRest.visits b right
        rw [pathA, pathB]
        exact later_of_apart (apartHere (l, d) member) p q s
      · intro g member
        rcases List.mem_append.mp member with left | right
        · obtain ⟨q, d, visits, queued, at_⟩ := here g left
          exact ⟨k, c, q, d, by simp, visits, queued, at_⟩
        · obtain ⟨l, c', q, d, below, visits, queued, at_⟩ := queuedRest.visits g right
          exact ⟨l, c', q, d, by simp [below], visits, queued, at_⟩

theorem ItemsRan.apart {t : Schema} {f : Frame} {before xs : List Value} {r r' : Run}
    {cs : List (Value × Visit h)} (ran : ItemsRan t f before xs r cs r') :
    cs.Pairwise fun a b => Datum.Apart a.1 b.1 := by
  have indexes : (cs.map Prod.fst).Pairwise Datum.Apart := by
    rw [ran.segments, List.pairwise_map]
    have ascending : (List.range' before.length cs.length).Pairwise (· < ·) := List.pairwise_lt_range'
    exact ascending.imp fun less => apart_int (by omega)
  exact List.pairwise_map.mp indexes

namespace Visit

variable {e : Visit h} {q : Preferences} {w : Value} {r₀ r₁ : Run} {o : Option Outcome}

theorem base_leaf (isLeaf : e.schema.content.isLeaf)
    (ran : ((e.schema.toNode h).base { e.frame q with current := w } w).exec r₀ = (.ok o, r₁)) : r₁ = r₀ := by
  have pure : ∀ x : Except Fault (Option Outcome), (liftM x : Eval (Option Outcome)).exec r₀ = (.ok o, r₁) → r₁ = r₀ :=
    fun x same => (congrArg Prod.snd same).symm
  obtain ⟨⟨core, empty, content⟩, given, site, prefs, before, result, after, evaluated⟩ := e
  change content.isLeaf at isLeaf
  cases content with
  | array | alternatives => cases isLeaf
  | object keys =>
      cases keys with
      | none => cases w <;> exact (congrArg Prod.snd ran).symm
      | some ks => cases isLeaf
  | _ => exact pure _ ran

theorem base_items {t : Schema} (content : e.schema.content = .array [t])
    (ran : ((e.schema.toNode h).base { e.frame q with current := w } w).exec r₀ = (.ok o, r₁)) :
    (∀ xs, w ≠ .list xs) ∧ r₁ = r₀ ∨
      ∃ xs, ∃ cs : List (Value × Visit h), w = .list xs ∧ ItemsRan t { e.frame q with current := .list xs } [] xs r₀ cs r₁ := by
  change (Schema.evalContent h e.schema.core e.schema.content _ _).exec r₀ = _ at ran
  rw [content] at ran
  cases w with
  | list xs =>
      obtain ⟨outcome, r₂, checked, done⟩ := Eval.bind_ok ran
      obtain rfl : r₂ = r₁ := congrArg Prod.snd done
      obtain ⟨cs, visits⟩ := items_ran checked
      exact .inr ⟨xs, cs, rfl, visits⟩
  | _ => exact .inl ⟨nofun, (congrArg Prod.snd ran).symm⟩

theorem base_keys {ks : List (Value × Schema)} (content : e.schema.content = .object (some ks))
    (ran : ((e.schema.toNode h).base { e.frame q with current := w } w).exec r₀ = (.ok o, r₁)) :
    (∀ es, w ≠ .dict es) ∧ r₁ = r₀ ∨
      ∃ es, ∃ cs : List (Value × Visit h), w = .dict es ∧ KeysRan { e.frame q with current := .dict es } ks es r₀ cs r₁ := by
  change (Schema.evalContent h e.schema.core e.schema.content _ _).exec r₀ = _ at ran
  rw [content] at ran
  cases w with
  | dict es =>
      obtain ⟨⟨left, errors, aborted⟩, r₂, checked, done⟩ := Eval.bind_ok ran
      obtain rfl : r₂ = r₁ := by cases aborted <;> exact congrArg Prod.snd done
      obtain ⟨cs, visits⟩ := keys_ran checked
      exact .inr ⟨es, cs, rfl, visits⟩
  | _ => exact .inl ⟨nofun, (congrArg Prod.snd ran).symm⟩

end Visit

/-- The visits of the keys of an object are told apart as the keys are, and their schemas are those of the keys. -/
theorem KeysRan.apart {f : Frame} {ks : List (Value × Schema)} {es : Dict} {r r' : Run} {cs : List (Value × Visit h)}
    (ran : KeysRan f ks es r cs r') (apart : ks.Pairwise fun a b => Datum.Apart a.1 b.1) :
    cs.Pairwise fun a b => Datum.Apart a.1 b.1 := by
  have declared : (cs.map fun c => (c.1, c.2.schema)).Pairwise fun a b => Datum.Apart a.1 b.1 :=
    apart.sublist ran.segments.sublist
  rwa [List.pairwise_map] at declared

theorem KeysRan.declared {f : Frame} {ks : List (Value × Schema)} {es : Dict} {r r' : Run} {cs : List (Value × Visit h)}
    (ran : KeysRan f ks es r cs r') : ∀ c ∈ cs, (c.1, c.2.schema) ∈ ks :=
  fun _ member => ran.segments.subset (List.mem_map_of_mem member)

theorem consult_journal (n : Node) (f : Frame) (r : Run) : ((n.consult f).exec r).2.journal = r.journal := by
  unfold Node.consult
  rcases n.core.cache with _ | ⟨slot⟩ | _
  · rfl
  · simp only
    split
    · rw [Eval.exec_cached?]
      cases slot.table <;> rfl
    · rfl
  · simp only
    split <;> rfl

theorem retain_journal (n : Node) (f : Frame) (result : Result) (r : Run) :
    ((n.retain f result).exec r).2.journal = r.journal := by
  unfold Node.retain
  rcases n.core.cache with _ | ⟨slot⟩ | _
  · rfl
  · simp only
    split
    · rw [Eval.exec_keep]
      cases slot.table <;> rfl
    · rfl
  · simp only
    split <;> rfl

/-- A node asks its cache in vain and does its work, or it does nothing to the queue. -/
theorem Visit.through (e : Visit h) : e.after.journal.externals = e.before.journal.externals ∨
    ∃ q r r', e.schema.merged e.prefs = .ok q ∧
      ((e.schema.toNode h).consult (e.frame q)).exec e.before = (.ok none, r) ∧
      (Node.settled h (e.schema.toNode h) (e.frame q)).exec r = (.ok e.result, r') ∧
      r.journal = e.before.journal ∧ e.after.journal = r'.journal := by
  have ran := e.ran
  rw [Schema.eval_eq, Node.evaluate_eq] at ran
  obtain ⟨q, s, merged, ran⟩ := Eval.bind_ok ran
  obtain ⟨isMerged, start⟩ : (e.schema.toNode h).merged e.prefs = .ok q ∧ e.before = s := Prod.mk.inj merged
  rw [← start] at ran
  obtain ⟨found, r, consulted, ran⟩ := Eval.bind_ok ran
  have started := consult_journal (e.schema.toNode h) (e.frame q) e.before
  change ((e.schema.toNode h).consult (e.frame q)).exec e.before = _ at consulted
  rw [consulted] at started
  cases found with
  | some result =>
      obtain rfl : r = e.after := congrArg Prod.snd ran
      exact .inl (congrArg Journal.externals started)
  | none =>
      obtain ⟨result, r', settled, ran⟩ := Eval.bind_ok ran
      obtain ⟨u, r'', retained, ran⟩ := Eval.bind_ok ran
      obtain ⟨same, ended⟩ : (Except.ok result : Except Fault Result) = .ok e.result ∧ r'' = e.after :=
        Prod.mk.inj ran
      obtain rfl := Except.ok.inj same
      have kept := retain_journal (e.schema.toNode h) (e.frame q) e.result r'
      change ((e.schema.toNode h).retain (e.frame q) e.result).exec r' = _ at retained
      rw [retained] at kept
      exact .inr ⟨q, r, r', isMerged, consulted, settled, started, ended ▸ kept⟩

end Conform
