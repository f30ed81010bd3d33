import Conform.Script
import Conform.Proofs.Schema.Chained

/-!
# Schemas that can be built

A schema is built by a chain of calls whose arguments may hold schemas built before, and may get tables for its
caches. Every node of a built schema is as the builders check it.
-/

namespace Conform

variable {joins : List Value → List Value → Prop}

/-! ## Arguments -/

/-- Whether a parameter is given no schema by default. -/
def Call.Param.isPlain (p : Param) : Bool := p.default.all fun t => t.isProper && t.schemas.isEmpty

theorem Call.Param.isPlain.made {p : Param} (plain : p.isPlain) {t : Term} (is : p.default = some t) : t.Made joins := by
  simp only [isPlain, is, Option.all_some, Bool.and_eq_true, List.isEmpty_iff] at plain
  exact ⟨plain.1, fun s member => by simp [plain.2] at member⟩

/-- Terms of made schemas under distinct names. -/
structure Call.Made (joins : List Value → List Value → Prop) (c : Call) : Prop where
  args : ∀ t ∈ c.args, t.Made joins
  options : ∀ o ∈ c.options, o.2.Made joins
  distinct : (c.options.map Prod.fst).Nodup

namespace Call.Made

variable {c : Call}

theorem assign (made : c.Made joins) {params : List Param} (plain : params.all Param.isPlain)
    {args : List Term} (each : ∀ t ∈ args, t.Made joins) :
    Delivers (fun ts => ∀ t ∈ ts, Term.Made joins t) (c.assign params args) := by
  induction params generalizing args with
  | nil =>
      cases args with
      | nil => exact .pure (List.forall_mem_nil _)
      | cons t args => exact .error _
  | cons p params ih =>
      rw [List.all_cons, Bool.and_eq_true] at plain
      cases args with
      | cons t args =>
          obtain ⟨here, rest⟩ := List.forall_mem_cons.mp each
          rw [Call.assign]
          split
          · exact .error _
          · exact (ih plain.2 rest).bind fun ts others => .pure (List.forall_mem_cons.mpr ⟨here, others⟩)
      | nil =>
          rw [Call.assign]
          split
          · rename_i t given
            have here : Term.Made joins t := by
              cases named : c.options.lookup p.name with
              | none =>
                  rw [named] at given
                  exact Param.isPlain.made plain.1 given
              | some u =>
                  rw [named] at given
                  obtain rfl := Option.some.inj given
                  obtain ⟨before, after, split, -⟩ := List.lookup_eq_some_iff.mp named
                  exact made.options (p.name, u) (by simp [split])
            exact (ih plain.2 (List.forall_mem_nil _)).bind fun ts others => .pure (List.forall_mem_cons.mpr ⟨here, others⟩)
          · exact .error _

theorem bind (made : c.Made joins) {params : List Param} (plain : params.all Param.isPlain) :
    Delivers (fun ts => ∀ t ∈ ts, Term.Made joins t) (c.bind params) := by
  unfold Call.bind
  simp only
  split
  · exact .error _
  · exact made.assign plain made.args

theorem bindOne (made : c.Made joins) {p : Param} (plain : p.isPlain) : Delivers (Term.Made joins) (c.bindOne p) := by
  have all : [p].all Param.isPlain := by simp [plain]
  refine (made.bind all).bind fun ts each => ?_
  split
  · exact .pure (each _ (by simp))
  · exact .error _

theorem bindTwo (made : c.Made joins) {p q : Param} (first : p.isPlain) (second : q.isPlain) :
    Delivers (fun ts : Term × Term => ts.1.Made joins ∧ ts.2.Made joins) (c.bindTwo p q) := by
  have all : [p, q].all Param.isPlain := by simp [first, second]
  refine (made.bind all).bind fun ts each => ?_
  split
  · exact .pure ⟨each _ (by simp), each _ (by simp)⟩
  · exact .error _

theorem bindMany (made : c.Made joins) : Delivers (fun ts => ∀ t ∈ ts, Term.Made joins t) c.bindMany := by
  unfold Call.bindMany
  split
  · exact .error _
  · exact .pure made.args

theorem bindNamed (made : c.Made joins) : Delivers (fun o => (o.map Prod.fst).Nodup) c.bindNamed := by
  unfold Call.bindNamed
  split
  · exact .error _
  · refine .pure ?_
    have names : (c.options.map fun o => ((.str o.1, Term.toValue o.2) : Value × Value)).map Prod.fst =
        (c.options.map Prod.fst).map Datum.str := by simp [Function.comp_def]
    rw [names]
    exact List.Pairwise.map _ (fun _ _ different same => different (Datum.str.inj same)) made.distinct

end Call.Made

/-! ## Calls -/

/-- Whether the objects that a call merges, if it does, declare keys that may be joined. -/
def Call.Joins (joins : List Value → List Value → Prop) (s : Schema) (c : Call) : Prop :=
  c.name = "concat" → ∀ t, c.bindOne { name := "source" } = .ok t → s.Joins joins t

namespace Script

variable {s : Schema} {c : Call}

theorem limitRule_made (made : s.Made joins) (call : c.Made joins) (rule : RuleName) (param : String) :
    Delivers (Schema.Made joins) (limitRule s rule param c) :=
  (call.bindOne (by rfl)).bind fun _ term =>
    made.addRule rule (List.forall_mem_singleton.mpr (Term.Made.readable term))

theorem pairRule_made (made : s.Made joins) (call : c.Made joins) (rule : RuleName) (param other : String) :
    Delivers (Schema.Made joins) (do
      let (t, u) ← c.bindTwo { name := param } { name := other, default := some .null }
      s.addRule rule [(param, t), (other, u)]) :=
  (call.bindTwo (by rfl) (by rfl)).bind fun _ terms => made.addRule rule
    (List.forall_mem_cons.mpr ⟨Term.Made.readable terms.1, List.forall_mem_singleton.mpr (Term.Made.readable terms.2)⟩)

theorem change_made (made : s.Made joins) {α : Type} {x : Except Fault α} {f : α → Core → Core}
    (agrees : ∀ a (core : Core), core.Agrees (f a core)) : Delivers (Schema.Made joins) (x >>= fun a => s.change (f a)) :=
  (Delivers.any _).bind fun a _ => made.set (agrees a)

theorem common?_made (made : s.Made joins) (call : c.Made joins) (joined : c.Joins joins s) {x : Except Fault Schema}
    (is : common? s c = some x) : Delivers (Schema.Made joins) x := by
  unfold common? at is
  -- The cases are those of the names, in the order in which they are told apart.
  split at is <;> cases is
  · exact (Delivers.any _).bind fun ts _ => made.allow ts
  iterate 2 exact (Delivers.any _).bind fun ts _ => made.valid ts
  iterate 3 exact (Delivers.any _).bind fun ts _ => made.deny ts
  · exact (Delivers.any _).bind fun b _ => made.only b
  · exact (Delivers.any _).bind fun t _ => made.presence t
  iterate 4 exact change_made made fun _ _ => ⟨rfl, rfl, rfl, rfl⟩
  iterate 2 exact (Delivers.any _).bind fun t _ => change_made made fun _ _ => ⟨rfl, rfl, rfl, rfl⟩
  · exact (call.bindOne (by rfl)).bind fun _ term => made.empty term
  · exact (Delivers.any _).bind fun t _ => made.error t
  · exact (Delivers.any _).bind fun t _ => made.label t
  · exact (Delivers.any _).bind fun t _ => made.cast t
  iterate 2 exact change_made made fun _ _ => ⟨rfl, rfl, rfl, rfl⟩
  iterate 2 exact call.bindNamed.bind fun _ distinct => made.prefs distinct
  · exact change_made made fun _ _ => ⟨rfl, rfl, rfl, rfl⟩
  · exact (Delivers.any _).bind fun t _ => made.external t
  · exact limitRule_made made call _ _
  · exact pairRule_made made call _ _ _
  · exact (Delivers.any _).bind fun ts _ => made.rule ts.1 ts.2
  · exact (Delivers.any _).bind fun _ _ => made.rule _ _
  · exact (Delivers.any _).bind fun _ _ => made.rule _ _
  · rename_i name
    have bound : Delivers (fun t => c.bindOne { name := "source" } = .ok t ∧ t.Made joins) (c.bindOne { name := "source" }) :=
      fun t runs => ⟨runs, call.bindOne (by rfl) t runs⟩
    exact bound.bind fun t term => made.concat term.2 (joined name t term.1)
  · exact change_made made fun _ _ => ⟨rfl, rfl, rfl, rfl⟩

theorem numberCall_made (made : s.Made joins) (call : c.Made joins) : Delivers (Schema.Made joins) (numberCall s c) := by
  have readable : ∀ g ∈ [("limit", (.int 0 : Term))], Term.Readable g.2 := List.forall_mem_singleton.mpr nofun
  unfold numberCall
  split
  iterate 5 exact limitRule_made made call _ _
  · exact (Delivers.any _).bind fun _ _ => made.addRule _ (List.forall_mem_nil _)
  iterate 2 exact (Delivers.any _).bind fun _ _ => made.addRule _ readable
  · exact .error _

theorem lengthCall_made (made : s.Made joins) (call : c.Made joins) : Delivers (Schema.Made joins) (lengthCall s c) := by
  unfold lengthCall
  split
  iterate 3 exact limitRule_made made call _ _
  · exact .error _

theorem stringCall_made (made : s.Made joins) (call : c.Made joins) : Delivers (Schema.Made joins) (stringCall s c) := by
  have readable : ∀ text, ∀ g ∈ [("direction", (.str text : Term))], Term.Readable g.2 := fun text =>
    List.forall_mem_singleton.mpr nofun
  unfold stringCall
  split
  iterate 2
    refine (call.bind (by rfl)).bind fun ts each => ?_
    split
    · exact made.pattern (each _ (by simp)).readable (each _ (by simp)).readable (each _ (by simp)).readable
    · exact .error _
  · exact (call.bindOne (by rfl)).bind fun _ term =>
      made.addRule _ (List.forall_mem_singleton.mpr (Term.Made.readable term))
  · exact limitRule_made made call _ _
  iterate 2 exact (Delivers.any _).bind fun _ _ => made.addRule _ (readable _)
  · exact change_made made fun _ _ => ⟨rfl, rfl, rfl, rfl⟩
  · exact lengthCall_made made call

theorem booleanCall_made (made : s.Made joins) : Delivers (Schema.Made joins) (booleanCall s c) := by
  unfold booleanCall
  split
  · exact (Delivers.any _).bind fun ts _ => made.truthy ts
  · exact (Delivers.any _).bind fun ts _ => made.falsy ts
  · exact change_made made fun _ _ => ⟨rfl, rfl, rfl, rfl⟩
  · exact .error _

theorem arrayCall_made (made : s.Made joins) (call : c.Made joins) : Delivers (Schema.Made joins) (arrayCall s c) := by
  unfold arrayCall
  split
  · exact call.bindMany.bind fun _ each => made.items each
  · exact lengthCall_made made call

theorem objectCall_made (made : s.Made joins) (call : c.Made joins) : Delivers (Schema.Made joins) (objectCall s c) := by
  unfold objectCall
  split
  · exact (call.bindOne (by rfl)).bind fun _ term => made.keys term
  · exact (call.bindOne (by rfl)).bind fun _ term => made.extend term
  · exact change_made made fun _ _ => ⟨rfl, rfl, rfl, rfl⟩
  · exact .error _

theorem alternativesCall_made (made : s.Made joins) (call : c.Made joins) :
    Delivers (Schema.Made joins) (alternativesCall s c) := by
  unfold alternativesCall
  split
  · exact call.bindMany.bind fun _ each => made.attempt each
  · exact (Delivers.any _).bind fun t _ => made.matchMode t
  · refine (call.bind (by rfl)).bind fun ts each => ?_
    split
    · refine made.conditional (each _ (by simp)) ⟨?_, ?_, ?_, ?_, ?_⟩ <;> exact each _ (by simp)
    · exact .error _
  · exact .error _

theorem probeCall_made (made : s.Made joins) (call : c.Made joins) : Delivers (Schema.Made joins) (probeCall s c) := by
  unfold probeCall
  split
  · exact pairRule_made made call _ _ _
  · exact .error _

theorem apply_made (made : s.Made joins) (call : c.Made joins) (joined : c.Joins joins s) : Delivers (Schema.Made joins) (apply s c) := by
  unfold apply
  split
  · exact common?_made made call joined ‹_›
  · split
    · exact .error _
    · exact numberCall_made made call
    · exact stringCall_made made call
    · exact booleanCall_made made
    · exact arrayCall_made made call
    · exact objectCall_made made call
    · exact alternativesCall_made made call
    · exact probeCall_made made call

theorem alternativesOf_made {terms : List Term} (each : ∀ t ∈ terms, t.Made joins) :
    Delivers (Schema.Made joins) (alternativesOf terms) := by
  have none : Schema.alternatives.Made joins := Schema.made_ofContent (.listed (List.forall_mem_nil _)) (.alternatives (List.forall_mem_nil _))
  unfold alternativesOf
  extract_lets spread
  have spreads : ∀ t ∈ spread, Term.Made joins t := by
    simp only [spread]
    split
    · exact Term.Made.list (List.forall_mem_singleton.mp each)
    · exact each
  split
  · exact .pure none
  · exact none.attempt spreads

theorem construct_made (call : c.Made joins) : Delivers (Schema.Made joins) (construct c) := by
  have empty : ∀ {content : Content}, content.layout = .plain → content.Holds joins →
      Delivers (Schema.Made joins) (c.bindNone >>= fun _ => .ok (Schema.ofContent content)) := fun layout holds =>
    (Delivers.any _).bind fun _ _ => .pure (Schema.made_ofContent (layout ▸ .plain) holds)
  unfold construct
  simp only
  split
  iterate 6 exact empty rfl ⟨nofun, nofun, nofun⟩
  · exact call.bindMany.bind fun ts each => alternativesOf_made each
  · refine (call.bindOne (by rfl)).bind fun t term => ?_
    have object : Schema.object.Made joins := Schema.made_ofContent .unkeyed ⟨nofun, nofun, nofun⟩
    unfold objectOf
    split
    · exact .pure object
    · exact object.keys term
  · exact (Delivers.any _).bind fun ts _ => Schema.made_any.valid ts
  · exact (Delivers.any _).bind fun ts _ => Schema.made_any.deny ts
  · exact (call.bindOne (by rfl)).bind fun t term => Schema.compile_made t term
  · refine (call.bindOne (by rfl)).bind fun t term => ?_
    split
    · rename_i s isSchema
      exact .pure (term.schema isSchema)
    · exact .error _
  · exact .error _

/-- Whether every merge in a chain joins keys that may be joined. -/
def Joined (joins : List Value → List Value → Prop) (calls : List Call) : Prop :=
  ∀ before c after s, calls = before ++ c :: after → run before = .ok s → c.Joins joins s

theorem Joined.trivial (calls : List Call) : Joined (fun _ _ => True) calls :=
  fun _ _ _ _ _ _ _ _ _ _ _ _ _ _ _ => .intro

theorem Joined.of_names {joins : List Value → List Value → Prop} {calls : List Call}
    (names : calls.all fun c => c.name != "concat") : Joined joins calls := by
  rintro before c after s rfl - name
  have other := List.all_eq_true.mp names c (by simp)
  simp [name] at other

theorem run_snoc {calls : List Call} (some : calls ≠ []) (c : Call) : run (calls ++ [c]) = run calls >>= (apply · c) := by
  cases calls with
  | nil => exact absurd rfl some
  | cons first calls =>
      simp only [run, List.cons_append, List.foldlM_append, List.foldlM_cons, List.foldlM_nil, bind_pure, bind_assoc]

theorem run_made {calls : List Call} (each : ∀ c ∈ calls, c.Made joins) (joined : Joined joins calls) :
    Delivers (Schema.Made joins) (run calls) := by
  induction calls using List.reverseRecOn with
  | nil => exact .error _
  | append_singleton calls c ih =>
      have call := each c (by simp)
      by_cases first : calls = []
      · subst first
        simp only [run, List.nil_append, List.foldlM_nil]
        exact (construct_made call).bind fun s made => .pure made
      · rw [run_snoc first]
        have before : Delivers (Schema.Made joins) (run calls) := by
          refine ih (fun d member => each d (by simp [member])) fun front d back s split runs => ?_
          exact joined front d (back ++ [c]) s (by simp [split]) runs
        have kept : Delivers (fun s => run calls = .ok s ∧ s.Made joins) (run calls) :=
          fun s runs => ⟨runs, before s runs⟩
        exact kept.bind fun s made => apply_made made.2 call (joined calls c [] s rfl made.1)

end Script

/-! ## Allocation -/

/-- Whatever comes out has the property, from any number on. -/
def Allots {α : Type} (P : α → Prop) (x : StateM Nat α) : Prop := ∀ n, P (x.run n).1

namespace Allots

variable {α β : Type} {P : α → Prop} {Q : β → Prop}

theorem pure {a : α} (holds : P a) : Allots P (Pure.pure a) := fun _ => holds

theorem bind {x : StateM Nat α} {g : α → StateM Nat β} (first : Allots P x) (then_ : ∀ a, P a → Allots Q (g a)) :
    Allots Q (x >>= g) := fun n => then_ _ (first n) _

theorem any (x : StateM Nat α) : Allots (fun _ => True) x := fun _ => trivial

end Allots

theorem Core.allocate_agrees (core : Core) : Allots core.Agrees core.allocate := by
  unfold Core.allocate
  split
  · exact (Allots.any _).bind fun _ _ => .pure ⟨rfl, rfl, rfl, rfl⟩
  · exact .pure (.refl core)

namespace Schema

mutual

theorem allocate_made : ∀ s : Schema, s.Made joins → Allots (Made joins) (allocate s)
  | .node core empty content, made => by
      obtain ⟨here, layout, parts, empties⟩ := made_node.mp made
      rw [allocate]
      refine core.allocate_agrees.bind fun c agrees => (allocateOption_made empty empties).bind fun e empty' => ?_
      refine (allocateContent_made content parts).bind fun d holds => .pure ?_
      exact made_node.mpr ⟨holds.1 ▸ here.setting agrees, holds.2.1 ▸ layout, holds.2.2, empty'.1⟩

theorem allocateContent_made : ∀ c : Content, c.Holds joins →
    Allots (fun d => d.kind = c.kind ∧ d.layout = c.layout ∧ d.Holds joins) (allocateContent c)
  | .array items, made => by
      rw [allocateContent]
      exact (allocateEach_made items (made.items items rfl)).bind fun ss each => .pure ⟨rfl, rfl, .array each⟩
  | .object none, made => by
      rw [allocateContent, allocateKeys]
      exact .pure ⟨rfl, rfl, made⟩
  | .object (some ks), made => by
      rw [allocateContent, allocateKeys]
      refine (Allots.bind (P := fun o => ∃ ls, o = some ls ∧ ls.map Prod.fst = ks.map Prod.fst ∧ ∀ e ∈ ls, Made joins e.2) ?_ ?_)
      · exact (allocateKeyList_made ks (made.keys ks rfl)).bind fun ls each => .pure ⟨ls, rfl, each⟩
      · rintro _ ⟨ls, rfl, same, each⟩
        exact .pure ⟨rfl, by simp [Content.layout, same], .object each⟩
  | .alternatives es chain mode, made => by
      rw [allocateContent]
      refine (allocateAlternatives_made es (made.entries es chain mode rfl)).bind fun fs entries => .pure ⟨rfl, ?_, ?_⟩
      · simp only [Content.layout, entries.2]
      · exact .alternatives entries.1
  | .any, made | .boolean _ _, made | .number, made | .string, made | .probe, made => by
      simp only [allocateContent]
      exact .pure ⟨rfl, rfl, made⟩

theorem allocateOption_made : ∀ o : Option Schema, (∀ s, o = some s → s.Made joins) →
    Allots (fun p => (∀ s, p = some s → Made joins s) ∧ p.isSome = o.isSome) (allocateOption o)
  | none, _ => by
      rw [allocateOption]
      exact .pure ⟨nofun, rfl⟩
  | some s, made => by
      rw [allocateOption]
      exact (allocate_made s (made s rfl)).bind fun t allocated =>
        .pure ⟨fun _ same => Option.some.inj same ▸ allocated, rfl⟩

theorem allocateEach_made : ∀ ss : List Schema, (∀ s ∈ ss, s.Made joins) →
    Allots (fun ts => ∀ t ∈ ts, Made joins t) (allocateEach ss)
  | [], _ => by
      rw [allocateEach]
      exact .pure (List.forall_mem_nil _)
  | s :: ss, made => by
      obtain ⟨here, rest⟩ := List.forall_mem_cons.mp made
      rw [allocateEach]
      exact (allocate_made s here).bind fun t allocated => (allocateEach_made ss rest).bind fun ts each =>
        .pure (List.forall_mem_cons.mpr ⟨allocated, each⟩)

theorem allocateKeyList_made : ∀ ks : List (Value × Schema), (∀ e ∈ ks, e.2.Made joins) →
    Allots (fun ls => ls.map Prod.fst = ks.map Prod.fst ∧ ∀ e ∈ ls, Made joins e.2) (allocateKeyList ks)
  | [], _ => by
      rw [allocateKeyList]
      exact .pure ⟨rfl, List.forall_mem_nil _⟩
  | (k, s) :: ks, made => by
      obtain ⟨here, rest⟩ := List.forall_mem_cons.mp made
      rw [allocateKeyList]
      refine (allocate_made s here).bind fun t allocated => (allocateKeyList_made ks rest).bind fun ls each => .pure ⟨?_, ?_⟩
      · exact congrArg (k :: ·) each.1
      · exact List.forall_mem_cons.mpr ⟨allocated, each.2⟩

theorem allocateAlternatives_made : ∀ es : List Alternative, (∀ e ∈ es, e.Made joins) →
    Allots (fun fs => (∀ e ∈ fs, Alternative.Made joins e) ∧ fs.map Alternative.slot = es.map Alternative.slot)
      (allocateAlternatives es)
  | [], _ => by
      rw [allocateAlternatives]
      exact .pure ⟨List.forall_mem_nil _, rfl⟩
  | .attempt s :: es, made => by
      obtain ⟨here, rest⟩ := List.forall_mem_cons.mp made
      rw [allocateAlternatives]
      refine (allocate_made s here).bind fun t allocated => (allocateAlternatives_made es rest).bind fun fs entries => .pure ?_
      exact ⟨List.forall_mem_cons.mpr ⟨allocated, entries.1⟩, congrArg (Slot.attempt :: ·) entries.2⟩
  | .conditional subject bs fromSwitch :: es, made => by
      obtain ⟨here, rest⟩ := List.forall_mem_cons.mp made
      rw [allocateAlternatives]
      refine (allocateBranches_made bs here).bind fun cs branches =>
        (allocateAlternatives_made es rest).bind fun fs entries => .pure ⟨?_, ?_⟩
      · exact List.forall_mem_cons.mpr ⟨branches.1, entries.1⟩
      · simp only [List.map_cons, Alternative.slot, branches.2, entries.2]

theorem allocateBranches_made : ∀ bs : List Branch, (∀ b ∈ bs, b.Made joins) →
    Allots (fun cs => (∀ b ∈ cs, Branch.Made joins b) ∧ cs.map Branch.outcomes = bs.map Branch.outcomes)
      (allocateBranches bs)
  | [], _ => by
      rw [allocateBranches]
      exact .pure ⟨List.forall_mem_nil _, rfl⟩
  | .mk test yes no :: bs, made => by
      obtain ⟨⟨tests, matches_, misses⟩, rest⟩ := List.forall_mem_cons.mp made
      rw [allocateBranches]
      refine (allocate_made test tests).bind fun test' testing => (allocateOption_made yes matches_).bind fun yes' onMatch =>
        (allocateOption_made no misses).bind fun no' onMiss => (allocateBranches_made bs rest).bind fun cs branches => .pure ⟨?_, ?_⟩
      · exact List.forall_mem_cons.mpr ⟨⟨testing, onMatch.1, onMiss.1⟩, branches.1⟩
      · have same : Branch.outcomes (.mk test' yes' no') = Branch.outcomes (.mk test yes no) :=
          Prod.ext onMatch.2 onMiss.2
        rw [List.map_cons, List.map_cons, same, branches.2]

end

end Schema

/-! ## Built schemas -/

namespace Call

/-- The terms that a call is given. -/
def terms (c : Call) : List Term := c.args ++ c.options.map Prod.snd

end Call

/-- A schema that a chain of calls gives, with proper terms of schemas built before, and with tables for its
caches as they are allocated. -/
inductive Schema.Built : Schema → Prop
  | chain {calls : List Call} {s : Schema} (distinct : ∀ c ∈ calls, (c.options.map Prod.fst).Nodup)
      (proper : ∀ c ∈ calls, ∀ t ∈ c.terms, t.isProper)
      (before : ∀ c ∈ calls, ∀ t ∈ c.terms, ∀ u ∈ t.schemas, Built u) (runs : Script.run calls = .ok s) : Built s
  | allocated {s : Schema} (built : Built s) (n : Nat) : Built (s.allocate.run n).1

/-- A built schema all of whose merges join keys that may be joined. -/
inductive Schema.BuiltBy (joins : List Value → List Value → Prop) : Schema → Prop
  | chain {calls : List Call} {s : Schema} (distinct : ∀ c ∈ calls, (c.options.map Prod.fst).Nodup)
      (proper : ∀ c ∈ calls, ∀ t ∈ c.terms, t.isProper)
      (before : ∀ c ∈ calls, ∀ t ∈ c.terms, ∀ u ∈ t.schemas, BuiltBy joins u) (joined : Script.Joined joins calls)
      (runs : Script.run calls = .ok s) : BuiltBy joins s
  | allocated {s : Schema} (built : BuiltBy joins s) (n : Nat) : BuiltBy joins (s.allocate.run n).1

theorem Schema.BuiltBy.made {s : Schema} (built : s.BuiltBy joins) : s.Made joins := by
  induction built with
  | chain distinct proper before joined runs made =>
      refine Script.run_made (fun c member => ⟨fun t given => ?_, fun o given => ?_, distinct c member⟩) joined _ runs
      · have inside : t ∈ c.terms := List.mem_append_left _ given
        exact ⟨proper c member t inside, made c member t inside⟩
      · have inside : o.2 ∈ c.terms := List.mem_append_right _ (List.mem_map_of_mem given)
        exact ⟨proper c member _ inside, made c member _ inside⟩
  | allocated built n made => exact allocate_made _ made n

theorem Schema.Built.builtBy {s : Schema} (built : s.Built) : s.BuiltBy fun _ _ => True := by
  induction built with
  | chain distinct proper before runs ih =>
      exact .chain distinct proper ih (.trivial _) runs
  | allocated built n ih => exact ih.allocated n

theorem Schema.Built.made {s : Schema} (built : s.Built) : s.Made fun _ _ => True := built.builtBy.made

theorem Schema.BuiltBy.built {s : Schema} (built : s.BuiltBy joins) : s.Built := by
  induction built with
  | chain distinct proper _ _ runs ih => exact .chain distinct proper ih runs
  | allocated _ n ih => exact ih.allocated n

/-- What is to be shown of a chain, with the schemas in its terms in one list. -/
theorem Schema.BuiltBy.of_run {calls : List Call} {s : Schema} (runs : Script.run calls = .ok s)
    (joined : Script.Joined joins calls) (proper : calls.all fun c => c.terms.all Term.isProper)
    (before : ∀ u ∈ calls.flatMap fun c => c.terms.flatMap Term.schemas, u.BuiltBy joins)
    (distinct : ∀ c ∈ calls, (c.options.map Prod.fst).Nodup := by simp) : s.BuiltBy joins := by
  refine .chain distinct (fun c call t given => ?_) (fun c call t given u inside => before u ?_) joined runs
  · exact List.all_eq_true.mp (List.all_eq_true.mp proper c call) t given
  · exact List.mem_flatMap.mpr ⟨c, call, List.mem_flatMap.mpr ⟨t, given, inside⟩⟩

theorem Schema.Built.of_run {calls : List Call} {s : Schema} (runs : Script.run calls = .ok s)
    (proper : calls.all fun c => c.terms.all Term.isProper)
    (before : ∀ u ∈ calls.flatMap fun c => c.terms.flatMap Term.schemas, u.Built)
    (distinct : ∀ c ∈ calls, (c.options.map Prod.fst).Nodup := by simp) : s.Built :=
  (BuiltBy.of_run runs (.trivial calls) proper (fun u member => (before u member).builtBy) distinct).built

theorem number_built : Schema.number.Built := by
  have runs : Script.run [{ name := "number" }] = .ok .number := rfl
  exact .of_run runs rfl (List.forall_mem_nil _)

theorem string_built : Schema.string.Built := by
  have runs : Script.run [{ name := "string" }] = .ok .string := rfl
  exact .of_run runs rfl (List.forall_mem_nil _)

end Conform
