import Conform.Proofs.Schema.Formed

/-!
# The steps by which nodes are made

Every builder makes a node from nodes that were made before. What it does to the settings is one of a few steps,
and so is what it does to the layout of the content: the declared keys of an object, or the coverage of
alternatives. What each of these steps keeps holds of every node that can be built.
-/

namespace Conform

/-! ## Settings -/

/-- Settings that differ at most in what the builders take as it is given. -/
structure Core.Agrees (c d : Core) : Prop where
  allowed : d.allowed = c.allowed
  denied : d.denied = c.denied
  rules : d.rules = c.rules
  prefs : d.prefs = c.prefs

theorem Core.Agrees.refl (c : Core) : c.Agrees c := ⟨rfl, rfl, rfl, rfl⟩

theorem Core.renewed_agrees (c : Core) : Delivers c.Agrees c.renewed := by
  unfold Core.renewed
  split
  · exact .pure (.refl c)
  · exact (Delivers.any _).bind fun _ _ => .pure ⟨rfl, rfl, rfl, rfl⟩

theorem Core.allow_keeps {c d : Core} {terms : List Term} (runs : c.allow terms = .ok d) :
    d.rules = c.rules ∧ d.prefs = c.prefs := by
  obtain ⟨_, _, runs⟩ := bind_eq_ok.mp runs
  exact Except.ok.inj runs ▸ ⟨rfl, rfl⟩

theorem Core.deny_keeps {c d : Core} {terms : List Term} (runs : c.deny terms = .ok d) :
    d.rules = c.rules ∧ d.prefs = c.prefs := by
  obtain ⟨_, _, runs⟩ := bind_eq_ok.mp runs
  exact Except.ok.inj runs ▸ ⟨rfl, rfl⟩

theorem Schema.mergeCore_rules {kind : Kind} {own source c : Core} (runs : Schema.mergeCore kind own source = .ok c) :
    c.rules = Schema.mergeRules kind own.rules source.rules := by
  obtain ⟨renewed, ran, runs⟩ := bind_eq_ok.mp runs
  obtain ⟨_, -, runs⟩ := bind_eq_ok.mp runs
  obtain ⟨_, -, runs⟩ := bind_eq_ok.mp runs
  obtain rfl := Except.ok.inj runs
  rw [← (Core.renewed_agrees own renewed ran).rules]

/-- The settings that nodes of a type can get. -/
inductive Core.Made : Kind → Core → Prop
  | bare {kind : Kind} : Made kind {}
  | setting {kind : Kind} {c d : Core} (made : Made kind c) (agrees : c.Agrees d) : Made kind d
  | allow {kind : Kind} {c d : Core} {terms : List Term} (made : Made kind c) (runs : c.allow terms = .ok d) : Made kind d
  | deny {kind : Kind} {c d : Core} {terms : List Term} (made : Made kind c) (runs : c.deny terms = .ok d) : Made kind d
  | prefs {kind : Kind} {c : Core} {options : Dict} (made : Made kind c) (distinct : (options.map Prod.fst).Nodup)
      (context : Datum.hasKey (.str "context") options = false)
      (externals : Datum.hasKey (.str "externals") options = false) (checked : Preferences.check options = .ok ()) :
      Made kind { c with prefs := some (Datum.mergeEntries (c.prefs.getD []) options) }
  | rule {kind : Kind} {c : Core} {name : RuleName} {spec : RuleSpec} {given : List (String × Term)} {e : RuleEntry}
      (made : Made kind c) (known : kind.rule? name = some spec) (readable : ∀ g ∈ given, g.2.Readable)
      (entry : Schema.ruleEntry spec given = .ok e) : Made kind { c with rules := Schema.putRule spec e c.rules }
  | amend {kind : Kind} {c : Core} {r : RuleEntry} (made : Made kind c) (last : c.rules.getLast? = some r)
      (warn message : Value) :
      Made kind { c with rules := c.rules.dropLast ++ [{ r with warn := warn, message := message }] }
  | merge {kind other : Kind} {own source c : Core} (first : Made kind own) (second : Made other source)
      (fits : kind = other ∨ other = .any) (runs : Schema.mergeCore kind own source = .ok c) : Made kind c

/-! ## Contents -/

/-- An entry of alternatives as a chain sees it: an attempt, or which outcomes the branches dispatch, those of a
match and those of a miss. -/
inductive Slot where
  | attempt
  | branches (bs : List (Bool × Bool))

namespace Slot

def coverage : Slot → Coverage
  | attempt => .attempt
  | branches bs =>
    if bs.any fun b => b.1 && b.2 then .both else if bs.any Prod.snd then .onMiss else .onMatch

/-- Only the last branch says what happens on a miss. -/
def Tapered : Slot → Prop
  | attempt => True
  | branches bs => ∀ b ∈ bs.dropLast, b.2 = false

end Slot

/-- What the builders of contents check: the keys of an object, or the entries of alternatives with their chain
state and mode. -/
inductive Layout where
  | plain
  | keys (declared : Option (List Value))
  | entries (slots : List Slot) (chain : ChainState) (mode : Option MatchMode)

def Branch.outcomes (b : Branch) : Bool × Bool := (b.onMatch.isSome, b.onMiss.isSome)

def Alternative.slot : Alternative → Slot
  | attempt _ => .attempt
  | conditional _ bs _ => .branches (bs.map Branch.outcomes)

theorem Alternative.coverage_slot (e : Alternative) : e.slot.coverage = e.coverage := by
  cases e with
  | attempt s => rfl
  | conditional subject bs fromSwitch => simp [slot, Slot.coverage, coverage, branchCoverage, Branch.outcomes, Function.comp_def]

theorem Alternative.slot_attempt {e : Alternative} : e.slot = .attempt ↔ e.isAttempt := by
  cases e <;> simp [slot, isAttempt]

def Content.layout : Content → Layout
  | object ks => .keys (ks.map fun ks => ks.map Prod.fst)
  | alternatives es chain mode => .entries (es.map Alternative.slot) chain mode
  | _ => .plain

/-- The keys after one more is declared. -/
def Layout.declare (key : Value) (declared : List Value) : List Value :=
  declared.filter (fun k => !Schema.redeclares key k) ++ [key]

theorem Schema.keys_declare (key : Value) (child : Schema) (ks : List (Value × Schema)) :
    (declare key child ks).map Prod.fst = Layout.declare key (ks.map Prod.fst) := by
  simp [declare, Layout.declare, List.filter_map, Function.comp_def]

/-- The layouts that contents can get, where the declared keys of merged objects are in a relation. -/
inductive Layout.Made (joins : List Value → List Value → Prop) : Layout → Prop
  | plain : Made joins .plain
  | unkeyed : Made joins (.keys none)
  | keyless : Made joins (.keys (some []))
  | declare {key : Value} {declared : List Value} (made : Made joins (.keys (some declared))) (hashable : key.isHashable) :
      Made joins (.keys (some (Layout.declare key declared)))
  | merged {own source : List Value} (first : Made joins (.keys (some own))) (second : Made joins (.keys (some source)))
      (joined : joins own source) : Made joins (.keys (some (own ++ source)))
  | listed {slots : List Slot} (attempts : ∀ e ∈ slots, e = .attempt) : Made joins (.entries slots .isOpen none)
  | append {slots : List Slot} {e : Slot} {chain chain' : ChainState} {mode : Option MatchMode}
      (made : Made joins (.entries slots chain mode)) (tapered : e.Tapered)
      (advances : chain.advance e.coverage = .ok chain') (counts : mode.isSome → e = .attempt) :
      Made joins (.entries (slots ++ [e]) chain' mode)
  | mode {slots : List Slot} {chain : ChainState} {old : Option MatchMode} (made : Made joins (.entries slots chain old))
      (mode : Option MatchMode) (counts : mode.isSome → ∀ e ∈ slots, e = .attempt) :
      Made joins (.entries slots chain mode)
  | concat {own source : List Slot} {chain chain' chain'' : ChainState} {mode mode' : Option MatchMode}
      (first : Made joins (.entries own chain mode)) (second : Made joins (.entries source chain' mode'))
      (advances : source.foldlM (fun s e => s.advance e.coverage) chain = .ok chain'')
      (counts : (mode' <|> mode).isSome → ∀ e ∈ own ++ source, e = .attempt) :
      Made joins (.entries (own ++ source) chain'' (mode' <|> mode))

/-! ## Nodes -/

variable {joins : List Value → List Value → Prop}

namespace Schema

/-- A schema of nodes that can be made. -/
def Made (joins : List Value → List Value → Prop) (s : Schema) : Prop :=
  ∀ t, s.Below t → t.core.Made t.kind ∧ t.content.layout.Made joins

end Schema

def Branch.Made (joins : List Value → List Value → Prop) (b : Branch) : Prop :=
  b.test.Made joins ∧ (∀ s, b.onMatch = some s → s.Made joins) ∧ ∀ s, b.onMiss = some s → s.Made joins

def Alternative.Made (joins : List Value → List Value → Prop) : Alternative → Prop
  | .attempt s => s.Made joins
  | .conditional _ bs _ => ∀ b ∈ bs, b.Made joins

/-- The schemas in a content. -/
structure Content.Holds (joins : List Value → List Value → Prop) (c : Content) : Prop where
  items : ∀ ss, c = .array ss → ∀ s ∈ ss, s.Made joins
  keys : ∀ ks, c = .object (some ks) → ∀ e ∈ ks, e.2.Made joins
  entries : ∀ es chain mode, c = .alternatives es chain mode → ∀ e ∈ es, e.Made joins

namespace Schema

variable {s t : Schema} {core : Core} {empty : Option Schema} {content : Content}

theorem made_iff : s.Made joins ↔
    (s.core.Made s.kind ∧ s.content.layout.Made joins) ∧ ∀ role t, s.Part role t → t.Made joins := by
  constructor
  · exact fun all => ⟨all s (Below.self s), fun role t part u below => all u (part.below below)⟩
  · rintro ⟨here, parts⟩ t below
    rcases Relation.ReflTransGen.cases_head below with rfl | ⟨u, ⟨role, part⟩, rest⟩
    · exact here
    · exact parts role u part t rest

theorem made_node : (node core empty content).Made joins ↔
    core.Made content.kind ∧ content.layout.Made joins ∧ content.Holds joins ∧ ∀ e, empty = some e → e.Made joins := by
  rw [made_iff]
  constructor
  · rintro ⟨⟨here, layout⟩, parts⟩
    refine ⟨here, layout, ⟨?_, ?_, ?_⟩, fun e is => ?_⟩
    · rintro ss rfl s member
      exact parts (.item 0) s (.item 0 member)
    · rintro ks rfl ⟨k, s⟩ member
      exact parts (.key k) s (.key member)
    · rintro es chain mode rfl e member
      cases e with
      | attempt s => exact parts .entry s (.attempt member)
      | conditional subject bs fromSwitch =>
          rintro ⟨test, yes, no⟩ branch
          refine ⟨parts .test test (.test member branch), fun s is => ?_, fun s is => ?_⟩
          · obtain rfl : yes = some s := is
            exact parts .entry s (.onMatch member branch)
          · obtain rfl : no = some s := is
            exact parts .entry s (.onMiss member branch)
    · subst is
      exact parts .empty e .empty
  · rintro ⟨here, layout, ⟨items, keys, entries⟩, empties⟩
    refine ⟨⟨here, layout⟩, fun role t part => ?_⟩
    cases part with
    | empty => exact empties _ rfl
    | item i member => exact items _ rfl t member
    | key member => exact keys _ rfl _ member
    | attempt member => exact entries _ _ _ rfl _ member
    | test entry member => exact (entries _ _ _ rfl _ entry _ member).1
    | onMatch entry member => exact (entries _ _ _ rfl _ entry _ member).2.1 t rfl
    | onMiss entry member => exact (entries _ _ _ rfl _ entry _ member).2.2 t rfl

/-! ## Builders of settings -/

theorem Made.parts (made : s.Made joins) : s.core.Made s.kind ∧ s.content.layout.Made joins ∧ s.content.Holds joins ∧
    ∀ e, s.empty? = some e → e.Made joins := by
  obtain ⟨core, empty, content⟩ := s
  exact made_node.mp made

theorem Made.change? (made : s.Made joins) {f : Core → Except Fault Core}
    (keeps : ∀ c : Core, c.Made s.kind → Delivers (Core.Made s.kind) (f c)) : Delivers (Made joins) (s.change? f) := by
  obtain ⟨core, layout, content, empty⟩ := made.parts
  refine s.core.renewed_agrees.bind fun c agrees => (keeps c (core.setting agrees)).bind fun d changed => .pure ?_
  exact made_node.mpr ⟨changed, layout, content, empty⟩

theorem Made.change (made : s.Made joins) {f : Core → Core} (keeps : ∀ c : Core, c.Made s.kind → (f c).Made s.kind) :
    Delivers (Made joins) (s.change f) :=
  made.change? fun c here => .pure (keeps c here)

theorem Made.set (made : s.Made joins) {f : Core → Core} (agrees : ∀ c : Core, c.Agrees (f c)) :
    Delivers (Made joins) (s.change f) :=
  made.change fun c here => here.setting (agrees c)

theorem Made.withContent? (made : s.Made joins) {x : Except Fault Content}
    (content : Delivers (fun c => c.kind = s.kind ∧ c.layout.Made joins ∧ c.Holds joins) x) :
    Delivers (Made joins) (s.withContent? x) := by
  obtain ⟨core, -, -, empty⟩ := made.parts
  refine s.core.renewed_agrees.bind fun c agrees => content.bind fun d holds => .pure (made_node.mpr ?_)
  exact ⟨holds.1 ▸ core.setting agrees, holds.2.1, holds.2.2, empty⟩

theorem Made.withContent (made : s.Made joins) {c : Content} (kind : c.kind = s.kind) (layout : c.layout.Made joins)
    (holds : c.Holds joins) : Delivers (Made joins) (s.withContent c) :=
  made.withContent? (.pure ⟨kind, layout, holds⟩)

theorem Made.withEmpty (made : s.Made joins) {o : Option Schema} (empty : ∀ e, o = some e → e.Made joins) :
    Delivers (Made joins) (s.withEmpty o) := by
  obtain ⟨core, layout, content, -⟩ := made.parts
  refine s.core.renewed_agrees.bind fun c agrees => .pure (made_node.mpr ?_)
  exact ⟨core.setting agrees, layout, content, empty⟩

theorem Made.allow (made : s.Made joins) (terms : List Term) : Delivers (Made joins) (s.allow terms) :=
  made.change? fun _ here _ runs => here.allow runs

theorem Made.deny (made : s.Made joins) (terms : List Term) : Delivers (Made joins) (s.deny terms) :=
  made.change? fun _ here _ runs => here.deny runs

theorem Made.only (made : s.Made joins) (enabled : Bool) : Delivers (Made joins) (s.only enabled) :=
  made.set fun _ => ⟨rfl, rfl, rfl, rfl⟩

theorem Made.valid (made : s.Made joins) (terms : List Term) : Delivers (Made joins) (s.valid terms) :=
  .require fun _ => (made.allow terms).bind fun _ allowed => allowed.only true

theorem Made.withPresence (made : s.Made joins) (p : Presence) : Delivers (Made joins) (s.withPresence p) :=
  made.set fun _ => ⟨rfl, rfl, rfl, rfl⟩

theorem Made.presence (made : s.Made joins) (mode : Term) : Delivers (Made joins) (s.presence mode) := by
  unfold Schema.presence
  split
  · exact made.withPresence _
  · exact .error _

theorem Made.error (made : s.Made joins) (t : Term) : Delivers (Made joins) (s.error t) := by
  unfold Schema.error
  split
  · exact made.set fun _ => ⟨rfl, rfl, rfl, rfl⟩
  · exact made.set fun _ => ⟨rfl, rfl, rfl, rfl⟩
  · exact .error _

theorem Made.cast (made : s.Made joins) (form : Term) : Delivers (Made joins) (s.cast form) := by
  unfold Schema.cast
  split
  · exact made.set fun _ => ⟨rfl, rfl, rfl, rfl⟩
  · split
    · exact made.set fun _ => ⟨rfl, rfl, rfl, rfl⟩
    · exact .error _
  · split <;> exact .error _

theorem Made.external (made : s.Made joins) (t : Term) : Delivers (Made joins) (s.external t) := by
  unfold Schema.external
  split
  · exact made.set fun _ => ⟨rfl, rfl, rfl, rfl⟩
  · exact .error _

theorem Made.prefs (made : s.Made joins) {options : Dict} (distinct : (options.map Prod.fst).Nodup) :
    Delivers (Made joins) (s.prefs options) := by
  refine .require fun context => .require fun externals => .require fun _ => ?_
  cases checked : Preferences.check options with
  | error f => exact .error f
  | ok u =>
      exact made.change fun c here => here.prefs distinct (by simpa using context) (by simpa using externals) checked

theorem Made.addRule (made : s.Made joins) (name : RuleName) {given : List (String × Term)}
    (readable : ∀ g ∈ given, g.2.Readable) : Delivers (Made joins) (s.addRule name given) := by
  unfold Schema.addRule
  cases known : s.kind.rule? name with
  | none => exact .error _
  | some spec =>
      have entered : Delivers (fun e => ruleEntry spec given = .ok e) (ruleEntry spec given) := fun _ same => same
      exact entered.bind fun e entry => made.change fun c here => here.rule known readable entry

theorem Made.rule (made : s.Made joins) (warn message : Term) : Delivers (Made joins) (s.rule warn message) := by
  refine .require fun _ => made.change fun c here => ?_
  simp only
  split
  · rename_i r last
    exact here.amend last _ _
  · rename_i ruleless
    exact here.setting ⟨rfl, rfl, (List.getLast?_eq_none_iff.mp ruleless).symm, rfl⟩

theorem Made.pattern (made : s.Made joins) {regex name invert : Term} (readable : regex.Readable)
    (named : name.Readable) (inverted : invert.Readable) : Delivers (Made joins) (s.pattern regex name invert) := by
  have added : ∀ t : Term, t.Readable →
      Delivers (Made joins) (s.addRule .pattern [("regex", t), ("name", name), ("invert", invert)]) := by
    intro t isReadable
    refine made.addRule .pattern fun g member => ?_
    simp only [List.mem_cons, List.not_mem_nil, or_false] at member
    rcases member with rfl | rfl | rfl
    · exact isReadable
    · exact named
    · exact inverted
  unfold Schema.pattern
  split
  · rename_i source
    split
    · rename_i isRead
      refine added _ fun other same => ?_
      have itself : (.leaf (.pattern source) : Value) = .leaf (.pattern other) := same
      cases itself
      exact isRead
    · exact .error _
  · exact added _ readable
  · exact .error _

/-! ## Leaves -/

theorem made_ofContent {c : Content} (layout : c.layout.Made joins) (holds : c.Holds joins) : (ofContent c).Made joins :=
  made_node.mpr ⟨.bare, layout, holds, nofun⟩

theorem made_any : any.Made joins := made_ofContent .plain ⟨nofun, nofun, nofun⟩

theorem made_string : string.Made joins := made_ofContent .plain ⟨nofun, nofun, nofun⟩

theorem Made.truths (made : s.Made joins) {t f : Option ValueSet} (content : s.content = .boolean t f)
    {x : Except Fault Content} (booleans : Delivers (fun c => ∃ t f, c = .boolean t f) x) :
    Delivers (Made joins) (s.withContent? x) := by
  refine made.withContent? (booleans.mono ?_)
  rintro _ ⟨t', f', rfl⟩
  exact ⟨by rw [Schema.kind, content]; rfl, .plain, nofun, nofun, nofun⟩

theorem Made.truthy (made : s.Made joins) (terms : List Term) : Delivers (Made joins) (s.truthy terms) := by
  unfold Schema.truthy
  split
  · rename_i t f content
    refine (Delivers.any _).bind fun _ _ => made.truths content ?_
    exact (Delivers.any _).bind fun t' _ => .pure ⟨t', f, rfl⟩
  · exact .error _

theorem Made.falsy (made : s.Made joins) (terms : List Term) : Delivers (Made joins) (s.falsy terms) := by
  unfold Schema.falsy
  split
  · rename_i t f content
    refine (Delivers.any _).bind fun _ _ => made.truths content ?_
    exact (Delivers.any _).bind fun f' _ => .pure ⟨t, f', rfl⟩
  · exact .error _

end Schema

end Conform
