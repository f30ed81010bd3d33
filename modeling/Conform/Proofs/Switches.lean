import Conform.Proofs.Dispatch
import Conform.Proofs.Schema.Formed
import Conform.Proofs.Schema.Growing

/-!
# Switches

A switch asks about one subject and goes through its items. Conditions on the same subject, one for each item, ask about
it again for each of them. As a test leaves nothing behind, the subject is the same every time, and both build nodes that
evaluate alike.
-/

namespace Conform

namespace Alternatives

variable {h : Hooks} {f : Frame} {v : Value}

/-! ## Entries -/

/-- A condition of its own for each branch. -/
def apart (subject : Option Reference) (bs : List Branch) : List Alternative := bs.map fun b => .conditional subject [b] false

theorem exec_subjectOf (subject : Option Reference) {r r' : Run} (same : r'.journal = r.journal) :
    (subjectOf h f v subject).exec r' = (((subjectOf h f v subject).exec r).1, r') := by
  cases subject with
  | none => rfl
  | some ref => simp only [subjectOf, Node.resolve, Eval.exec_bind, Eval.exec_get, Eval.andThen_ok, Eval.exec_lift, same]

theorem first_cons_congr {es fs : List AlternativeCheck} (same : ∀ issues, first h f v es issues = first h f v fs issues)
    (e : AlternativeCheck) (issues : List Issue) : first h f v (e :: es) issues = first h f v (e :: fs) issues := by
  cases e with
  | attempt e => simp only [first, same]
  | conditional subject bs => simp only [first, same]

theorem first_append_congr {es fs : List Alternative}
    (same : ∀ issues, first h f v (Schema.evalAlternatives h es) issues = first h f v (Schema.evalAlternatives h fs) issues)
    (before : List Alternative) (issues : List Issue) :
    first h f v (Schema.evalAlternatives h (before ++ es)) issues =
      first h f v (Schema.evalAlternatives h (before ++ fs)) issues := by
  induction before generalizing issues with
  | nil => exact same issues
  | cons e before ih => cases e <;> exact first_cons_congr ih _ issues

/-- The first branch of a condition may stand under one of its own: it is tested on the same subject as before, and the
others are tested where it leads nowhere. -/
theorem first_split (growing : h.Growing freely) (subject : Option Reference) (b : Branch) (bs : List Branch)
    (fromSwitch : Bool) (es : List Alternative) (issues : List Issue) :
    first h f v (Schema.evalAlternatives h (.conditional subject (b :: bs) fromSwitch :: es)) issues =
      first h f v (Schema.evalAlternatives h
        (.conditional subject [b] false :: .conditional subject bs fromSwitch :: es)) issues := by
  refine Eval.ext fun r => ?_
  have tests : (b.test.eval h).Grows := b.test.eval_grows fun t _ => growing.callsGrow t.core
  simp only [Schema.evalAlternatives, first, Eval.exec_bind]
  rw [exec_subjectOf subject rfl]
  rcases asked : ((subjectOf h f v subject).exec r).1 with fault | x
  · rfl
  · have traceless := Node.accepts_traceless tests x f.site f.prefs r
    -- The test leaves the journal as it was, so the other condition finds the subject that was tested.
    simp only [Eval.andThen_ok, choose_cons, Eval.exec_bind]
    rcases tested : (Node.accepts (b.test.eval h) x f.site f.prefs).exec r with ⟨fault | passes, r₁⟩
    · rfl
    · rw [tested] at traceless
      rw [Eval.andThen_ok, Eval.andThen_ok]
      cases leads : b.leads passes with
      | some s => rfl
      | none =>
          simp only [Schema.evalBranches, choose, Eval.exec_pure, Eval.andThen_ok, Eval.exec_bind]
          rw [exec_subjectOf subject traceless, asked, Eval.andThen_ok, Eval.exec_bind]

theorem first_apart (growing : h.Growing freely) (subject : Option Reference) {bs : List Branch} (nonempty : bs ≠ [])
    (fromSwitch : Bool) (es : List Alternative) (issues : List Issue) :
    first h f v (Schema.evalAlternatives h (.conditional subject bs fromSwitch :: es)) issues =
      first h f v (Schema.evalAlternatives h (apart subject bs ++ es)) issues := by
  induction bs generalizing issues with
  | nil => contradiction
  | cons b bs ih =>
      cases bs with
      | nil => rfl
      | cons c bs =>
          rw [first_split growing]
          exact first_cons_congr (ih (List.cons_ne_nil c bs)) _ issues

end Alternatives

/-! ## Nodes -/

variable {h : Hooks}

/-- A node may have other content that converts and answers to absence in the same way. -/
theorem Node.evaluate_content (n : Node) (c : Content) (kind : c.kind = n.content.kind)
    (converts : coerce n.core c = coerce n.core n.content)
    (presence : Node.presence { n with content := c } = Node.presence n) :
    Node.evaluate h { n with content := c } = Node.evaluate h n := by
  funext v s p
  rw [evaluate_eq, evaluate_eq]
  refine congrArg (Bind.bind _) (funext fun q => ?_)
  have framed : frame { n with content := c } v s q = frame n v s q := by
    rw [frame, kind]
    rfl
  rw [framed, settled_content n _ c (congrFun converts _) (congrFun presence _)]
  rfl

namespace Schema

/-- Entries may be exchanged for others that do the same, as long as both ask about references. -/
theorem eval_entries {core : Core} {empty : Option Schema} {es fs : List Alternative} {chain : ChainState}
    (same : ∀ f v, Alternatives.first h f v (evalAlternatives h es) [] = Alternatives.first h f v (evalAlternatives h fs) [])
    (asks : Alternative.subjects es ≠ []) (asks' : Alternative.subjects fs ≠ []) :
    (node core empty (.alternatives es chain none)).eval h = (node core empty (.alternatives fs chain none)).eval h := by
  have uncacheable : ∀ gs, Alternative.subjects gs ≠ [] →
      (node core empty (.alternatives gs chain none)).isCacheable = false := by
    intro gs asks
    simp [isCacheable, refs, contentRefs, asks]
  have based : Alternatives.base h none (evalAlternatives h es) = Alternatives.base h none (evalAlternatives h fs) := by
    funext f v
    simp only [Alternatives.base, same]
  rw [eval, eval, uncacheable es asks, uncacheable fs asks']
  simp only [evalContent, based]
  refine Node.evaluate_content ⟨core, .alternatives fs chain none, false, _, _⟩ (.alternatives es chain none) rfl rfl ?_
  funext f
  cases presence : core.presence <;> cases chain <;> simp [Node.presence, presence]

end Schema

/-! ## Builders -/

namespace Term

/-- What a dictionary has at a text. -/
def entry? (name : String) : Term → Option Term
  | .dict es => (es.find? fun e =>
      match e.1 with
      | .str s => s == name
      | _ => false).map Prod.snd
  | _ => none

/-- A reference, or the text of one. -/
inductive Names : Term → Reference → Prop
  | reference (r : Reference) : Names (.leaf (.reference r)) r
  | text {key : String} {r : Reference} (reads : Reference.ofText key = .ok r) : Names (.str key) r

end Term

namespace Schema

/-- The condition that an item of a switch stands for. -/
def Condition.ofItem (onMiss : Term) (isLast : Bool) (item : Term) : Condition where
  is := (item.entry? "is").getD .undefined
  onMatch := (item.entry? "then").getD .undefined
  onMiss := if isLast then (item.entry? "otherwise").getD onMiss else .undefined

/-- The conditions that the items of a switch stand for. -/
def Condition.ofItems (onMiss : Term) : List Term → List Condition
  | [] => []
  | item :: rest => ofItem onMiss rest.isEmpty item :: ofItems onMiss rest

def branchOf (c : Condition) : Except Fault Branch := do
  return .mk (← branchTest c.is) (← compileOption c.onMatch) (← compileOption c.onMiss)

/-- The keys that an item of a switch may have. -/
def itemKeys (isLast : Bool) : List String := if isLast then ["is", "then", "otherwise"] else ["is", "then"]

/-- An item of a switch: what is tested and what a match leads to. The last one may say what a miss leads to, unless the
switch itself does. -/
structure IsItem (onMiss : Term) (isLast : Bool) (item : Term) : Prop where
  keys : ∃ es, item = .dict es ∧ ∀ e ∈ es, ∃ name ∈ itemKeys isLast, e.1 = .str name
  is : (item.entry? "is").isSome
  onMatch : ∃ t, item.entry? "then" = some t ∧ Datum.isUndefined t = false
  once : isLast → Datum.isUndefined onMiss ∨ item.entry? "otherwise" = none

theorem compile_defined (t : Term) : Delivers (fun _ => Datum.isUndefined t = false) (compile t) := by
  cases t with
  | undefined => exact .error _
  | _ => exact (Delivers.any _).mono fun _ _ => rfl

theorem strangers_eq_nil {known : List String} {es : List (Term × Term)} :
    ((es.map Prod.fst).filter fun k =>
      match k with
      | .str s => !known.contains s
      | _ => true) = [] ↔ ∀ e ∈ es, ∃ name ∈ known, e.1 = .str name := by
  rw [List.filter_eq_nil_iff, List.forall_mem_map]
  refine forall₂_congr fun e _ => ?_
  cases e.1 <;> simp

theorem switchBranch_isItem (onMiss item : Term) (isLast : Bool) :
    Delivers (fun _ => IsItem onMiss isLast item) (switchBranch onMiss isLast item) := by
  unfold switchBranch
  split
  · rename_i es
    extract_lets known strangers find own fallback following
    split
    · exact (Delivers.any _).bind fun _ _ => .error _
    · rename_i unmet
      have familiar : strangers = [] := by simpa only [Bool.not_eq_true', Bool.not_eq_false, List.isEmpty_iff] using unmet
      have keys : ∀ e ∈ es, ∃ name ∈ itemKeys isLast, e.1 = .str name := strangers_eq_nil.mp familiar
      simp only [following]
      split
      · rename_i is isGiven
        split
        · rename_i onMatch matchGiven
          have branch := (Delivers.any (branchTest is)).bind fun test _ => (compile_defined onMatch).bind fun yes defined =>
            (Delivers.any (compileOption fallback)).bind fun no _ =>
              Delivers.pure (P := fun _ => Datum.isUndefined onMatch = false) (a := Branch.mk test (some yes) no) defined
          have item : (isLast → Datum.isUndefined onMiss ∨ Term.entry? "otherwise" (.dict es) = none) →
              Datum.isUndefined onMatch = false → IsItem onMiss isLast (.dict es) :=
            fun once defined => ⟨⟨es, rfl, keys⟩, Option.isSome_of_mem isGiven, ⟨onMatch, matchGiven, defined⟩, once⟩
          split
          · rename_i last
            refine .require fun once => branch.mono fun _ => item fun _ => ?_
            have admitted : Datum.isUndefined onMiss ∨ find "otherwise" = none := by
              simpa only [own, last, if_true, Bool.or_eq_true, Option.isNone_iff_eq_none] using once
            exact admitted
          · rename_i further
            exact branch.mono fun _ => item fun last => absurd last further
        · exact .error _
      · exact .error _
  · exact .error _

theorem switchBranch_eq {onMiss item : Term} {isLast : Bool} (isItem : IsItem onMiss isLast item) :
    switchBranch onMiss isLast item = branchOf (.ofItem onMiss isLast item) := by
  obtain ⟨⟨es, rfl, keys⟩, is, ⟨t, onMatch, defined⟩, once⟩ := isItem
  obtain ⟨i, is⟩ := Option.isSome_iff_exists.mp is
  unfold switchBranch
  split
  · rename_i fs same
    cases same
    extract_lets known strangers find own fallback following
    have familiar : strangers = [] := strangers_eq_nil.mpr keys
    have found : ∀ name, find name = Term.entry? name (.dict es) := fun _ => rfl
    simp only [familiar, List.isEmpty_nil, Bool.not_true, Bool.false_eq_true, if_false, following, found, is, onMatch]
    have compiled : compileOption t = (compile t).map some := by simp [compileOption, defined]
    have missed : fallback = (Condition.ofItem onMiss isLast (.dict es)).onMiss := by
      simp only [fallback, own, found, Condition.ofItem]
      split <;> rfl
    have branch : (do return Branch.mk (← branchTest i) (some (← compile t)) (← compileOption fallback)) =
        branchOf (Condition.ofItem onMiss isLast (.dict es)) := by
      rw [missed]
      simp only [branchOf, Condition.ofItem, is, onMatch, Option.getD_some, compiled]
      cases compile t <;> rfl
    split
    · rename_i last
      have admitted : (Datum.isUndefined onMiss || own.isNone) = true := by
        simpa only [own, last, if_true, Bool.or_eq_true, Option.isNone_iff_eq_none, found] using once last
      rw [admitted]
      exact branch
    · exact branch
  · rename_i other
    exact (other es rfl).elim

/-- The items of a switch, of which the last one may say more than the others. -/
def AreItems (onMiss : Term) : List Term → Prop
  | [] => True
  | item :: rest => IsItem onMiss rest.isEmpty item ∧ AreItems onMiss rest

theorem switchBranches_areItems (onMiss : Term) (items : List Term) :
    Delivers (fun _ => AreItems onMiss items) (switchBranches onMiss items) := by
  induction items with
  | nil => exact .pure trivial
  | cons item rest ih =>
      exact (switchBranch_isItem onMiss item rest.isEmpty).bind fun _ here => ih.bind fun _ others => .pure ⟨here, others⟩

theorem switchBranches_ne_nil (onMiss : Term) {items : List Term} (nonempty : items ≠ []) :
    Delivers (· ≠ []) (switchBranches onMiss items) := by
  obtain ⟨item, rest, rfl⟩ := List.exists_cons_of_ne_nil nonempty
  exact (Delivers.any _).bind fun b _ => (Delivers.any _).bind fun bs _ => .pure (List.cons_ne_nil b bs)

theorem switchBranches_eq {onMiss : Term} {items : List Term} (areItems : AreItems onMiss items) :
    switchBranches onMiss items = (Condition.ofItems onMiss items).mapM branchOf := by
  induction items with
  | nil => rfl
  | cons item rest ih =>
      rw [switchBranches, switchBranch_eq areItems.1, ih areItems.2, Condition.ofItems, List.mapM_cons]

/-! ### Conditions -/

variable {s t : Schema} {condition : Term} {r : Reference} {c : Condition} {e : Alternative}

theorem require_true (text : String) : require true text = .ok () := rfl

theorem ok_bind {α β : Type} (a : α) (g : α → Except Fault β) : (Except.ok a >>= g) = g a := rfl

theorem append_ok {es : List Alternative} {chain : ChainState} {mode : Option MatchMode}
    (content : s.content = .alternatives es chain mode) : s.append e = .ok t ↔ chain ≠ .closed ∧
      ∃ core, s.core.renewed = .ok core ∧ t = node core s.empty? (.alternatives (es ++ [e]) (chain.after e.coverage) mode) := by
  simp only [append, content, withContent, withContent?, bind_eq_ok, ChainState.advance_ok]
  constructor
  · rintro ⟨after, ⟨unclosed, rfl⟩, core, renews, _, ⟨⟩, ⟨⟩⟩
    exact ⟨unclosed, core, renews, rfl⟩
  · rintro ⟨unclosed, core, renews, rfl⟩
    exact ⟨_, ⟨unclosed, rfl⟩, core, renews, _, rfl, rfl⟩

theorem conditional_content (built : s.conditional condition c = .ok t) :
    ∃ es chain, s.content = .alternatives es chain none := by
  unfold conditional at built
  split at built
  · rename_i es chain mode content
    cases mode with
    | some m => cases built
    | none => exact ⟨es, chain, content⟩
  · cases built

theorem conditional_eq (names : condition.Names r) {es : List Alternative} {chain : ChainState}
    (content : s.content = .alternatives es chain none) : s.conditional condition c = (do
      require (chain != .closed) "Unreachable condition"
      s.append (← subjectCondition r c)) := by
  rw [conditional, content]
  cases names with
  | reference r => rfl
  | text reads =>
      simp only [reads]
      rfl

theorem subjectCondition_plain (isNot : c.isNot = .undefined) (switch : c.switch = .null)
    (defined : Datum.isUndefined c.onMatch = false) : subjectCondition r c = (do
      require (!r.spread) "Cannot use in() reference as condition"
      return .conditional (some r) [← branchOf c] false) := by
  have undefined : Datum.isUndefined c.isNot = true := by rw [isNot]; rfl
  have null : Datum.isNull c.switch = true := by rw [switch]; rfl
  simp only [subjectCondition, branchOf, undefined, null, defined, Bool.or_true, Bool.not_false, Bool.true_or, if_true,
    require_true, ok_bind, bind_assoc, pure_bind]

theorem subjectCondition_switch {onMiss switch : Term} {items : List Term} (nonempty : items ≠ [])
    (listed : switch = .list items ∨ switch = .tuple items) : subjectCondition r { onMiss, switch } = (do
      require (!r.spread) "Cannot use in() reference as condition"
      return .conditional (some r) (← switchBranches onMiss items) true) := by
  have several : items.isEmpty = false := List.isEmpty_eq_false_iff.mpr nonempty
  have undefined : Datum.isUndefined (Datum.undefined : Term) = true := rfl
  rcases listed with rfl | rfl
  · simp only [subjectCondition, undefined, Datum.isNull, several, Bool.or_true, Bool.not_false, Bool.and_self, if_true,
      require_true, ok_bind, Bool.false_eq_true, if_false]
  · simp only [subjectCondition, undefined, Datum.isNull, several, Bool.or_true, Bool.not_false, Bool.and_self, if_true,
      require_true, ok_bind, Bool.false_eq_true, if_false]

theorem renewed_renewed {core renewed : Core} (renews : core.renewed = .ok renewed) : renewed.renewed = .ok renewed := by
  unfold Core.renewed at renews
  cases given : core.cache with
  | none =>
      rw [given] at renews
      cases renews
      rw [Core.renewed, given]
      rfl
  | some store =>
      rw [given] at renews
      obtain ⟨fresh, renewing, renews⟩ := bind_eq_ok.mp renews
      cases renews
      cases store with
      | unfit => cases renewing
      | cache slot =>
          cases renewing
          rfl

/-- Alternatives without a mode that are not closed, with entries added and the chain state of their coverage. -/
def Extends (s : Schema) (entries : List Alternative) (coverage : Coverage) (t : Schema) : Prop :=
  ∃ es chain core, s.content = .alternatives es chain none ∧ chain ≠ .closed ∧ s.core.renewed = .ok core ∧
    t = node core s.empty? (.alternatives (es ++ entries) (chain.after coverage) none)

namespace Extends

variable {entries more : List Alternative} {coverage coverage' : Coverage} {u : Schema}

theorem other (extends_ : s.Extends entries coverage t) (more : List Alternative) (coverage' : Coverage) :
    ∃ u, s.Extends more coverage' u := by
  obtain ⟨es, chain, core, content, unclosed, renews, -⟩ := extends_
  exact ⟨_, es, chain, core, content, unclosed, renews, rfl⟩

theorem trans (extends_ : s.Extends entries coverage t) (opens : coverage = .onMatch) (covers : coverage' ≠ .attempt) :
    t.Extends more coverage' u ↔ s.Extends (entries ++ more) coverage' u := by
  obtain ⟨es, chain, core, content, unclosed, renews, rfl⟩ := extends_
  subst opens
  have after : (ChainState.thenOnly.after coverage') = chain.after coverage' := by
    cases coverage' <;> first | rfl | contradiction
  constructor
  · rintro ⟨_, _, core', ⟨⟩, -, renews', rfl⟩
    obtain rfl := Except.ok.inj ((renewed_renewed renews).symm.trans renews')
    exact ⟨es, chain, core, content, unclosed, renews, by rw [← List.append_assoc, ← after]; rfl⟩
  · rintro ⟨es', chain', core', content', -, renews', rfl⟩
    cases content.symm.trans content'
    obtain rfl := Except.ok.inj (renews.symm.trans renews')
    exact ⟨es ++ entries, .thenOnly, core, rfl, by simp, renewed_renewed renews, by rw [List.append_assoc, ← after]; rfl⟩

end Extends

theorem conditional_extends (names : condition.Names r) : s.conditional condition c = .ok t ↔
    ∃ e, subjectCondition r c = .ok e ∧ s.Extends [e] e.coverage t := by
  constructor
  · intro built
    obtain ⟨es, chain, content⟩ := conditional_content built
    rw [conditional_eq names content] at built
    obtain ⟨_, -, built⟩ := bind_eq_ok.mp built
    obtain ⟨e, entry, appended⟩ := bind_eq_ok.mp built
    obtain ⟨unclosed, core, renews, rfl⟩ := (append_ok content).mp appended
    exact ⟨e, entry, es, chain, core, content, unclosed, renews, rfl⟩
  · rintro ⟨e, entry, es, chain, core, content, unclosed, renews, rfl⟩
    have opens : (chain != .closed) = true := bne_iff_ne.mpr unclosed
    rw [conditional_eq names content, opens, entry, require_true, ok_bind, ok_bind]
    exact (append_ok content).mpr ⟨unclosed, core, renews, rfl⟩

/-! ### Items in turn -/

variable {onMiss item : Term} {items : List Term} {isLast : Bool} {b : Branch}

theorem branchOf_covers (isItem : IsItem onMiss isLast item) (branch : branchOf (.ofItem onMiss isLast item) = .ok b) :
    b.onMatch.isSome ∧ (isLast = false → b.onMiss = none) := by
  obtain ⟨t, isGiven, defined⟩ := isItem.onMatch
  obtain ⟨test, -, compiled⟩ := bind_eq_ok.mp branch
  obtain ⟨yes, matches_, compiled⟩ := bind_eq_ok.mp compiled
  obtain ⟨no, misses, built⟩ := bind_eq_ok.mp compiled
  cases built
  simp only [Condition.ofItem, isGiven, Option.getD_some] at matches_ misses
  simp only [compileOption, defined, Bool.false_eq_true, if_false] at matches_
  refine ⟨?_, ?_⟩
  · cases given : compile t with
    | error fault => rw [given] at matches_; cases matches_
    | ok u => rw [given] at matches_; cases matches_; rfl
  · rintro rfl
    cases misses
    rfl

theorem branchCoverage_cons (misses : b.onMiss = none) (bs : List Branch) :
    Alternative.branchCoverage (b :: bs) = Alternative.branchCoverage bs := by
  simp [Alternative.branchCoverage, misses]

theorem branchCoverage_ne_attempt (bs : List Branch) : Alternative.branchCoverage bs ≠ .attempt := by
  unfold Alternative.branchCoverage
  split
  · simp
  · split <;> simp

theorem conditional_item (names : condition.Names r) (isItem : IsItem onMiss isLast item) :
    s.conditional condition (.ofItem onMiss isLast item) = .ok t ↔ r.spread = false ∧
      ∃ b, branchOf (.ofItem onMiss isLast item) = .ok b ∧
        s.Extends (Alternatives.apart (some r) [b]) (Alternative.branchCoverage [b]) t := by
  obtain ⟨u, isGiven, defined⟩ := isItem.onMatch
  have given : Datum.isUndefined (Condition.ofItem onMiss isLast item).onMatch = false := by
    rwa [Condition.ofItem, isGiven]
  rw [conditional_extends names, subjectCondition_plain rfl rfl given]
  cases r.spread with
  | true => simp [require, bind, Except.bind]
  | false =>
      simp only [Bool.not_false, require_true, ok_bind, true_and]
      constructor
      · rintro ⟨e, entry, extends_⟩
        obtain ⟨b, branch, made⟩ := bind_eq_ok.mp entry
        cases made
        exact ⟨b, branch, extends_⟩
      · rintro ⟨b, branch, extends_⟩
        exact ⟨_, bind_eq_ok.mpr ⟨b, branch, rfl⟩, extends_⟩

/-- The conditions that items stand for are added one by one. -/
theorem conditionals_extend (names : condition.Names r) (nonempty : items ≠ []) (areItems : AreItems onMiss items) :
    (Condition.ofItems onMiss items).foldlM (fun s c => s.conditional condition c) s = .ok t ↔ r.spread = false ∧
      ∃ bs, (Condition.ofItems onMiss items).mapM branchOf = .ok bs ∧
        s.Extends (Alternatives.apart (some r) bs) (Alternative.branchCoverage bs) t := by
  induction items generalizing s with
  | nil => contradiction
  | cons item rest ih =>
      obtain ⟨isItem, others⟩ := areItems
      rw [Condition.ofItems, List.foldlM_cons, List.mapM_cons, bind_eq_ok]
      simp only [conditional_item names isItem]
      cases rest with
      | nil =>
          constructor
          · rintro ⟨u, ⟨plain, b, branch, extends_⟩, last⟩
            cases last
            exact ⟨plain, [b], by rw [branch]; rfl, extends_⟩
          · rintro ⟨plain, bs, branches, extends_⟩
            obtain ⟨b, branch, built⟩ := bind_eq_ok.mp branches
            cases built
            exact ⟨t, ⟨plain, b, branch, extends_⟩, rfl⟩
      | cons item' rest =>
          -- An item before others says nothing for a miss, so the chain stays open for them.
          have single : ∀ b, branchOf (.ofItem onMiss false item) = .ok b →
              b.onMiss = none ∧ Alternative.branchCoverage [b] = .onMatch := by
            intro b branch
            have misses := (branchOf_covers isItem branch).2 rfl
            exact ⟨misses, branchCoverage_cons misses []⟩
          have further := fun s => ih (s := s) (List.cons_ne_nil item' rest) others
          constructor
          · rintro ⟨u, ⟨plain, b, branch, extends_⟩, more⟩
            obtain ⟨-, bs, branches, extended⟩ := (further u).mp more
            obtain ⟨misses, opens⟩ := single b branch
            refine ⟨plain, b :: bs, ?_, ?_⟩
            · rw [branch, branches]
              rfl
            · rw [branchCoverage_cons misses]
              exact (extends_.trans opens (branchCoverage_ne_attempt bs)).mp extended
          · rintro ⟨plain, bs, branches, extended⟩
            obtain ⟨b, branch, later⟩ := bind_eq_ok.mp branches
            obtain ⟨bs, laterBranches, built⟩ := bind_eq_ok.mp later
            cases built
            obtain ⟨misses, opens⟩ := single b branch
            obtain ⟨u, extends_⟩ := extended.other (Alternatives.apart (some r) [b]) (Alternative.branchCoverage [b])
            rw [branchCoverage_cons misses] at extended
            exact ⟨u, ⟨plain, b, branch, extends_⟩, (further u).mpr
              ⟨plain, bs, laterBranches, (extends_.trans opens (branchCoverage_ne_attempt bs)).mpr extended⟩⟩

/-! ## Switches -/

theorem switch_extends (names : condition.Names r) (nonempty : items ≠ []) {switch : Term}
    (listed : switch = .list items ∨ switch = .tuple items) :
    s.conditional condition { onMiss, switch } = .ok t ↔ r.spread = false ∧
      ∃ bs, switchBranches onMiss items = .ok bs ∧
        s.Extends [.conditional (some r) bs true] (Alternative.branchCoverage bs) t := by
  rw [conditional_extends names, subjectCondition_switch nonempty listed]
  cases r.spread with
  | true => simp [require, bind, Except.bind]
  | false =>
      simp only [Bool.not_false, require_true, ok_bind, true_and]
      constructor
      · rintro ⟨e, entry, extends_⟩
        obtain ⟨bs, branches, made⟩ := bind_eq_ok.mp entry
        cases made
        exact ⟨bs, branches, extends_⟩
      · rintro ⟨bs, branches, extends_⟩
        exact ⟨_, bind_eq_ok.mpr ⟨bs, branches, rfl⟩, extends_⟩

def chain? (s : Schema) : Option ChainState := s.alternatives?.map fun a => a.2.1

/-- Alternatives with one chain state that evaluate alike wherever the functions that are called only add to their run. -/
structure Interchangeable (s t : Schema) : Prop where
  chain : s.chain? = t.chain?
  eval : ∀ h : Hooks, h.Growing freely → s.eval h = t.eval h

theorem Extends.interchangeable {bs : List Branch} (nonempty : bs ≠ []) {fromSwitch : Bool} {coverage : Coverage} {u : Schema}
    (whole : s.Extends [.conditional (some r) bs fromSwitch] coverage t)
    (parts : s.Extends (Alternatives.apart (some r) bs) coverage u) : t.Interchangeable u := by
  obtain ⟨es, chain, core, content, -, renews, rfl⟩ := whole
  obtain ⟨es', chain', core', content', -, renews', rfl⟩ := parts
  cases content.symm.trans content'
  obtain rfl := Except.ok.inj (renews.symm.trans renews')
  refine ⟨rfl, fun h growing => eval_entries (fun f v => ?_) ?_ ?_⟩
  · refine Alternatives.first_append_congr (fun issues => ?_) es []
    simpa only [List.append_nil] using Alternatives.first_apart growing (some r) nonempty fromSwitch [] issues
  · simp [Alternative.subjects]
  · obtain ⟨b, bs, rfl⟩ := List.exists_cons_of_ne_nil nonempty
    simp [Alternative.subjects, Alternatives.apart]

end Schema

open Schema

/-- What a switch builds, a condition for each of its items builds as well: the two nodes have one chain state and evaluate
alike. From items as a switch takes them the conditions build nothing that the switch does not. -/
theorem switch_in_turn {condition : Term} {r : Reference} (names : condition.Names r) {items : List Term}
    (nonempty : items ≠ []) {switch : Term} (listed : switch = .list items ∨ switch = .tuple items) (onMiss : Term)
    (s : Schema) :
    let conditions := Condition.ofItems onMiss items
    (∀ t, s.conditional condition { onMiss, switch } = .ok t →
      ∃ u, conditions.foldlM (fun s c => s.conditional condition c) s = .ok u ∧ t.Interchangeable u) ∧
    (AreItems onMiss items → ∀ u, conditions.foldlM (fun s c => s.conditional condition c) s = .ok u →
      ∃ t, s.conditional condition { onMiss, switch } = .ok t) := by
  refine ⟨fun t built => ?_, fun areItems u built => ?_⟩
  · obtain ⟨plain, bs, branches, whole⟩ := (switch_extends names nonempty listed).mp built
    have several := switchBranches_ne_nil onMiss nonempty bs branches
    have areItems := switchBranches_areItems onMiss items bs branches
    rw [switchBranches_eq areItems] at branches
    obtain ⟨u, parts⟩ := whole.other (Alternatives.apart (some r) bs) (Alternative.branchCoverage bs)
    have builds := (conditionals_extend names nonempty areItems).mpr ⟨plain, bs, branches, parts⟩
    exact ⟨u, builds, whole.interchangeable several parts⟩
  · obtain ⟨plain, bs, branches, parts⟩ := (conditionals_extend names nonempty areItems).mp built
    obtain ⟨t, whole⟩ := parts.other [.conditional (some r) bs true] (Alternative.branchCoverage bs)
    exact ⟨t, (switch_extends names nonempty listed).mpr ⟨plain, bs, (switchBranches_eq areItems).trans branches, whole⟩⟩

/-- A number where the subject is one, a text where it is two, and a truth value otherwise. -/
def twoItems : List Term :=
  [.dict [(.str "is", .int 1), (.str "then", .leaf (.schema 0 .number))],
    .dict [(.str "then", .leaf (.schema 1 .string)), (.str "is", .int 2), (.str "otherwise", .leaf (.schema 2 .boolean))]]

theorem twoItems_in_turn :
    let conditions := Condition.ofItems .undefined twoItems
    ∃ t u, Schema.alternatives.conditional (.str "a") { switch := .list twoItems } = .ok t ∧
      conditions.foldlM (fun s c => s.conditional (.str "a") c) Schema.alternatives = .ok u ∧ t.Interchangeable u ∧
      t.chain? = some .closed := by
  have named : Term.Names (.str "a") { serial := 0, key := "a", target := .ancestor 1, holdsCache := false, path := ["a"] } :=
    .text rfl
  have areItems : AreItems .undefined twoItems := by
    refine ⟨⟨⟨_, rfl, ?_⟩, rfl, ⟨_, rfl, rfl⟩, nofun⟩, ⟨⟨_, rfl, ?_⟩, rfl, ⟨_, rfl, rfl⟩, fun _ => .inl rfl⟩, trivial⟩ <;>
      simp [itemKeys]
  obtain ⟨forth, back⟩ := switch_in_turn named (List.cons_ne_nil _ _) (.inl rfl) .undefined Schema.alternatives
  obtain ⟨t, built⟩ := back areItems _ rfl
  obtain ⟨u, builds, alike⟩ := forth t built
  refine ⟨t, u, built, builds, alike, alike.chain.trans ?_⟩
  cases builds
  rfl

end Conform
