import Conform.Schema.Allocate
import Conform.Proofs.Schema.Compiled

/-!
# Alternatives, labels and merges

The chain builders make their nodes by the steps of chains: an entry is appended to a chain that is not closed, a
match mode is set over attempts alone, labels keep the layout, and a merge appends what the other node has.
-/

namespace Conform

variable {joins : List Value → List Value → Prop}

namespace Schema

variable {s : Schema}

/-! ## Alternatives -/

theorem Made.entries (made : s.Made joins) {es : List Alternative} {chain : ChainState} {mode : Option MatchMode}
    (content : s.content = .alternatives es chain mode) :
    Kind.alternatives = s.kind ∧ (Layout.entries (es.map Alternative.slot) chain mode).Made joins ∧
      ∀ e ∈ es, e.Made joins := by
  obtain ⟨-, layout, parts, -⟩ := made.parts
  rw [content] at layout
  exact ⟨by rw [Schema.kind, content]; rfl, layout, parts.entries es chain mode content⟩

/-- An entry can be appended where no mode counts attempts, or if it is one. -/
theorem Made.append (made : s.Made joins) {e : Alternative} (entry : e.Made joins) (tapered : e.slot.Tapered)
    (counts : ∀ es chain m, s.content = .alternatives es chain (some m) → e.isAttempt) :
    Delivers (Made joins) (s.append e) := by
  unfold Schema.append
  split
  · rename_i es chain mode same
    obtain ⟨kind, layout, entries⟩ := made.entries same
    have advance : Delivers (fun chain' => chain.advance e.slot.coverage = .ok chain') (chain.advance e.coverage) := by
      rw [e.coverage_slot]
      exact fun _ runs => runs
    refine advance.bind fun chain' advances => made.withContent kind ?_ (.alternatives ?_)
    · have longer := layout.append tapered advances fun isSome => by
        obtain ⟨m, rfl⟩ := Option.isSome_iff_exists.mp isSome
        exact Alternative.slot_attempt.mpr (counts es chain m same)
      simpa [Content.layout] using longer
    · exact List.forall_mem_append.mpr ⟨entries, List.forall_mem_singleton.mpr entry⟩
  · exact .error _

theorem Made.attempt (made : s.Made joins) {terms : List Term} (each : ∀ t ∈ terms, t.Made joins) :
    Delivers (Made joins) (s.attempt terms) := by
  refine .require fun _ => Delivers.foldlM (fun u here t member => ?_) made
  exact (Delivers.any _).bind fun _ _ => (compile_made t (each t member)).bind fun v compiled =>
    Made.append here compiled trivial fun _ _ _ _ => rfl

/-- Where attempts are required, all entries are. -/
theorem requireAttempts_all {mode : String} {es : List Alternative} {α : Type} {P : α → Prop}
    {g : Unit → Except Fault α} (then_ : (∀ e ∈ es, e.isAttempt) → Delivers P (g ())) :
    Delivers P (requireAttempts mode es >>= g) :=
  .ensure fun all => then_ fun e member => List.all_eq_true.mp all e member

theorem slots_attempts {es : List Alternative} (all : ∀ e ∈ es, e.isAttempt) :
    ∀ slot ∈ es.map Alternative.slot, slot = .attempt := by
  intro slot member
  obtain ⟨e, inside, rfl⟩ := List.mem_map.mp member
  exact Alternative.slot_attempt.mpr (all e inside)

theorem Made.matchMode (made : s.Made joins) (mode : Term) : Delivers (Made joins) (s.matchMode mode) := by
  unfold Schema.matchMode
  split
  · rename_i es chain old same
    obtain ⟨kind, layout, entries⟩ := made.entries same
    have counted : ∀ m, (∀ e ∈ es, e.isAttempt) → Delivers (Made joins) (s.withContent (.alternatives es chain (some m))) :=
      fun m all => made.withContent kind (layout.mode (some m) fun _ => slots_attempts all) (.alternatives entries)
    split
    · exact made.withContent kind (layout.mode none nofun) (.alternatives entries)
    · exact requireAttempts_all (counted .one)
    · exact requireAttempts_all (counted .all)
    · exact .error _
  · exact .error _

/-! ## Conditions -/

theorem branchTest_made {t : Term} (made : t.Made joins) : Delivers (Made joins) (branchTest t) := by
  unfold branchTest
  split
  · exact (made_any.deny _).bind fun u denied => denied.withPresence _
  · exact compile_made _ made
  · exact compile_made _ made
  · exact (compile_made _ made).bind fun u compiled => compiled.withPresence _

/-- The values of a dictionary that is a term of made schemas are such terms. -/
theorem Term.Made.found {es : List (Term × Term)} (made : Term.Made joins (.dict es)) {p : Term × Term → Bool}
    {t : Term} (found : (es.find? p).map Prod.snd = some t) : t.Made joins := by
  obtain ⟨e, isFound, rfl⟩ := Option.map_eq_some_iff.mp found
  exact (made.dict e (List.mem_of_find?_eq_some isFound)).2

theorem switchBranch_made {onMiss item : Term} (miss : onMiss.Made joins) (made : item.Made joins) (isLast : Bool) :
    Delivers (fun b => b.Made joins ∧ (isLast = false → b.outcomes.2 = false)) (switchBranch onMiss isLast item) := by
  unfold switchBranch
  split
  · extract_lets known strangers find own fallback following
    have given : ∀ name t, find name = some t → Term.Made joins t := fun name t found => Term.Made.found made found
    have otherwise_ : Term.Made joins fallback := by
      cases isLast with
      | false => exact ⟨rfl, nofun⟩
      | true =>
          cases inside : find "otherwise" with
          | none => simpa [fallback, own, inside] using miss
          | some t => simpa [fallback, own, inside] using given _ t inside
    have missing : Delivers (fun no => (∀ s, no = some s → s.Made joins) ∧ (isLast = false → no.isSome = false))
        (compileOption fallback) := by
      intro no compiled
      refine ⟨compileOption_made otherwise_ no compiled, ?_⟩
      rintro rfl
      cases compiled
      rfl
    have follows : Delivers (fun b => b.Made joins ∧ (isLast = false → b.outcomes.2 = false)) (following ()) := by
      simp only [following]
      split
      · rename_i is isGiven
        split
        · rename_i onMatch matchGiven
          have branch := (branchTest_made (given _ is isGiven)).bind fun test tests =>
            (compile_made onMatch (given _ onMatch matchGiven)).bind fun yes matches_ =>
              missing.bind fun no misses =>
                Delivers.pure (P := fun b : Branch => b.Made joins ∧ (isLast = false → b.outcomes.2 = false))
                  (a := .mk test (some yes) no)
                  ⟨⟨tests, fun _ same => Option.some.inj same ▸ matches_, misses.1⟩, misses.2⟩
          split
          · exact .require fun _ => branch
          · exact branch
        · exact .error _
      · exact .error _
    split
    · exact (Delivers.any _).bind fun _ _ => .error _
    · exact follows
  · exact .error _

theorem switchBranches_made {onMiss : Term} (miss : onMiss.Made joins) {items : List Term}
    (each : ∀ t ∈ items, t.Made joins) :
    Delivers (fun bs => (∀ b ∈ bs, b.Made joins) ∧ bs.length = items.length ∧
      (Slot.branches (bs.map Branch.outcomes)).Tapered) (switchBranches onMiss items) := by
  induction items with
  | nil => exact .pure ⟨List.forall_mem_nil _, rfl, List.forall_mem_nil _⟩
  | cons item rest ih =>
      obtain ⟨here, others⟩ := List.forall_mem_cons.mp each
      refine (switchBranch_made miss here _).bind fun b branch => (ih others).bind fun bs branches => .pure ?_
      refine ⟨List.forall_mem_cons.mpr ⟨branch.1, branches.1⟩, congrArg (· + 1) branches.2.1, ?_⟩
      cases bs with
      | nil => exact List.forall_mem_nil _
      | cons c bs =>
          have isEmpty : rest.isEmpty = false := by
            cases rest with
            | nil => simp at branches
            | cons _ _ => rfl
          exact List.forall_mem_cons.mpr ⟨branch.2 isEmpty, branches.2.2⟩

theorem schemaCondition_made {test : Schema} (tests : test.Made joins) {c : Condition} (yes : c.onMatch.Made joins)
    (no : c.onMiss.Made joins) : Delivers (fun e => e.Made joins ∧ e.slot.Tapered) (schemaCondition test c) := by
  refine .require fun _ => .require fun _ => .require fun _ => .require fun _ => ?_
  refine (compileOption_made yes).bind fun onMatch matches_ => (compileOption_made no).bind fun onMiss misses => ?_
  exact .pure ⟨List.forall_mem_singleton.mpr ⟨tests, matches_, misses⟩, List.forall_mem_nil _⟩

/-- The terms of a condition. -/
structure Condition.Made (joins : List Value → List Value → Prop) (c : Condition) : Prop where
  is : c.is.Made joins
  isNot : c.isNot.Made joins
  onMatch : c.onMatch.Made joins
  onMiss : c.onMiss.Made joins
  switch : c.switch.Made joins

theorem subjectCondition_made (subject : Reference) {c : Condition} (made : c.Made joins) :
    Delivers (fun e => e.Made joins ∧ e.slot.Tapered) (subjectCondition subject c) := by
  refine .require fun _ => .require fun _ => ?_
  split
  · generalize picked : (if Datum.isUndefined c.isNot then (c.is, c.onMatch, c.onMiss)
      else (c.isNot, c.onMiss, c.onMatch)) = terms
    obtain ⟨is, yes, no⟩ := terms
    have each : is.Made joins ∧ yes.Made joins ∧ no.Made joins := by
      split at picked <;> cases picked
      · exact ⟨made.is, made.onMatch, made.onMiss⟩
      · exact ⟨made.isNot, made.onMiss, made.onMatch⟩
    refine .require fun _ => (branchTest_made each.1).bind fun test tests => ?_
    refine (compileOption_made each.2.1).bind fun onMatch matches_ => ?_
    refine (compileOption_made each.2.2).bind fun onMiss misses => .pure ?_
    exact ⟨List.forall_mem_singleton.mpr ⟨tests, matches_, misses⟩, List.forall_mem_nil _⟩
  · refine .require fun _ => .require fun _ => .require fun _ => ?_
    refine (switchBranches_made made.onMiss ?_).bind fun bs branches => .pure ⟨branches.1, branches.2.2⟩
    split
    · rename_i xs same
      exact Term.Made.list (same ▸ made.switch)
    · rename_i xs same
      exact Term.Made.tuple (same ▸ made.switch)
    · exact List.forall_mem_nil _

theorem Made.conditional (made : s.Made joins) {condition : Term} (term : condition.Made joins) {c : Condition}
    (args : c.Made joins) : Delivers (Made joins) (s.conditional condition c) := by
  unfold Schema.conditional
  split
  · rename_i es chain mode same
    cases mode with
    | some m => exact .error _
    | none =>
        have appended : ∀ e : Alternative, e.Made joins ∧ e.slot.Tapered → Delivers (Made joins) (s.append e) := by
          refine fun e entry => made.append entry.1 entry.2 fun _ _ _ other => ?_
          cases same.symm.trans other
        refine .require fun _ => ?_
        simp only
        split
        · rename_i test
          exact (schemaCondition_made (term.2 _ (by simp [Term.schemas])) args.onMatch args.onMiss).bind appended
        · exact (subjectCondition_made _ args).bind appended
        · exact (Delivers.any _).bind fun r _ => (subjectCondition_made r args).bind appended
        · exact .error _
  · exact .error _

/-! ## Labels -/

mutual

theorem relabel_made (name : String) : ∀ s : Schema, s.Made joins → Delivers (Made joins) (relabel name s)
  | .node core empty content, made => by
      obtain ⟨here, layout, parts, empties⟩ := made_node.mp made
      rw [relabel]
      refine core.renewed_agrees.bind fun c agrees => (relabelContent_made name content parts).bind fun new holds => .pure ?_
      have labelled : Core.Made content.kind { c with label := some name } :=
        here.setting ⟨agrees.allowed, agrees.denied, agrees.rules, agrees.prefs⟩
      exact made_node.mpr ⟨holds.1 ▸ labelled, holds.2.1 ▸ layout, holds.2.2, empties⟩

theorem relabelContent_made (name : String) : ∀ c : Content, c.Holds joins →
    Delivers (fun d => d.kind = c.kind ∧ d.layout = c.layout ∧ d.Holds joins) (relabelContent name c)
  | .alternatives es chain mode, made => by
      rw [relabelContent]
      refine (relabelEach_made name es (made.entries es chain mode rfl)).bind fun fs entries => .pure ⟨rfl, ?_, ?_⟩
      · simp only [Content.layout, entries.2]
      · exact .alternatives entries.1
  | .any, made | .boolean _ _, made | .number, made | .string, made | .array _, made | .object _, made
  | .probe, made => by
      simp only [relabelContent]
      exact .pure ⟨rfl, rfl, made⟩

theorem relabelEach_made (name : String) : ∀ es : List Alternative, (∀ e ∈ es, e.Made joins) →
    Delivers (fun fs => (∀ e ∈ fs, e.Made joins) ∧ fs.map Alternative.slot = es.map Alternative.slot) (relabelEach name es)
  | [], _ => by
      rw [relabelEach]
      exact .pure ⟨List.forall_mem_nil _, rfl⟩
  | .attempt s :: es, made => by
      obtain ⟨here, rest⟩ := List.forall_mem_cons.mp made
      rw [relabelEach]
      refine (relabel_made name s here).bind fun s' labelled => (relabelEach_made name es rest).bind fun fs entries => .pure ?_
      exact ⟨List.forall_mem_cons.mpr ⟨labelled, entries.1⟩, congrArg (Slot.attempt :: ·) entries.2⟩
  | .conditional subject bs fromSwitch :: es, made => by
      obtain ⟨here, rest⟩ := List.forall_mem_cons.mp made
      rw [relabelEach]
      refine (relabelBranches_made name bs here).bind fun cs branches =>
        (relabelEach_made name es rest).bind fun fs entries => .pure ⟨?_, ?_⟩
      · exact List.forall_mem_cons.mpr ⟨branches.1, entries.1⟩
      · simp only [List.map_cons, Alternative.slot, branches.2, entries.2]

theorem relabelBranches_made (name : String) : ∀ bs : List Branch, (∀ b ∈ bs, b.Made joins) →
    Delivers (fun cs => (∀ b ∈ cs, b.Made joins) ∧ cs.map Branch.outcomes = bs.map Branch.outcomes)
      (relabelBranches name bs)
  | [], _ => by
      rw [relabelBranches]
      exact .pure ⟨List.forall_mem_nil _, rfl⟩
  | .mk test yes no :: bs, made => by
      obtain ⟨⟨tests, matches_, misses⟩, rest⟩ := List.forall_mem_cons.mp made
      rw [relabelBranches]
      refine (relabelOption_made name yes matches_).bind fun yes' labelledYes =>
        (relabelOption_made name no misses).bind fun no' labelledNo =>
          (relabelBranches_made name bs rest).bind fun cs branches => .pure ⟨?_, ?_⟩
      · exact List.forall_mem_cons.mpr ⟨⟨tests, labelledYes.1, labelledNo.1⟩, branches.1⟩
      · have same : Branch.outcomes (.mk test yes' no') = Branch.outcomes (.mk test yes no) :=
          Prod.ext labelledYes.2 labelledNo.2
        rw [List.map_cons, List.map_cons, same, branches.2]

theorem relabelOption_made (name : String) : ∀ o : Option Schema, (∀ s, o = some s → s.Made joins) →
    Delivers (fun p => (∀ s, p = some s → s.Made joins) ∧ p.isSome = o.isSome) (relabelOption name o)
  | none, _ => by
      rw [relabelOption]
      exact .pure ⟨nofun, rfl⟩
  | some s, made => by
      rw [relabelOption]
      exact (relabel_made name s (made s rfl)).bind fun s' labelled =>
        .pure ⟨fun _ same => Option.some.inj same ▸ labelled, rfl⟩

end

theorem Made.label (made : s.Made joins) (name : Term) : Delivers (Made joins) (s.label name) := by
  unfold Schema.label
  split
  · exact .require fun _ => relabel_made _ s made
  · exact .error _

/-! ## Merges -/

/-- Whether the keys of a node and of a term may be joined, if both are objects that declare keys. -/
def Joins (joins : List Value → List Value → Prop) (s : Schema) (t : Term) : Prop :=
  ∀ source ks ls, t.schema? = some source → s.content = .object (some ks) → source.content = .object (some ls) →
    joins (ks.map Prod.fst) (ls.map Prod.fst)

/-- The content of a merge. What it makes of chains is made once attempts are counted. -/
theorem mergeContent_made {own source : Content} {chain : ChainState} (advances : chainAfter own source = .ok chain)
    (first : own.layout.Made joins ∧ own.Holds joins) (second : source.layout.Made joins ∧ source.Holds joins)
    (joined : ∀ ks ls, own = .object (some ks) → source = .object (some ls) → joins (ks.map Prod.fst) (ls.map Prod.fst)) :
    Delivers (fun c => c.kind = own.kind ∧
      ((∀ es chain m, c = .alternatives es chain (some m) → ∀ e ∈ es, e.isAttempt) → c.layout.Made joins ∧ c.Holds joins))
      (mergeContent own source chain) := by
  unfold mergeContent
  split
  · exact (Delivers.any _).bind fun _ _ => (Delivers.any _).bind fun _ _ =>
      .pure ⟨rfl, fun _ => ⟨.plain, nofun, nofun, nofun⟩⟩
  · rename_i xs ys
    refine .pure ⟨rfl, fun _ => ⟨.plain, .array (List.forall_mem_append.mpr ⟨?_, ?_⟩)⟩⟩
    · exact first.2.items xs rfl
    · exact second.2.items ys rfl
  · exact .pure ⟨rfl, fun _ => second⟩
  · rename_i ks ls
    refine .pure ⟨rfl, fun _ => ⟨?_, .object (List.forall_mem_append.mpr ⟨first.2.keys ks rfl, second.2.keys ls rfl⟩)⟩⟩
    have merged := first.1.merged second.1 (joined ks ls rfl rfl)
    rwa [← List.map_append] at merged
  · rename_i es old mode fs old' mode'
    refine .pure ⟨rfl, fun counts => ⟨?_, .alternatives (List.forall_mem_append.mpr ⟨?_, ?_⟩)⟩⟩
    · have run : (fs.map Alternative.slot).foldlM (fun s e => s.advance e.coverage) old = .ok chain := by
        rw [List.foldlM_map]
        simp only [Alternative.coverage_slot]
        exact advances
      have longer := first.1.concat second.1 run fun isSome => by
        obtain ⟨m, is⟩ := Option.isSome_iff_exists.mp isSome
        rw [← List.map_append]
        exact slots_attempts (counts (es ++ fs) chain m (by rw [is]))
      simpa [Content.layout] using longer
    · exact first.2.entries _ _ _ rfl
    · exact second.2.entries _ _ _ rfl
  · rename_i es old mode other
    have same : old = chain := by
      cases source with
      | alternatives fs old' mode' => exact (other _ _ _ rfl).elim
      | _ => exact Except.ok.inj advances
    exact .pure ⟨rfl, fun _ => same ▸ ⟨first.1, .alternatives (first.2.entries _ _ _ rfl)⟩⟩
  · exact .pure ⟨rfl, fun _ => first⟩

theorem Made.concat (made : s.Made joins) {t : Term} (term : t.Made joins) (joined : s.Joins joins t) :
    Delivers (Made joins) (s.concat t) := by
  unfold Schema.concat
  cases t with
  | leaf i =>
      cases i with
      | schema serial source =>
          obtain ⟨core, layout, content, empty⟩ := made.parts
          obtain ⟨core', layout', content', empty'⟩ := (term.2 source (by simp [Term.schemas])).parts
          have after : Delivers (fun chain => chainAfter s.content source.content = .ok chain)
              (chainAfter s.content source.content) := fun _ runs => runs
          refine after.bind fun chain advances => .ensure fun fits => ?_
          have types : s.kind = source.kind ∨ source.kind = .any := by simpa using fits
          have settings : Delivers (Core.Made s.kind) (mergeCore s.kind s.core source.core) :=
            fun _ runs => core.merge core' types runs
          refine settings.bind fun c merged => ?_
          refine (mergeContent_made advances ⟨layout, content⟩ ⟨layout', content'⟩ (joined source · · rfl)).bind fun d held => ?_
          refine c.renewed_agrees.bind fun c' agrees => ?_
          have whole : d.layout.Made joins ∧ d.Holds joins → (node c' (source.empty? <|> s.empty?) d).Made joins := by
            refine fun below => made_node.mpr ⟨held.1 ▸ merged.setting agrees, below.1, below.2, fun e is => ?_⟩
            cases own : source.empty? with
            | none => exact empty e (by simpa [own] using is)
            | some e' => exact empty' e (by simpa [own] using is)
          simp only
          split
          · rename_i es chain' m
            refine requireAttempts_all fun all => .pure (whole (held.2 fun es' _ _ same => ?_))
            cases same
            exact all
          · rename_i other
            exact .pure (whole (held.2 fun es' chain' m same => absurd same (other es' chain' m)))
      | _ => exact .error _
  | _ => exact .error _

end Schema

end Conform
