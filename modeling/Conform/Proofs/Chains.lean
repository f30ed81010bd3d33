import Conform.Proofs.Schema.Laws

/-!
# Chains of alternatives

The chain state of alternatives is the run of their entries from an open chain. An entry that dispatches every
input closes the chain, and nothing can follow it; in it nothing follows the branch that says what happens either
way.
-/

namespace Conform

/-! ## Runs -/

namespace ChainState

variable {start chain : ChainState}

theorem advance_ok {c : Coverage} : start.advance c = .ok chain ↔ start ≠ .closed ∧ start.after c = chain := by
  cases start <;> simp [advance, require, bind, Except.bind, pure, Except.pure]

theorem advance_closed {c : Coverage} (advances : start.advance c = .ok chain) : chain = .closed ↔ c = .both := by
  obtain ⟨isOpen, rfl⟩ := advance_ok.mp advances
  cases c <;> simp [after, isOpen]

end ChainState

namespace Slot

/-- The chain state after entries. -/
def run (start : ChainState) (slots : List Slot) : Except Fault ChainState :=
  slots.foldlM (fun s e => s.advance e.coverage) start

variable {start chain : ChainState} {slots : List Slot}

theorem run_append (before after : List Slot) : run start (before ++ after) = run start before >>= (run · after) := by
  simp [run, List.foldlM_append]

theorem run_snoc (slots : List Slot) (e : Slot) : run start (slots ++ [e]) = run start slots >>= (·.advance e.coverage) := by
  simp [run, List.foldlM_append]

theorem run_closed (ran : run start slots = .ok chain) (isOpen : start ≠ .closed) :
    chain = .closed ↔ ∃ e ∈ slots, e.coverage = .both := by
  induction slots using List.reverseRecOn generalizing chain with
  | nil =>
      obtain rfl : start = chain := Except.ok.inj ran
      simp [isOpen]
  | append_singleton slots e ih =>
      rw [run_snoc] at ran
      obtain ⟨between, first, advances⟩ := bind_eq_ok.mp ran
      have unclosed := (ChainState.advance_ok.mp advances).1
      have none : ¬ ∃ e ∈ slots, e.coverage = .both := fun some => unclosed ((ih first).mpr some)
      rw [ChainState.advance_closed advances]
      constructor
      · exact fun both => ⟨e, by simp, both⟩
      · rintro ⟨d, member, both⟩
        rcases List.mem_append.mp member with before | last
        · exact absurd ⟨d, before, both⟩ none
        · exact List.mem_singleton.mp last ▸ both

theorem run_last {before after : List Slot} {e : Slot} (ran : run start (before ++ e :: after) = .ok chain)
    (both : e.coverage = .both) : after = [] := by
  cases after with
  | nil => rfl
  | cons d after =>
      rw [run_append] at ran
      obtain ⟨s, -, ran⟩ := bind_eq_ok.mp ran
      simp only [run, List.foldlM_cons] at ran
      obtain ⟨state, advances, ran⟩ := bind_eq_ok.mp ran
      obtain ⟨next, stuck, -⟩ := bind_eq_ok.mp ran
      exact absurd ((ChainState.advance_closed advances).mpr both) (ChainState.advance_ok.mp stuck).1

theorem coverage_both {bs : List (Bool × Bool)} : (branches bs).coverage = .both ↔ ∃ b ∈ bs, b.1 ∧ b.2 := by
  simp only [coverage, List.any_eq_true, Bool.and_eq_true]
  split
  · rename_i some
    simp [some]
  · rename_i none
    split <;> simp [none]

theorem Tapered.last {front back : List (Bool × Bool)} {b : Bool × Bool} (tapered : Tapered (branches (front ++ b :: back)))
    (misses : b.2) : back = [] := by
  cases back with
  | nil => rfl
  | cons c back =>
      have inside : b ∈ (front ++ b :: c :: back).dropLast := by
        rw [List.dropLast_append_of_ne_nil (by simp)]
        simp
      rw [tapered b inside] at misses
      cases misses

end Slot

/-! ## Layouts -/

namespace Layout.Made

variable {joins : List Value → List Value → Prop} {layout : Layout}

theorem run (made : layout.Made joins) :
    ∀ slots chain mode, layout = .entries slots chain mode → Slot.run .isOpen slots = .ok chain := by
  induction made with
  | @listed slots attempts =>
      rintro _ _ _ ⟨⟩
      induction slots with
      | nil => rfl
      | cons e slots ih =>
          obtain ⟨rfl, rest⟩ := List.forall_mem_cons.mp attempts
          exact ih rest
  | @append slots e chain chain' mode _ _ advances _ ih =>
      rintro _ _ _ ⟨⟩
      rw [Slot.run_snoc, ih slots chain mode rfl]
      exact advances
  | mode _ _ _ ih =>
      rintro _ _ _ ⟨⟩
      exact ih _ _ _ rfl
  | concat _ _ advances _ ih =>
      rintro _ _ _ ⟨⟩
      rw [Slot.run_append, ih _ _ _ rfl]
      exact advances
  | _ => nofun

theorem tapered (made : layout.Made joins) :
    ∀ slots chain mode, layout = .entries slots chain mode → ∀ e ∈ slots, e.Tapered := by
  induction made with
  | listed attempts =>
      rintro _ _ _ ⟨⟩ e member
      exact attempts e member ▸ trivial
  | append _ last _ _ ih =>
      rintro _ _ _ ⟨⟩
      exact List.forall_mem_append.mpr ⟨ih _ _ _ rfl, List.forall_mem_singleton.mpr last⟩
  | mode _ _ _ ih =>
      rintro _ _ _ ⟨⟩
      exact ih _ _ _ rfl
  | concat _ _ _ _ first second =>
      rintro _ _ _ ⟨⟩
      exact List.forall_mem_append.mpr ⟨first _ _ _ rfl, second _ _ _ rfl⟩
  | _ => nofun

end Layout.Made

/-! ## Nodes -/

namespace Alternative

def branches : Alternative → List Branch
  | attempt _ => []
  | conditional _ bs _ => bs

end Alternative

/-- Whether a branch dispatches a match and a miss. -/
def Branch.Total (b : Branch) : Prop := b.onMatch.isSome ∧ b.onMiss.isSome

theorem Alternative.coverage_both {e : Alternative} : e.coverage = .both ↔ ∃ b ∈ e.branches, b.Total := by
  rw [← coverage_slot]
  cases e with
  | attempt s => simp [slot, Slot.coverage, branches]
  | conditional subject bs fromSwitch => simp [slot, Slot.coverage_both, branches, Branch.outcomes, Branch.Total]

/-- Entries with the chain state and the match mode that the builders give them. -/
structure Alternative.Chained (es : List Alternative) (chain : ChainState) (mode : Option MatchMode) : Prop where
  run : es.foldlM (fun s e => s.advance e.coverage) ChainState.isOpen = .ok chain
  closed : chain = .closed ↔ ∃ e ∈ es, ∃ b ∈ e.branches, b.Total
  last : ∀ before e after front b back, es = before ++ e :: after → e.branches = front ++ b :: back → b.Total →
    after = [] ∧ back = []
  counted : mode.isSome → ∀ e ∈ es, e.isAttempt

theorem Layout.Made.chained {joins : List Value → List Value → Prop} {es : List Alternative} {chain : ChainState}
    {mode : Option MatchMode} (made : (Content.alternatives es chain mode).layout.Made joins) : Alternative.Chained es chain mode := by
  have ran := made.run _ _ _ rfl
  have slots := made.tapered _ _ _ rfl
  have covers : ∀ before e after, es = before ++ e :: after → e.coverage = .both → after = [] := by
    rintro before e after rfl both
    rw [List.map_append, List.map_cons] at ran
    exact List.map_eq_nil_iff.mp (Slot.run_last ran (e.coverage_slot.trans both))
  refine ⟨?_, ?_, fun before e after front b back split inside total => ⟨?_, ?_⟩, fun isSome e member => ?_⟩
  · rw [Slot.run, List.foldlM_map] at ran
    simpa only [Alternative.coverage_slot] using ran
  · simp [Slot.run_closed ran (by simp), Alternative.coverage_slot, Alternative.coverage_both]
  · exact covers before e after split (Alternative.coverage_both.mpr ⟨b, by simp [inside], total⟩)
  · have member : e.slot ∈ es.map Alternative.slot := List.mem_map_of_mem (by simp [split])
    cases e with
    | attempt s => simp [Alternative.branches] at inside
    | conditional subject bs fromSwitch =>
        obtain rfl : bs = front ++ b :: back := inside
        have tapered := slots _ member
        rw [Alternative.slot, List.map_append, List.map_cons] at tapered
        exact List.map_eq_nil_iff.mp (Slot.Tapered.last tapered total.2)
  · exact Alternative.slot_attempt.mp (made.counted _ _ _ rfl isSome e.slot (List.mem_map_of_mem member))

/-- Wherever alternatives stand in a built schema, their chain state is the run of their entries, it is closed when
an entry dispatches every input by one branch, which is then the last branch of the last entry, and a match mode
counts attempts alone. -/
theorem alternatives_chained {s t : Schema} (built : s.Built) (below : s.Below t) {es : List Alternative}
    {chain : ChainState} {mode : Option MatchMode} (content : t.content = .alternatives es chain mode) :
    Alternative.Chained es chain mode :=
  Layout.Made.chained (content ▸ (built.made t below).2)

/-- A number or, failing that, a text. -/
def numberOrText : Schema := .node {} none
  (.alternatives [.conditional none [.mk .number (some .number) (some .string)] false] .closed none)

/-- A schema for a truth value before the same, under a label. -/
def labelledChoice : Schema :=
  let labelled (content : Content) : Schema := .node { label := some "choice" } none content
  labelled (.alternatives [.attempt (labelled (.boolean none none)),
    .conditional none [.mk .number (some (labelled .number)) (some (labelled .string))] false] .closed none)

theorem numberOrText_built : numberOrText.Built := by
  have runs : Script.run [{ name := "alternatives" },
      ⟨"conditional", [.leaf (.schema 0 .number)],
        [("then", .leaf (.schema 1 .number)), ("otherwise", .leaf (.schema 2 .string))]⟩] = .ok numberOrText := rfl
  refine .of_run runs rfl ?_
  show ∀ u ∈ [Schema.number, .number, .string], u.Built
  simp [number_built, string_built]

theorem labelledChoice_built : labelledChoice.Built := by
  have boolean : Script.run [{ name := "boolean" }] = .ok .boolean := rfl
  have boolean_built : Schema.boolean.Built := .of_run boolean rfl (List.forall_mem_nil _)
  have runs : Script.run [{ name := "alternatives", args := [.leaf (.schema 0 .boolean)] },
      { name := "concat", args := [.leaf (.schema 1 numberOrText)] }, { name := "label", args := [.str "choice"] }] =
      .ok labelledChoice := rfl
  refine .of_run runs rfl ?_
  show ∀ u ∈ [Schema.boolean, numberOrText], u.Built
  simp [numberOrText_built, boolean_built]

/-- A merge recomputes the chain state, and a label keeps it. -/
theorem labelledChoice_chained : labelledChoice.Built ∧ labelledChoice.Below labelledChoice ∧
    ∃ es, labelledChoice.content = .alternatives es .closed none ∧ es.length = 2 ∧
      Alternative.Chained es .closed none :=
  ⟨labelledChoice_built, .self _, _, rfl, rfl, alternatives_chained labelledChoice_built (.self _) rfl⟩

end Conform
