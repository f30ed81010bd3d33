import Conform.Proofs.Schema.Steps

/-!
# Schemas compiled from terms

A proper term of schemas that are made compiles to one, and so does what the builders make of them. The keys in a
term must be keys, and its patterns must be readable.
-/

namespace Conform

variable {joins : List Value → List Value → Prop}

namespace Term

mutual

/-- The schemas in a term. -/
def schemas : Term → List Schema
  | .leaf (.schema _ s) => [s]
  | .dict es => entrySchemas es
  | .list xs => eachSchemas xs
  | .tuple xs => eachSchemas xs
  | _ => []

def eachSchemas : List Term → List Schema
  | [] => []
  | x :: xs => schemas x ++ eachSchemas xs

def entrySchemas : List (Term × Term) → List Schema
  | [] => []
  | (_, t) :: es => schemas t ++ entrySchemas es

end

mutual

/-- Whether the keys of a term can be keys and its patterns are patterns. -/
def isProper : Term → Bool
  | .leaf (.entity (.pattern source)) => (Pattern.read? source).isSome
  | .dict es => properEntries es
  | .list xs => properEach xs
  | .tuple xs => properEach xs
  | _ => true

def properEach : List Term → Bool
  | [] => true
  | x :: xs => isProper x && properEach xs

def properEntries : List (Term × Term) → Bool
  | [] => true
  | (k, t) :: es => (toValue k).isHashable && isProper t && properEntries es

end

/-- A proper term of schemas that are made. -/
def Made (joins : List Value → List Value → Prop) (t : Term) : Prop := t.isProper ∧ ∀ s ∈ t.schemas, s.Made joins

theorem Made.readable {t : Term} (made : t.Made joins) : t.Readable := by
  intro source same
  cases t with
  | leaf i =>
      cases i with
      | entity e =>
          have itself : (.leaf e : Value) = .leaf (.pattern source) := same
          cases itself
          exact made.1
      | _ => cases same
  | _ => cases same

theorem Made.schema {t : Term} {s : Schema} (made : t.Made joins) (is : t.schema? = some s) : s.Made joins := by
  unfold schema? at is
  split at is <;> cases is
  exact made.2 s (by simp [schemas])

theorem made_each {xs : List Term} (proper : properEach xs) (each : ∀ s ∈ eachSchemas xs, s.Made joins) :
    ∀ x ∈ xs, x.Made joins := by
  induction xs with
  | nil => exact List.forall_mem_nil _
  | cons x xs ih =>
      rw [properEach, Bool.and_eq_true] at proper
      refine List.forall_mem_cons.mpr ⟨⟨proper.1, fun s member => each s ?_⟩, ih proper.2 fun s member => each s ?_⟩
      · exact List.mem_append_left _ member
      · exact List.mem_append_right _ member

theorem Made.list {xs : List Term} (made : Made joins (.list xs)) : ∀ x ∈ xs, x.Made joins :=
  made_each made.1 made.2

theorem Made.tuple {xs : List Term} (made : Made joins (.tuple xs)) : ∀ x ∈ xs, x.Made joins :=
  made_each made.1 made.2

theorem Made.dict {es : List (Term × Term)} (made : Made joins (.dict es)) :
    ∀ e ∈ es, (toValue e.1).isHashable ∧ e.2.Made joins := by
  obtain ⟨proper, each⟩ := made
  rw [isProper] at proper
  rw [schemas] at each
  induction es with
  | nil => exact List.forall_mem_nil _
  | cons e es ih =>
      obtain ⟨k, t⟩ := e
      simp only [properEntries, Bool.and_eq_true] at proper
      obtain ⟨⟨key, here⟩, rest⟩ := proper
      refine List.forall_mem_cons.mpr ⟨⟨key, here, fun s member => each s ?_⟩, ih rest fun s member => each s ?_⟩
      · exact List.mem_append_left _ member
      · exact List.mem_append_right _ member

end Term

namespace Content

theorem Holds.array {ss : List Schema} (items : ∀ s ∈ ss, s.Made joins) : (array ss).Holds joins :=
  ⟨fun _ same => by cases same; exact items, nofun, nofun⟩

theorem Holds.object {ks : List (Value × Schema)} (keys : ∀ e ∈ ks, e.2.Made joins) : (object (some ks)).Holds joins :=
  ⟨nofun, fun _ same => by cases same; exact keys, nofun⟩

theorem Holds.alternatives {es : List Alternative} {chain : ChainState} {mode : Option MatchMode}
    (entries : ∀ e ∈ es, e.Made joins) : (alternatives es chain mode).Holds joins :=
  ⟨nofun, nofun, fun _ _ _ same => by cases same; exact entries⟩

end Content

namespace Schema

variable {s : Schema}

/-! ## Compiling -/

/-- Declared children that can be made. -/
def KeysMade (joins : List Value → List Value → Prop) (ks : List (Value × Schema)) : Prop :=
  (Layout.keys (some (ks.map Prod.fst))).Made joins ∧ ∀ e ∈ ks, e.2.Made joins

theorem KeysMade.declare {key : Value} {child : Schema} {ks : List (Value × Schema)} (keys : KeysMade joins ks)
    (hashable : key.isHashable) (made : child.Made joins) : KeysMade joins (declare key child ks) := by
  refine ⟨keys_declare key child ks ▸ keys.1.declare hashable, fun e member => ?_⟩
  rcases List.mem_append.mp member with old | last
  · exact keys.2 e (List.mem_filter.mp old).1
  · exact List.mem_singleton.mp last ▸ made

theorem KeysMade.empty : KeysMade joins [] := ⟨.keyless, List.forall_mem_nil _⟩

/-- Attempts of schemas that can be made. -/
def AttemptsMade (joins : List Value → List Value → Prop) (es : List Alternative) : Prop :=
  (∀ e ∈ es, e.isAttempt) ∧ ∀ e ∈ es, e.Made joins

theorem AttemptsMade.content {es : List Alternative} (made : AttemptsMade joins es) :
    (Content.alternatives es .isOpen none).layout.Made joins := by
  refine .listed fun slot member => ?_
  obtain ⟨e, inside, rfl⟩ := List.mem_map.mp member
  exact Alternative.slot_attempt.mpr (made.1 e inside)

mutual

theorem compile_made : ∀ t : Term, t.Made joins → Delivers (Made joins) (compile t)
  | .leaf (.schema _ s), made => by
      rw [compile]
      exact .pure (made.2 s (List.mem_singleton.mpr rfl))
  | .leaf (.reference r), _ => by
      rw [compile]
      exact made_any.valid _
  | .leaf (.entity e), made => by
      cases e with
      | pattern source =>
          rw [compile]
          exact made_string.pattern made.readable nofun nofun
      | _ =>
          simp only [compile]
          exact .error _
  | .dict es, made => by
      rw [compile]
      refine (compileKeys_made es made.dict [] .empty).bind fun ks keys => .pure ?_
      exact made_ofContent keys.1 (.object keys.2)
  | .list xs, made => by
      rw [compile]
      refine .require fun _ => (compileEach_made xs made.list).bind fun es entries => .pure ?_
      exact made_ofContent entries.content (.alternatives entries.2)
  | .null, _ => by
      rw [compile]
      exact made_any.valid _
  | .str _, _ | .int _, _ | .float _, _ | .bool _, _ | .bytes false _, _ | .date _, _ | .moment _, _ | .clock _, _ => by
      rw [compile]
      exact made_any.valid _
  | .undefined, _ | .bytes true _, _ | .tuple _, _ | .set _ _, _ => by
      simp only [compile]
      exact .error _

theorem compileEach_made : ∀ xs : List Term, (∀ x ∈ xs, x.Made joins) → Delivers (AttemptsMade joins) (compileEach xs)
  | [], _ => by
      rw [compileEach]
      exact .pure ⟨List.forall_mem_nil _, List.forall_mem_nil _⟩
  | x :: xs, made => by
      rw [compileEach]
      refine (Delivers.any _).bind fun _ _ => (compile_made x (made x (by simp))).bind fun s here => ?_
      refine (compileEach_made xs fun y member => made y (by simp [member])).bind fun es entries => .pure ?_
      exact ⟨List.forall_mem_cons.mpr ⟨rfl, entries.1⟩, List.forall_mem_cons.mpr ⟨here, entries.2⟩⟩

theorem compileKeys_made : ∀ es : List (Term × Term), (∀ e ∈ es, (Term.toValue e.1).isHashable ∧ e.2.Made joins) →
    ∀ ks : List (Value × Schema), KeysMade joins ks → Delivers (KeysMade joins) (compileKeys ks es)
  | [], _, ks, keys => by
      rw [compileKeys]
      exact .pure keys
  | (k, t) :: es, made, ks, keys => by
      rw [compileKeys]
      obtain ⟨⟨hashable, here⟩, rest⟩ := List.forall_mem_cons.mp made
      refine (Delivers.any _).bind fun _ _ => (compile_made t here).bind fun child isMade => ?_
      exact compileKeys_made es rest _ (keys.declare hashable isMade)

end

theorem compileOption_made {t : Term} (made : t.Made joins) :
    Delivers (fun o => ∀ s, o = some s → s.Made joins) (compileOption t) := by
  unfold compileOption
  split
  · exact .pure nofun
  · exact ((compile_made t made).bind (g := fun s => .ok (some s)) fun s here =>
      .pure fun _ same => Option.some.inj same ▸ here)

/-! ## Children and items -/

theorem Made.empty (made : s.Made joins) {t : Term} (term : t.Made joins) : Delivers (Made joins) (s.empty t) :=
  (compileOption_made term).bind fun _ empty => made.withEmpty empty

theorem Made.keys (made : s.Made joins) {t : Term} (term : t.Made joins) : Delivers (Made joins) (s.keys t) := by
  obtain ⟨-, layout, content, -⟩ := made.parts
  unfold Schema.keys
  split
  · rename_i declared same
    have kind : Kind.object = s.kind := by
      rw [Schema.kind, same]
      rfl
    split
    · exact made.withContent kind .unkeyed ⟨by simp, by simp, by simp⟩
    · rename_i es
      have old : KeysMade joins (declared.getD []) := by
        cases declared with
        | none => exact .empty
        | some ks =>
            rw [same] at layout
            exact ⟨layout, content.keys ks same⟩
      refine made.withContent? ((compileKeys_made es term.dict _ old).bind fun ks keys => .pure ?_)
      exact ⟨kind, keys.1, .object keys.2⟩
    · exact .error _
  · exact .error _

theorem Made.extend (made : s.Made joins) {t : Term} (term : t.Made joins) : Delivers (Made joins) (s.extend t) := by
  unfold Schema.extend
  split
  · exact made.keys term
  · exact .pure made

theorem Made.items (made : s.Made joins) {terms : List Term} (each : ∀ t ∈ terms, t.Made joins) :
    Delivers (Made joins) (s.items terms) := by
  obtain ⟨-, -, content, -⟩ := made.parts
  unfold Schema.items
  split
  · rename_i items same
    refine .require fun _ => made.withContent? ?_
    refine (Delivers.mapM_each fun t member => compile_made t (each t member)).bind fun added compiled => .pure ⟨?_, ?_, ?_⟩
    · rw [Schema.kind, same]
      rfl
    · exact .plain
    · exact .array (List.forall_mem_append.mpr ⟨content.items items same, compiled⟩)
  · exact .error _

end Schema

end Conform
