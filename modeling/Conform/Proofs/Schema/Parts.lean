import Mathlib.Logic.Relation
import Conform.Schema.Caching
import Conform.Validation.Run

/-!
# The parts of a schema and the places where they are evaluated

A schema stands in a role below another one, and the role fixes the path and the preferences under which
it is evaluated, and whether anything that it writes is kept.
-/

namespace Conform

/-- How a schema stands below another one. -/
inductive Role where
  | empty
  | item (i : Nat)
  | key (k : Value)
  | entry
  | test

namespace Role

def segments : Role → Path
  | item i => [.int i]
  | key k => [k]
  | _ => []

/-- The preferences for a part, given those of the schema above it. -/
def prefs (p : Preferences) : Role → Preferences
  | empty => ({} : Preferences).forMatching
  | test => p.forMatching
  | _ => p

/-- Whether a part only tests, so that nothing that it writes is kept. -/
def tests : Role → Bool
  | empty => true
  | test => true
  | _ => false

end Role

namespace Schema

inductive Part : Schema → Role → Schema → Prop
  | empty {core : Core} {e : Schema} {content : Content} : Part (.node core (some e) content) .empty e
  | item {core : Core} {empty : Option Schema} {items : List Schema} {s : Schema} (i : Nat)
      (member : s ∈ items) : Part (.node core empty (.array items)) (.item i) s
  | key {core : Core} {empty : Option Schema} {ks : List (Value × Schema)} {k : Value} {s : Schema}
      (member : (k, s) ∈ ks) : Part (.node core empty (.object (some ks))) (.key k) s
  | attempt {core : Core} {empty : Option Schema} {es : List Alternative} {chain : ChainState}
      {mode : Option MatchMode} {s : Schema} (member : .attempt s ∈ es) :
      Part (.node core empty (.alternatives es chain mode)) .entry s
  | test {core : Core} {empty : Option Schema} {es : List Alternative} {chain : ChainState}
      {mode : Option MatchMode} {subject : Option Reference} {bs : List Branch} {fromSwitch : Bool}
      {test : Schema} {yes no : Option Schema} (entry : .conditional subject bs fromSwitch ∈ es)
      (member : .mk test yes no ∈ bs) : Part (.node core empty (.alternatives es chain mode)) .test test
  | onMatch {core : Core} {empty : Option Schema} {es : List Alternative} {chain : ChainState}
      {mode : Option MatchMode} {subject : Option Reference} {bs : List Branch} {fromSwitch : Bool}
      {test s : Schema} {no : Option Schema} (entry : .conditional subject bs fromSwitch ∈ es)
      (member : .mk test (some s) no ∈ bs) : Part (.node core empty (.alternatives es chain mode)) .entry s
  | onMiss {core : Core} {empty : Option Schema} {es : List Alternative} {chain : ChainState}
      {mode : Option MatchMode} {subject : Option Reference} {bs : List Branch} {fromSwitch : Bool}
      {test s : Schema} {yes : Option Schema} (entry : .conditional subject bs fromSwitch ∈ es)
      (member : .mk test yes (some s) ∈ bs) : Part (.node core empty (.alternatives es chain mode)) .entry s

theorem part_of_empty (s : Schema) {e : Schema} (given : s.empty? = some e) : s.Part .empty e := by
  obtain ⟨core, empty, content⟩ := s
  obtain rfl : empty = some e := given
  exact .empty

theorem part_of_item (s : Schema) {items : List Schema} {t : Schema} (content : s.content = .array items) (i : Nat)
    (member : t ∈ items) : s.Part (.item i) t := by
  obtain ⟨core, empty, _⟩ := s
  obtain rfl := content
  exact .item i member

theorem part_of_key (s : Schema) {ks : List (Value × Schema)} {k : Value} {t : Schema}
    (content : s.content = .object (some ks)) (member : (k, t) ∈ ks) : s.Part (.key k) t := by
  obtain ⟨core, empty, _⟩ := s
  obtain rfl := content
  exact .key member

theorem Part.smaller {s t : Schema} {role : Role} (part : s.Part role t) : sizeOf t < sizeOf s := by
  cases part with
  | empty => simp; omega
  | item i member =>
      have := List.sizeOf_lt_of_mem member
      simp
      omega
  | key member =>
      have := List.sizeOf_lt_of_mem member
      simp at this ⊢
      omega
  | attempt member =>
      have := List.sizeOf_lt_of_mem member
      simp at this ⊢
      omega
  | test entry member =>
      have := List.sizeOf_lt_of_mem entry
      have := List.sizeOf_lt_of_mem member
      simp at *
      omega
  | onMatch entry member =>
      have := List.sizeOf_lt_of_mem entry
      have := List.sizeOf_lt_of_mem member
      simp at *
      omega
  | onMiss entry member =>
      have := List.sizeOf_lt_of_mem entry
      have := List.sizeOf_lt_of_mem member
      simp at *
      omega

@[elab_as_elim]
theorem parts_induction {motive : Schema → Prop}
    (step : ∀ s, (∀ role t, s.Part role t → motive t) → motive s) (s : Schema) : motive s :=
  step s fun _ t _ => parts_induction step t
termination_by sizeOf s
decreasing_by exact Part.smaller ‹_›

/-- A schema that stands at or below another one. -/
def Below (s t : Schema) : Prop := Relation.ReflTransGen (fun a b => ∃ role, a.Part role b) s t

theorem Below.self (s : Schema) : s.Below s := .refl

theorem Part.below {s t u : Schema} {role : Role} (part : s.Part role t) (below : t.Below u) : s.Below u :=
  .head ⟨role, part⟩ below

/-- The preferences that a node checks with, given those of the schema above it. -/
def merged (s : Schema) (p : Preferences) : Except Fault Preferences :=
  match s.core.prefs with
  | some o => p.merge o
  | none => .ok p

end Schema

/-- A schema with the path and the preferences, without their context, that it is evaluated with. -/
structure Place where
  tests : Bool
  schema : Schema
  path : Path
  prefs : Preferences

namespace Place

/-- The place of a part of the schema at a place. -/
inductive Child : Place → Place → Prop
  | part {s t : Schema} {role : Role} {tests : Bool} {path : Path} {p q : Preferences}
      (part : s.Part role t) (merged : s.merged p = .ok q) :
      Child ⟨tests, s, path, p⟩
        ⟨tests || role.tests, t, path ++ role.segments, role.prefs { q with context := none }⟩

/-- A property of every place that an evaluation from this one comes to. -/
def Everywhere (P : Place → Prop) (start : Place) : Prop :=
  ∀ place, Relation.ReflTransGen Child start place → P place

variable {P Q : Place → Prop} {start : Place}

theorem Everywhere.here (all : Everywhere P start) : P start := all start .refl

theorem Everywhere.below {place : Place} (all : Everywhere P start) (child : Child start place) :
    Everywhere P place := fun other path => all other (.head child path)

theorem everywhere_below {P : Place → Prop} {start : Place}
    (each : ∀ p : Place, start.schema.Below p.schema → P p) : Place.Everywhere P start := by
  intro p path
  apply each
  induction path with
  | refl => exact .refl
  | tail _ child ih =>
      cases child with
      | part part _ => exact ih.tail ⟨_, part⟩

/-- A schema without parts is evaluated at one place. -/
theorem Everywhere.alone (whole : ∀ role t, ¬ start.schema.Part role t) (here : P start) :
    Everywhere P start := by
  intro place path
  rcases Relation.ReflTransGen.cases_head path with same | ⟨next, child, -⟩
  · exact same ▸ here
  · cases child with
    | part part merged => exact absurd part (whole _ _)

theorem Everywhere.imp (all : Everywhere P start) (weaker : ∀ place, P place → Q place) :
    Everywhere Q start := fun place path => weaker place (all place path)

end Place

end Conform
