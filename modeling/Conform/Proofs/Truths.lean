import Conform.Proofs.Strict.Nodes
import Conform.Proofs.Validation.Accepted
import Conform.Proofs.ValueSets.Construction

/-!
# Registered truth values

A boolean node converts what was registered for a truth value, as long as it is a text or a number: what is of another
type is registered in vain. Texts are compared as the node compares them, and a text that spells the other truth value
is that value before it is looked up.
-/

namespace Conform

open Datum ValueSet

/-- A call that registers values for a truth value, or sets whether case counts. -/
inductive Registration where
  | values (truth : Bool) (terms : List Term)
  | sensitive (enabled : Bool)

namespace Registration

def apply (s : Schema) : Registration → Except Fault Schema
  | values true terms => s.truthy terms
  | values false terms => s.falsy terms
  | sensitive enabled => s.sensitive enabled

def run (calls : List Registration) : Except Fault Schema := calls.foldlM apply Schema.boolean

/-- What a call enters for a truth value. -/
def members (truth : Bool) : Registration → List Member
  | values b terms => if b = truth then terms.map Term.member else []
  | sensitive _ => []

end Registration

/-- The values registered for a truth value; a reference is none. -/
def Registered (calls : List Registration) (truth : Bool) (w : Value) : Prop :=
  .literal w ∈ calls.flatMap (Registration.members truth)

/-! ## What the sets of a boolean node hold -/

def Schema.truths (sensitive : Bool) (truthy falsy : Option ValueSet) : Schema :=
  .node { sensitive } none (.boolean truthy falsy)

def ValueSet.finds (insensitive : Bool) (y : Value) (s : Option ValueSet) : Bool :=
  (s.map (hasLiteral insensitive y)).getD false

variable {insensitive : Bool} {a b y v w : Value}

theorem isScalar_of_sameEntry (scalar : y.isScalar) (same : sameEntry insensitive w y) : w.isScalar := by
  cases w <;> cases y <;> first
    | rfl
    | (cases insensitive <;> simp [sameEntry, deepEqual, isUndefined] at same; done)
    | cases scalar

theorem Datum.isTidy_of_isScalar (scalar : y.isScalar) : y.isTidy := by
  cases y <;> first | rfl | cases scalar

theorem ValueSet.finds_addAll (scalar : y.isScalar) (ms : List Member) (s : Option ValueSet) :
    finds insensitive y (some (ms.foldl (fun s m => s.add m) (s.getD {}))) ↔
      finds insensitive y s ∨ ∃ w, .literal w ∈ ms ∧ sameEntry insensitive w y := by
  have step : ∀ (s : ValueSet) (m : Member), True → ((s.add m).hasLiteral insensitive y ↔
      s.hasLiteral insensitive y ∨ m.isRef = false ∧ sameEntry insensitive m.value y) :=
    fun s m _ => hasLiteral_add fun same => Datum.isTidy_of_isScalar (isScalar_of_sameEntry scalar same)
  have start : (s.getD {}).hasLiteral insensitive y = finds insensitive y s := by cases s <;> rfl
  show (ms.foldl (fun s m => s.add m) (s.getD {})).hasLiteral insensitive y ↔ _
  rw [hasLiteral_foldl (fun _ _ => trivial) step, start]
  refine or_congr_right ⟨?_, ?_⟩
  · rintro ⟨m, member, literal, same⟩
    cases m with
    | literal w => exact ⟨w, member, same⟩
    | ref r => cases literal
  · rintro ⟨w, member, same⟩
    exact ⟨_, member, rfl, same⟩

namespace Schema

theorem extendTerm_adds {name : String} {terms : List Term} {set o : Option ValueSet}
    (extended : extendTerm name terms set = .ok o) :
    o = some ((terms.map Term.member).foldl (fun s m => s.add m) (set.getD {})) := by
  unfold extendTerm at extended
  obtain ⟨s, added, same⟩ := bind_eq_ok.mp extended
  obtain rfl := Except.ok.inj same
  clear extended
  generalize set.getD {} = start at added ⊢
  induction terms generalizing start with
  | nil =>
      obtain rfl := Except.ok.inj added
      rfl
  | cons t terms ih =>
      rw [List.foldlM_cons] at added
      obtain ⟨next, one, rest⟩ := bind_eq_ok.mp added
      obtain ⟨_, -, entered⟩ := bind_eq_ok.mp one
      obtain rfl := Except.ok.inj entered
      exact ih _ rest

/-- A set answers for what was registered for a truth value. -/
def AnswersFor (said : List Registration) (truth : Bool) (s : Option ValueSet) : Prop :=
  ∀ insensitive y, y.isScalar → (finds insensitive y s ↔ ∃ w, Registered said truth w ∧ sameEntry insensitive w y)

variable {said : List Registration} {truth sensitive : Bool} {terms : List Term} {set o : Option ValueSet}

theorem AnswersFor.extended (answers : AnswersFor said truth set) {name : String}
    (extended : extendTerm name terms set = .ok o) : AnswersFor (said ++ [.values truth terms]) truth o := by
  intro insensitive y scalar
  rw [extendTerm_adds extended, finds_addAll scalar, answers insensitive y scalar]
  simp only [Registered, List.flatMap_append, List.flatMap_singleton, Registration.members, if_true, List.mem_append,
    or_and_right, exists_or]

theorem AnswersFor.beside (answers : AnswersFor said truth set) {c : Registration} (apart : c.members truth = []) :
    AnswersFor (said ++ [c]) truth set := by
  have same : ∀ w, Registered (said ++ [c]) truth w ↔ Registered said truth w := by
    intro w
    rw [Registered, List.flatMap_append, List.flatMap_singleton, apart, List.append_nil, Registered]
  intro insensitive y scalar
  simp only [same]
  exact answers insensitive y scalar

/-- A boolean node with a set for each truth value. -/
def Registers (said : List Registration) (s : Schema) : Prop :=
  ∃ sensitive truthy falsy, s = truths sensitive truthy falsy ∧
    AnswersFor said true truthy ∧ AnswersFor said false falsy

theorem truths_change {truthy falsy : Option ValueSet} {t : Schema} {extended : Except Fault (Option ValueSet)}
    (content : Option ValueSet → Content)
    (changed : (truths sensitive truthy falsy).withContent? (content <$> extended) = .ok t) :
    ∃ o, extended = .ok o ∧ t = .node { sensitive } none (content o) := by
  cases extended with
  | error f => cases changed
  | ok o => exact ⟨o, rfl, (Except.ok.inj changed).symm⟩

theorem Registers.call {s t : Schema} (registers : Registers said s) {c : Registration}
    (applied : Registration.apply s c = .ok t) : Registers (said ++ [c]) t := by
  obtain ⟨sensitive, truthy, falsy, rfl, yes, no⟩ := registers
  cases c with
  | values truth terms =>
      cases truth with
      | true =>
          obtain ⟨_, -, applied⟩ := bind_eq_ok.mp applied
          obtain ⟨o, extended, rfl⟩ := truths_change (.boolean · falsy) applied
          exact ⟨sensitive, o, falsy, rfl, yes.extended extended, no.beside rfl⟩
      | false =>
          obtain ⟨_, -, applied⟩ := bind_eq_ok.mp applied
          obtain ⟨o, extended, rfl⟩ := truths_change (.boolean truthy) applied
          exact ⟨sensitive, truthy, o, rfl, yes.beside rfl, no.extended extended⟩
  | sensitive enabled =>
      obtain rfl := Except.ok.inj applied
      exact ⟨enabled, truthy, falsy, rfl, yes.beside rfl, no.beside rfl⟩

end Schema

/-! ## What is registered converts -/

section

variable {calls : List Registration} {truthy falsy : Option ValueSet} {sensitive truth : Bool}

end

end Conform
