import Conform.Reference
import Conform.Text.Case

/-!
# Sets of allowed or denied values

A value set holds literal entries, no two of them deeply equal, in order of first insertion, and
references, which are resolved when a value is looked up. `add` keeps the two apart; `ofList` takes
every member literally, so that a reference among them is a value like others and is not resolved.
-/

namespace Conform

/-- What is entered into a value set: a value, or a reference. -/
inductive Member where
  | literal (v : Value)
  | ref (r : Reference)

/-- A member seen as a value. -/
def Member.value : Member → Value
  | literal v => v
  | ref r => .leaf (.pointer r.toPointer)

structure ValueSet where
  literals : List Member := []
  refs : List Reference := []
  replaces : Bool := false

/-- Texts are equal up to case where that is asked for, except that the empty text is equal only to
itself. -/
def sameEntry (insensitive : Bool) (item value : Value) : Bool :=
  match insensitive, item, value with
  | true, .str a, .str b => if b = "" then a = b else Text.fold a = Text.fold b
  | _, _, _ => Datum.deepEqual item value

/-- The entry that a look-up found, and the reference it came from. -/
structure Found where
  value : Value
  ref : Option Reference := none

namespace ValueSet

def length (s : ValueSet) : Nat := s.literals.length + s.refs.length

def members (s : ValueSet) : List Member := s.literals ++ s.refs.map .ref

def literalValues (s : ValueSet) : List Value := s.literals.map Member.value

/-- The literal entries, then the references as values. -/
def values (s : ValueSet) (stripUndefined : Bool) : List Value :=
  (if stripUndefined then s.literalValues.filter fun v => !v.isUndefined else s.literalValues)
    ++ s.refs.map fun r => (Member.ref r).value

def text (s : ValueSet) : String :=
  "Values([" ++ ", ".intercalate ((s.values false).map Datum.quoted) ++ "])"

/-! ## Changing a set -/

/-- Enters a member among the literal entries. -/
def addLiteral (m : Member) (s : ValueSet) : ValueSet :=
  if s.literalValues.any fun w => Datum.deepEqual w m.value then s
  else { s with literals := s.literals ++ [m] }

def addRef (r : Reference) (s : ValueSet) : ValueSet :=
  if s.refs.any fun q => q.serial == r.serial then s else { s with refs := s.refs ++ [r] }

def add (m : Member) (s : ValueSet) : ValueSet :=
  match m with
  | .literal v => s.addLiteral (.literal v)
  | .ref r => s.addRef r

def remove (m : Member) (s : ValueSet) : ValueSet :=
  match m with
  | .literal v => { s with literals := s.literals.filter fun w => !Datum.deepEqual w.value v }
  | .ref r => { s with refs := s.refs.filter fun q => q.serial != r.serial }

/-- The set of the given literal entries, beside references taken as they are. -/
def ofLists (literals : List Member) (refs : List Reference) : ValueSet :=
  literals.foldl (fun s m => s.addLiteral m) { refs }

/-- The set of members taken literally. -/
def ofList (members : List Member) : ValueSet := ofLists members []

/-- A set of its own with the same members. -/
def clone (s : ValueSet) : ValueSet := { literals := s.literals, refs := s.refs, replaces := s.replaces }

/-- Both sets together; a set that replaces others cannot be added to one. -/
def concat (s source : ValueSet) : Except Fault ValueSet := do
  require (!source.replaces) "Cannot concat override set of values"
  let merged := ofLists s.literals s.refs
  let merged := source.literals.foldl (fun t m => t.addLiteral m) merged
  let merged := source.refs.foldl (fun t r => t.addRef r) merged
  return { merged with replaces := s.replaces }

/-- A clone of the set with the members of one set entered and those of another dropped. -/
def merge (s : ValueSet) (added removed : Option ValueSet) : ValueSet :=
  let withAdded := ((added.map members).getD []).foldl (fun t m => t.add m) s.clone
  ((removed.map members).getD []).foldl (fun t m => t.remove m) withAdded

/-! ## Looking up -/

/-- The first literal entry that equals a value. -/
def findLiteral? (insensitive : Bool) (value : Value) (s : ValueSet) : Option Value :=
  s.literalValues.find? fun v => sameEntry insensitive v value

def hasLiteral (insensitive : Bool) (value : Value) (s : ValueSet) : Bool :=
  (s.findLiteral? insensitive value).isSome

/-- The entries that a reference stands for once resolved: itself, or its items if it spreads. -/
def candidates (r : Reference) (resolved : Value) : List Value :=
  match r.spread, resolved with
  | true, .dict es => es.map Prod.fst
  | true, .list xs => xs
  | true, .tuple xs => xs
  | _, v => [v]

/-- The first entry that equals the value; references come last and are asked through `resolve`. -/
def lookup (resolve : Reference → Except Fault Value) (insensitive : Bool) (value : Value)
    (s : ValueSet) : Except Fault (Option Found) :=
  match s.findLiteral? insensitive value with
  | some v => .ok (some ⟨v, none⟩)
  | none => inRefs s.refs
where
  inRefs : List Reference → Except Fault (Option Found)
    | [] => .ok none
    | r :: rest => do
      let resolved ← resolve r
      if resolved.isUndefined then inRefs rest
      else
        match (candidates r resolved).find? fun v => sameEntry insensitive v value with
        | some v => return some ⟨v, some r⟩
        | none => inRefs rest

def has (resolve : Reference → Except Fault Value) (insensitive : Bool) (value : Value) (s : ValueSet) :
    Except Fault Bool :=
  return (← s.lookup resolve insensitive value).isSome

end ValueSet

end Conform
