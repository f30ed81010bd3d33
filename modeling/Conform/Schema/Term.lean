import Conform.Schema.Caching

/-!
# Terms

A term is what a builder takes: data whose leaves are references and schemas in full, beside the other
entities. Where a schema or a reference is kept as data it becomes a value.
-/

namespace Conform

/-- The leaves of builder arguments: entities, and references and schemas in full. -/
inductive Item where
  | entity (e : Entity)
  | reference (r : Reference)
  | schema (serial : Nat) (s : Schema)

/-- What a builder takes. -/
abbrev Term := Datum Item

def Item.toEntity : Item → Entity
  | entity e => e
  | reference r => .pointer r.toPointer
  | schema serial s => .outline ⟨serial, s.kind, s.holdsCache⟩

instance : Sized Item := ⟨fun i => i.toEntity.size?⟩

namespace Term

/-- A term seen as a value. -/
def toValue (t : Term) : Value := Datum.map Item.toEntity t

def ofValue (v : Value) : Term := Datum.map Item.entity v

def reference? : Term → Option Reference
  | .leaf (.reference r) => some r
  | _ => none

def schema? : Term → Option Schema
  | .leaf (.schema _ s) => some s
  | _ => none

def fn? : Term → Option Fn
  | .leaf (.entity (.fn f)) => some f
  | _ => none

def isOverride : Term → Bool
  | .leaf (.entity .override) => true
  | _ => false

def member (t : Term) : Member :=
  match t.reference? with
  | some r => .ref r
  | none => .literal t.toValue

mutual

/-- Every reference in a term, in order. -/
def refs : Term → List Reference
  | .leaf (.reference r) => [r]
  | .dict es => entryRefs es
  | .list xs => eachRefs xs
  | .tuple xs => eachRefs xs
  | _ => []

def eachRefs : List Term → List Reference
  | [] => []
  | x :: xs => refs x ++ eachRefs xs

def entryRefs : List (Term × Term) → List Reference
  | [] => []
  | (_, v) :: es => refs v ++ entryRefs es

end

end Term

end Conform
