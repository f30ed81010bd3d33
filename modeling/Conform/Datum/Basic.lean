import Conform.Number.Numeral
import Conform.Calendar

/-!
# Data

`Datum α` is the data that schemas describe and validation works on: scalars, temporals, bytes and
nested containers, with leaves of a type `α` for things that are compared by identity. `Value` has
the entities below as leaves.
-/

namespace Conform

/-- Data with leaves `α`. A dictionary is a list of entries in insertion order, a set a list of its
members; `undefined` is the absent value. -/
inductive Datum (α : Type) where
  | undefined
  | null
  | bool (b : Bool)
  | int (n : Int)
  | float (x : Binary64)
  | str (s : String)
  | bytes (growable : Bool) (data : List UInt8)
  | date (d : Date)
  | clock (c : Clock)
  | moment (m : Moment)
  | list (items : List (Datum α))
  | tuple (items : List (Datum α))
  | set (frozen : Bool) (members : List (Datum α))
  | dict (entries : List (Datum α × Datum α))
  | leaf (a : α)

instance {α : Type} : Inhabited (Datum α) := ⟨.undefined⟩

/-- Entries of a dictionary in insertion order. -/
abbrev Entries (α : Type) := List (Datum α × Datum α)

/-- The types of schema nodes. `probe` is the sample extension type. -/
inductive Kind where
  | any | boolean | number | string | array | object | alternatives | probe
deriving DecidableEq, Inhabited, Repr

def Kind.name : Kind → String
  | any => "any"
  | boolean => "boolean"
  | number => "number"
  | string => "string"
  | array => "array"
  | object => "object"
  | alternatives => "alternatives"
  | probe => "probe"

/-- What a reference points at: the context, the root, or the `n`-th enclosing value, where the
zeroth is the value itself. -/
inductive Target where
  | context
  | root
  | ancestor (n : Nat)
deriving DecidableEq, Inhabited, Repr

/-- A reference seen as a value, and whether its table holds a result cache. -/
structure Pointer where
  serial : Nat
  key : String
  target : Target
  holdsCache : Bool := false
deriving DecidableEq, Inhabited, Repr

/-- An exception raised by a function, or given as an object. -/
structure Raised where
  kind : String
  text : String
  serial : Nat := 0
deriving DecidableEq, Inhabited, Repr

/-- A schema node seen as a value, and whether there is a result cache in it. -/
structure Outline where
  serial : Nat
  kind : Kind
  holdsCache : Bool := false
deriving DecidableEq, Inhabited, Repr

/-- A result cache: which table it is, and its size. A size given as `true` counts one. -/
structure CacheHandle where
  serial : Nat
  capacity : Nat
  givenAsTrue : Bool := false
deriving DecidableEq, Inhabited, Repr

/-- A named function and its parameters. A function that makes the members of a class has its name. -/
structure FnOf (α : Type) where
  serial : Nat
  name : String
  params : List (String × Datum α)
  className : Option String := none

/-- One failed constraint: its code, the place and the value, the names its message may use, and the
source of the message. -/
structure ReportOf (α : Type) where
  code : Datum α
  path : List (Datum α)
  value : Datum α
  locals : List (Datum α × Datum α)
  label : String
  template : Datum α

/-- Things that are themselves and equal to nothing else. -/
inductive Entity where
  | token (name : String)
  | fn (f : FnOf Entity)
  | raised (e : Raised)
  | pattern (source : String)
  | override
  | deepDefault
  | pointer (p : Pointer)
  | outline (o : Outline)
  | cache (c : CacheHandle)
  | report (r : ReportOf Entity)
  /-- What the `n`-th deep copy made of an entity. -/
  | copy (n : Nat) (e : Entity)

abbrev Value := Datum Entity
abbrev Dict := Entries Entity
abbrev Fn := FnOf Entity
abbrev Report := ReportOf Entity
abbrev Path := List Value

/-- Leaves that may have a size. -/
class Sized (α : Type) where
  size? : α → Option Nat

namespace Datum

variable {α β : Type}

mutual

/-- Replaces the leaves. -/
def map (f : α → β) : Datum α → Datum β
  | undefined => undefined
  | null => null
  | bool b => bool b
  | int n => int n
  | float x => float x
  | str s => str s
  | bytes g d => bytes g d
  | date d => date d
  | clock c => clock c
  | moment m => moment m
  | list xs => list (mapList f xs)
  | tuple xs => tuple (mapList f xs)
  | set z xs => set z (mapList f xs)
  | dict es => dict (mapEntries f es)
  | leaf a => leaf (f a)

def mapList (f : α → β) : List (Datum α) → List (Datum β)
  | [] => []
  | x :: xs => map f x :: mapList f xs

def mapEntries (f : α → β) : Entries α → Entries β
  | [] => []
  | (k, v) :: es => (map f k, map f v) :: mapEntries f es

end

/-- The number that a number or a truth value counts as. -/
def number? : Datum α → Option Number
  | bool b => some (.int (if b then 1 else 0))
  | int n => some (.int n)
  | float x => some (.float x)
  | _ => none

def isUndefined : Datum α → Bool
  | undefined => true
  | _ => false

def isNull : Datum α → Bool
  | null => true
  | _ => false

def isDict : Datum α → Bool
  | dict _ => true
  | _ => false

def isNan : Datum α → Bool
  | float x => x.isNan
  | _ => false

def isText : Datum α → Bool
  | str _ => true
  | _ => false

/-- The text that a datum is, if it is one. -/
def text? : Datum α → Option String
  | str s => some s
  | _ => none

def isBool : Datum α → Bool
  | bool _ => true
  | _ => false

/-- The absent value, null, false, zero and whatever is empty count as false. -/
def truthy [Sized α] : Datum α → Bool
  | undefined => false
  | null => false
  | bool b => b
  | int n => n != 0
  | float (.finite _ m _) => m != 0
  | float _ => true
  | str s => s != ""
  | bytes _ d => !d.isEmpty
  | date _ => true
  | clock _ => true
  | moment _ => true
  | list xs => !xs.isEmpty
  | tuple xs => !xs.isEmpty
  | set _ xs => !xs.isEmpty
  | dict es => !es.isEmpty
  | leaf a => Sized.size? a != some 0

mutual

/-- Lists, dictionaries and whatever can grow cannot be keys, nor can a tuple that holds them. -/
def isHashable : Datum α → Bool
  | list _ => false
  | dict _ => false
  | set frozen _ => frozen
  | bytes growable _ => !growable
  | tuple xs => allHashable xs
  | _ => true

def allHashable : List (Datum α) → Bool
  | [] => true
  | x :: xs => isHashable x && allHashable xs

end

/-- The number of items, characters, entries or bytes. -/
def length? [Sized α] : Datum α → Option Nat
  | str s => some s.length
  | bytes _ d => some d.length
  | list xs => some xs.length
  | tuple xs => some xs.length
  | set _ xs => some xs.length
  | dict es => some es.length
  | leaf a => Sized.size? a
  | _ => none

/-- The items met when going through the datum in order. -/
def items? : Datum α → Option (List (Datum α))
  | str s => some (s.toList.map fun c => str c.toString)
  | bytes _ d => some (d.map fun b => int b.toNat)
  | list xs => some xs
  | tuple xs => some xs
  | set _ xs => some xs
  | dict es => some (es.map Prod.fst)
  | _ => none

end Datum

namespace Entity

/-- A cache is empty before its first use, and other entities have no size. -/
def size? : Entity → Option Nat
  | cache _ => some 0
  | _ => none

instance : Sized Entity := ⟨size?⟩

/-- Being the same thing: tokens by name, patterns by source, the rest by serial number. Reports are
told apart by the text of their code, if it is one, and by their place in the data, copies by the
copying that made them. -/
def same : Entity → Entity → Bool
  | token a, token b => a == b
  | fn f, fn g => f.serial == g.serial && f.name == g.name
  | raised a, raised b => a.serial == b.serial && a.kind == b.kind && a.text == b.text
  | pattern a, pattern b => a == b
  | override, override => true
  | deepDefault, deepDefault => true
  | pointer p, pointer q => p.serial == q.serial
  | outline a, outline b => a.serial == b.serial
  | cache a, cache b => a.serial == b.serial
  | report r, report s =>
    r.code.text? == s.code.text? && r.path.length == s.path.length && r.label == s.label
  | copy m a, copy n b => m == n && same a b
  | _, _ => false

instance : BEq Entity := ⟨same⟩

end Entity

end Conform
