import Conform.Datum.Key
import Conform.Datum.Text
import Conform.Fault

/-!
# The kinds of values by name

The name of the kind of a value, and the faults that name it: a value that cannot be a key, that has no
items, or that is no sequence of entries.
-/

namespace Conform

/-- The kind of an entity, with the family of the kind where it is `full`. -/
def Entity.kindName (full : Bool) : Entity → String
  | raised e => e.kind
  | fn f => if f.className.isSome then "type" else "function"
  | pattern _ => if full then "re.Pattern" else "Pattern"
  | pointer _ => "Reference"
  | outline o => o.kind.className
  | cache _ => "Cache"
  | report _ => "ErrorReport"
  | copy _ e => e.kindName full
  | _ => "object"

namespace Datum

/-- The kind of a value, with the family of the kind where it is `full`. -/
def kindName (full : Bool) : Value → String
  | undefined => "_Undefined"
  | null => "NoneType"
  | bool _ => "bool"
  | int _ => "int"
  | float _ => "float"
  | str _ => "str"
  | bytes growable _ => if growable then "bytearray" else "bytes"
  | date _ => if full then "datetime.date" else "date"
  | clock _ => if full then "datetime.time" else "time"
  | moment _ => if full then "datetime.datetime" else "datetime"
  | list _ => "list"
  | tuple _ => "tuple"
  | set frozen _ => if frozen then "frozenset" else "set"
  | dict _ => "dict"
  | leaf e => e.kindName full

mutual

/-- The first part of a value that keeps it from being a key. -/
def unhashablePart? : Value → Option Value
  | tuple xs => unhashableItem? xs
  | v => if v.isHashable then none else some v

def unhashableItem? : List Value → Option Value
  | [] => none
  | x :: xs => unhashablePart? x <|> unhashableItem? xs

end

/-- A value as a key. -/
def toKey (v : Value) : Except Fault Value :=
  match unhashablePart? v with
  | some part => .error (.illTyped ("unhashable type: '" ++ kindName true part ++ "'"))
  | none => .ok v

/-- The items met when going through a value. -/
def toItems (v : Value) : Except Fault (List Value) :=
  match v.items? with
  | some xs => .ok xs
  | none => .error (.illTyped ("'" ++ kindName true v ++ "' object is not iterable"))

/-- The entry that a sequence of a key and a value stands for, at its place among others. -/
def toEntry (place : Nat) (row : Value) : Except Fault (Value × Value) :=
  match row.items? with
  | none => .error (.illTyped
      ("cannot convert dictionary update sequence element #" ++ toString place ++ " to a sequence"))
  | some [k, v] => k.toKey.map fun k => (k, v)
  | some cells => .error (.unreadable ("dictionary update sequence element #" ++ toString place
      ++ " has length " ++ toString cells.length ++ "; 2 is required"))

def toEntriesFrom (place : Nat) : List Value → Except Fault Dict
  | [] => .ok []
  | row :: rows => do
    let e ← toEntry place row
    return e :: (← toEntriesFrom (place + 1) rows)

/-- The entries that a value stands for: those of a dictionary, or a sequence of entries. -/
def toEntries (v : Value) : Except Fault Dict :=
  match v with
  | dict es => .ok es
  | v => do return ofEntries (← toEntriesFrom 0 (← v.toItems))

/-- The same, where a value that counts as false has no entries. -/
def toEntriesIfTrue (v : Value) : Except Fault Dict := if v.truthy then v.toEntries else .ok []

end Datum

end Conform
