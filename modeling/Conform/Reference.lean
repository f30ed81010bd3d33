import Conform.Datum.Equality
import Conform.Datum.Copy
import Conform.Reach
import Conform.Shadow
import Conform.Preferences

/-!
# References

A reference names other data by a key. With the separator `.`, the key `a.b` names a sibling, `.a`
something inside the value itself, each further leading separator climbs one level, `/a` starts at
the root and `$a` at the context. It is resolved at a site, the place of the value being validated.
-/

namespace Conform

/-- Where a value stands: its path from the root and the enclosing values, innermost first. -/
structure Site where
  path : Path := []
  ancestors : List Value := []

namespace Site

/-- The path without its last `n` segments. A count beyond the length is taken from the end once
more. -/
def above (s : Site) (n : Nat) : Path :=
  let len := s.path.length
  s.path.take (if n ≤ len then len - n else 2 * len - n)

/-- The site of a child of `parent`. -/
def child (s : Site) (parent key : Value) : Site := ⟨s.path ++ [key], parent :: s.ancestors⟩

end Site

/-- Besides the path below its target, a reference may adjust what it finds, replace it by a table,
and, as a member of a value set, stand for the items of what it finds if `spreading` is true. -/
structure Reference extends Pointer where
  path : List String
  adjust : Option Fn := none
  table : Option (List (Value × Value)) := none
  spreading : Value := .bool false
  separator : Char := '.'

/-- How functions that adjust a resolved value behave. -/
abbrev Adjustment := Fn → Value → Except Fault Value

namespace Reference

def spread (r : Reference) : Bool := r.spreading.truthy

/-! ## Reading keys -/

def contextMark : Char := '$'

def rootMark : Char := '/'

/-- The segments between separators; the empty key has none. -/
def segments (separator : Char) (key : List Char) : List String :=
  if key.isEmpty then [] else (key.splitOn separator).map String.ofList

/-- The target and path of a key without a mark: leading separators count the levels. -/
def ofPlainKey (separator : Char) (key : List Char) : Target × List String :=
  if key.isEmpty then (.ancestor 1, [""])
  else
    let stripped := key.dropWhile (· == separator)
    match key.length - stripped.length with
    | 0 => (.ancestor 1, segments separator key)
    | n + 1 => (.ancestor n, segments separator stripped)

/-- The target and path of a key. A mark or leading separators fix the target, so they exclude an
explicit ancestor. -/
def ofKey (separator : Char) (ancestor : Option Nat) (key : List Char) :
    Except Fault (Target × List String) := do
  let conflict := "Cannot combine prefix with ancestor option"
  match key, ancestor with
  | c :: rest, a =>
    if c == contextMark || c == rootMark then
      require a.isNone conflict
      return (if c == contextMark then .context else .root, segments separator rest)
    match a with
    | some n =>
      require (c != separator) conflict
      return (.ancestor n, segments separator key)
    | none => return ofPlainKey separator key
  | [], some n => return (.ancestor n, [""])
  | [], none => return ofPlainKey separator []

/-! ## Building -/

/-- The options of a reference as they are given. -/
structure Options where
  ancestor : Value := .null
  adjust : Value := .null
  table : Value := .null
  spreading : Value := .bool false
  separator : Value := .str "."

def separator? : Value → Option Char
  | .str s => match s.toList with
    | [c] => some c
    | _ => none
  | _ => none

/-- The pairs of a table, from a dictionary or from any sequence of pairs. -/
def tablePairs (v : Value) : Except Fault (Option (List (Value × Value))) := do
  match v with
  | .null => return none
  | .dict es => return some es
  | v =>
    let some rows := v.items? | throw (.illTyped "not iterable")
    let rows ← rows.mapM fun row =>
      match row.items? with
      | some cells => Except.ok cells
      | none => .error (.illTyped "not iterable")
    let pairs := rows.filterMap fun
      | [a, b] => some (a, b)
      | _ => none
    require (pairs.length == rows.length) "Invalid map pairs"
    return some pairs

def build (serial : Nat) (key : Value) (o : Options) : Except Fault Reference := do
  let .str text := key | throw (.contract (Fault.contractText [.str "Invalid reference key:", key]))
  let some separator := separator? o.separator
    | throw (.contract (Fault.contractText [.str "Invalid separator:", o.separator]))
  let adjust ← match o.adjust with
    | .null => pure none
    | .leaf (.fn f) => pure (some f)
    | _ => throw (.contract "adjust must be a function")
  let ancestor ← match o.ancestor with
    | .null => pure none
    | .int n =>
      if 0 ≤ n then pure (some n.toNat)
      else throw (.contract (Fault.contractText [.str "Invalid ancestor:", o.ancestor]))
    | v => throw (.contract (Fault.contractText [.str "Invalid ancestor:", v]))
  let table ← tablePairs o.table
  let (target, path) ← ofKey separator ancestor text.toList
  let holdsCache := (table.map fun ps => !(Datum.dict ps).isCopyable).getD false
  return { serial, key := text, target, holdsCache, path, adjust, table, spreading := o.spreading, separator }

/-- The reference that a bare key names. -/
def ofText (key : String) : Except Fault Reference := build 0 (.str key) {}

/-! ## Resolving -/

def pathValues (r : Reference) : Path := r.path.map Datum.str

/-- The path of the target from the root. -/
def absolute (r : Reference) (s : Site) : Except Fault Path :=
  match r.target with
  | .context => .error (.illTyped "a context reference has no place in the data")
  | .root => .ok r.pathValues
  | .ancestor n => .ok (s.above n ++ r.pathValues)

/-- The value that the path starts from, absent beyond the root. -/
def origin? (r : Reference) (value : Value) (s : Site) : Option Value :=
  match r.target with
  | .context => none
  | .root => some (s.ancestors.getLast?.getD value)
  | .ancestor 0 => some value
  | .ancestor (n + 1) => s.ancestors[n]?

/-- The target of the first pair whose source is equal, else the value itself. -/
def mapped (pairs : List (Value × Value)) (v : Value) : Value :=
  match pairs.find? fun p => Datum.deepEqual p.1 v with
  | some p => p.2
  | none => v

/-- Adjusts a found value, then looks it up in the table. -/
def finish (adjust : Adjustment) (r : Reference) (found : Value) : Except Fault Value := do
  let v ← match r.adjust with
    | some f => adjust f found
    | none => pure found
  return match r.table with
    | some pairs => mapped pairs v
    | none => v

/-- The value that a reference finds from the value being validated. Captured values come before the
live data; beyond the root there is nothing, and nothing is adjusted. -/
def resolve (adjust : Adjustment) (shadow : Option Shadow) (context : Option Dict) (r : Reference)
    (value : Value) (s : Site) : Except Fault Value := do
  match r.target with
  | .context => r.finish adjust (← reach (.dict (context.getD [])) r.pathValues)
  | _ =>
    match r.origin? value s with
    | none => return .undefined
    | some origin =>
      let captured ← match shadow with
        | some sh => sh.lookup (← r.absolute s)
        | none => pure .undefined
      let found ← if captured.isUndefined then reach origin r.pathValues else pure captured
      r.finish adjust found

/-- How many levels up the target lies, for references into the data below the root. -/
def depth (r : Reference) : Int :=
  match r.target with
  | .ancestor n => n
  | _ => -1

end Reference

end Conform
