import Conform.Datum.Key
import Conform.Fault

/-!
# Following a path

`reach` follows a path into nested dictionaries and lists. A segment addresses a list by an integer,
or by a text of digits with a minus sign in front if wanted; negative indexes count from the end.
-/

namespace Conform

open Text

/-- The integer that a text of digits writes, after at most one minus sign. -/
def readIndex (s : String) : Except Fault Int :=
  let (negative, cs) := match s.toList with
    | '-' :: r => (true, r)
    | r => (false, r)
  match Numeral.digits cs with
  | (d :: ds, []) =>
    if ds.length < Numeral.maxIntegerDigits then
      let n : Int := Numeral.ofDigits (d :: ds)
      .ok (if negative then -n else n)
    else .error (.unreadable s)
  | _ => .error (.unreadable s)

/-- The list index that a segment stands for, if it stands for one. -/
def index? : Value → Except Fault (Option Int)
  | .int n => .ok (some n)
  | .str s =>
    let digits := s.toList.dropWhile (· == '-')
    if !digits.isEmpty && digits.all isDigit then (readIndex s).map some else .ok none
  | _ => .ok none

/-- The item at an index, where negative indexes count from the end. -/
def itemAt? {α : Type} (xs : List α) (i : Int) : Option α :=
  let j := if i < 0 then i + xs.length else i
  if j < 0 then none else xs[j.toNat]?

/-- One step of a path; `undefined` where there is nothing, and from `undefined` onwards. -/
def step (node segment : Value) : Except Fault Value :=
  match node with
  | .dict es =>
    if segment.isHashable then .ok ((Datum.find? segment es).getD .undefined)
    else .error (.illTyped "unhashable key")
  | .list xs | .tuple xs =>
    (index? segment).map fun i => (i.bind (itemAt? xs)).getD .undefined
  | _ => .ok .undefined

/-- The datum at the end of a path, or `undefined` where a segment is missing. -/
def reach (node : Value) (path : Path) : Except Fault Value := path.foldlM step node

end Conform
