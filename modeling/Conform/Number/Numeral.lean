import Conform.Number.Binary64
import Conform.Text.Blank
import Conform.Text.Digit

/-!
# Numerals

The text of a number: an optional sign, digits with an optional point, an optional exponent, and
blanks around. Digits of every script count. A numeral of digits alone is an integer as long as it is
not too long, and every other numeral is a float.
-/

namespace Conform

open Text

/-- A number: an integer of any size or a float. -/
inductive Number where
  | int (n : Int)
  | float (x : Binary64)
deriving DecidableEq, Inhabited, Repr

/-- A numeral as it is written, digit by digit. -/
structure Numeral where
  negative : Bool
  whole : List Nat
  fraction : Option (List Nat)
  exponent : Option (Bool × List Nat)
deriving DecidableEq, Inhabited, Repr

namespace Numeral

/-- The digits at the front of a text, and what follows them. -/
def digits : List Char → List Nat × List Char
  | [] => ([], [])
  | c :: r =>
    match digitValue? c with
    | some d => let (ds, rest) := digits r; (d :: ds, rest)
    | none => ([], c :: r)

/-- A sign, if there is one. -/
def sign : List Char → Bool × List Char
  | '-' :: r => (true, r)
  | '+' :: r => (false, r)
  | r => (false, r)

/-- The exponent that ends a numeral; nothing else may follow. -/
def exponentPart? : List Char → Option (Option (Bool × List Nat))
  | [] => some none
  | c :: r =>
    if c == 'e' || c == 'E' then
      let (negative, r) := sign r
      match digits r with
      | (d :: ds, []) => some (some (negative, d :: ds))
      | _ => none
    else none

/-- Reads a numeral that fills the whole text. -/
def ofChars? (cs : List Char) : Option Numeral :=
  let (negative, cs) := sign cs
  let (whole, cs) := digits cs
  let (fraction, cs) := match cs with
    | '.' :: r => let (ds, r) := digits r; (some ds, r)
    | r => (none, r)
  if whole.isEmpty && (fraction.getD []).isEmpty then none
  else (exponentPart? cs).map fun e => ⟨negative, whole, fraction, e⟩

/-- Reads a numeral with blanks around it. -/
def read? (s : String) : Option Numeral := ofChars? (trimBlanks s).toList

/-- The number that a list of digits writes. -/
def ofDigits (ds : List Nat) : Nat := ds.foldl (fun n d => 10 * n + d) 0

/-- Longer texts of digits are read as floats. -/
def maxIntegerDigits : Nat := 4300

/-- The integer that a numeral of digits alone writes. -/
def toInt? (n : Numeral) : Option Int :=
  match n.fraction, n.exponent with
  | none, none =>
    if n.whole.length ≤ maxIntegerDigits then
      some (if n.negative then -ofDigits n.whole else ofDigits n.whole)
    else none
  | _, _ => none

/-- The float nearest to the numeral. Powers of ten far outside the range of floats are not worked
out: they give zero or infinity. -/
def toFloat (n : Numeral) : Binary64 :=
  let fraction := n.fraction.getD []
  let ds := (n.whole ++ fraction).dropWhile (· == 0)
  let power : Int := match n.exponent with
    | none => 0
    | some (negative, e) => if negative then -(ofDigits e : Int) else ofDigits e
  let power := power - fraction.length
  if ds.isEmpty then .finite n.negative 0 Binary64.minExponent
  else if 310 < power + ds.length then .infinity n.negative
  else if power + ds.length < -330 then .finite n.negative 0 Binary64.minExponent
  else .ofQuotient n.negative (ofDigits ds * Nat.pow 10 power.toNat) (Nat.pow 10 (-power).toNat)

/-- The text without its underscores, each of which must stand between two digits. -/
def dropUnderscores? (afterDigit : Bool) : List Char → Option (List Char)
  | [] => some []
  | c :: r =>
    if c == '_' then
      if afterDigit && (r.head?.map isDecimal).getD false then dropUnderscores? false r else none
    else (dropUnderscores? (isDecimal c) r).map (c :: ·)

/-- The float that characters spell: a numeral, which may have underscores between digits, an infinity
or NaN. Blanks may stand around it, except the information separators. -/
def spelledFloat? (cs : List Char) : Option Binary64 :=
  let isSpace := fun (c : Char) => isBlank c && !(28 ≤ c.toNat && c.toNat ≤ 31)
  let cs := ((cs.dropWhile isSpace).reverse.dropWhile isSpace).reverse
  let (negative, word) := sign cs
  match String.ofList (word.map Char.toLower) with
  | "inf" | "infinity" => some (.infinity negative)
  | "nan" => some (.nan none)
  | _ => ((dropUnderscores? false cs).bind ofChars?).map toFloat

def toNumber (n : Numeral) : Number :=
  match n.toInt? with
  | some i => .int i
  | none => .float n.toFloat

end Numeral

namespace Number

/-- Reads a number with blanks around it. -/
def read? (s : String) : Option Number := (Numeral.read? s).map Numeral.toNumber

/-- The dyadic number, absent for infinities and NaN. -/
def toDyadic? : Number → Option Dyadic
  | int n => some (.ofInt n)
  | float x => x.toDyadic?

/-- The order of two numbers, exact across integers and floats; NaN is not comparable. -/
def compare? : Number → Number → Option Ordering
  | float (.nan _), _ => none
  | _, float (.nan _) => none
  | float (.infinity s), float (.infinity t) =>
    some (if s = t then .eq else if s then .lt else .gt)
  | float (.infinity s), _ => some (if s then .lt else .gt)
  | _, float (.infinity t) => some (if t then .gt else .lt)
  | a, b =>
    match a.toDyadic?, b.toDyadic? with
    | some x, some y => some (x.compare y)
    | _, _ => none

/-- Exact equality of numbers; NaN equals nothing. -/
def same (a b : Number) : Bool := a.compare? b == some .eq

/-- Equality of numbers as keys: equal numbers, and one and the same NaN. -/
def sameKey : Number → Number → Bool
  | float x, float y => x.sameNan y || (float x).same (float y)
  | a, b => a.same b

end Number

end Conform
