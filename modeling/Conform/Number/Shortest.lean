import Conform.Number.Binary64

/-!
# The shortest decimal text of a float

`shortest` finds the fewest digits that read back as the float, and of those the ones nearest to it.
`Binary64.text` lays them out: positional from `0.0001` up to sixteen places before the point, with an
exponent of at least two digits elsewhere.
-/

namespace Conform.Binary64

/-- The decimal number `0.d₁d₂… * 10 ^ point`. -/
structure Digits where
  digits : List Char
  point : Int
deriving DecidableEq, Inhabited, Repr

/-- The number of decimal places of `num / den` before the point: the least `k` with
`num / den < 10 ^ k`, for positive `num` and `den`. -/
def decimalPoint (num den : Nat) : Int :=
  if den ≤ num then (Nat.toDigits 10 (num / den)).length
  else
    let d := (Nat.toDigits 10 (den / num)).length
    if den ≤ num * Nat.pow 10 (d - 1) then 2 - (d : Int) else 1 - (d : Int)

/-- The reals that round to a float, in units of a quarter of its last place. -/
structure Interval where
  low : Nat
  high : Nat
  closed : Bool

/-- Around the mantissa `m`, where the gap below a power of two is half as wide. -/
def interval (m : Nat) (e : Int) : Interval :=
  let low := if m = Nat.pow 2 52 ∧ minExponent < e then 4 * m - 1 else 4 * m - 2
  ⟨low, 4 * m + 2, m % 2 = 0⟩

/-- Whether the fraction `a / b` lies in the interval whose unit is `unit / scale`. -/
def Interval.contains (i : Interval) (unit scale a b : Nat) : Bool :=
  let x := a * scale
  let low := i.low * unit * b
  let high := i.high * unit * b
  if i.closed then low ≤ x && x ≤ high else low < x && x < high

/-- The multiple of `10 ^ p` nearest to the float among the two neighbours that lie in the interval,
as a count of that power. -/
def onGrid? (m : Nat) (e p : Int) : Option Nat :=
  let unit := Nat.pow 2 (e - 2).toNat
  let scale := Nat.pow 2 (2 - e).toNat
  let up := Nat.pow 10 p.toNat
  let down := Nat.pow 10 (-p).toNat
  let num := 4 * m * unit * down
  let den := scale * up
  let below := num / den
  let inside := fun c => (interval m e).contains unit scale (c * up) down
  let near := if 2 * (num % den) < den ∨ (2 * (num % den) = den ∧ below % 2 = 0) then below else below + 1
  let far := if near = below then below + 1 else below
  if inside near then some near else if inside far then some far else none

/-- Tries `n` more digit counts, from `count` digits upwards. -/
def shortestFrom (m : Nat) (e point : Int) (count : Nat) : Nat → Nat × Int
  | 0 => ((onGrid? m e (point - count)).getD 0, point - count)
  | n + 1 =>
    match onGrid? m e (point - count) with
    | some c => (c, point - count)
    | none => shortestFrom m e point (count + 1) n

/-- The shortest digits of the positive float `m * 2 ^ e`; seventeen always suffice. -/
def shortest (m : Nat) (e : Int) : Digits :=
  let point := decimalPoint (m * Nat.pow 2 e.toNat) (Nat.pow 2 (-e).toNat)
  let (c, p) := shortestFrom m e point 1 16
  let ds := Nat.toDigits 10 c
  let trimmed := (ds.reverse.dropWhile (· == '0')).reverse
  ⟨trimmed, p + ds.length⟩

/-- An exponent with its sign and at least two digits. -/
def exponentText (e : Int) : String :=
  let ds := toString e.natAbs
  (if e < 0 then "-" else "+") ++ (if ds.length < 2 then "0" ++ ds else ds)

def Digits.text (d : Digits) : String :=
  let n : Int := d.digits.length
  if d.point ≤ -4 ∨ 16 < d.point then
    let mantissa := match d.digits with
      | [] => "0"
      | c :: [] => c.toString
      | c :: r => c.toString ++ "." ++ String.ofList r
    mantissa ++ "e" ++ exponentText (d.point - 1)
  else if d.point ≤ 0 then
    "0." ++ String.ofList (List.replicate (-d.point).toNat '0' ++ d.digits)
  else if n ≤ d.point then
    String.ofList (d.digits ++ List.replicate (d.point - n).toNat '0') ++ ".0"
  else
    String.ofList (d.digits.take d.point.toNat) ++ "." ++ String.ofList (d.digits.drop d.point.toNat)

/-- The text that reads back as the same float. -/
def text : Binary64 → String
  | nan _ => "nan"
  | infinity s => if s then "-inf" else "inf"
  | finite s m e =>
    (if s then "-" else "") ++ if m = 0 then "0.0" else (shortest m e).text

end Conform.Binary64
