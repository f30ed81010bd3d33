/-!
# Binary floating-point numbers of 64 bits

`Binary64` holds a number as sign, mantissa and exponent, so that every comparison and every rounding
is exact arithmetic on integers. `ofQuotient` is the only rounding: to nearest, ties to even.
-/

namespace Conform

/-- A 64-bit float: `finite s m e` is the number `± m * 2 ^ e`. Rounding yields `m < 2 ^ 53` and
`e ≥ -1074`, with `2 ^ 52 ≤ m` unless `e = -1074`. A NaN that was given carries a mark that tells it
from others; one that arithmetic gives has none. -/
inductive Binary64 where
  | nan (mark : Option Nat)
  | infinity (negative : Bool)
  | finite (negative : Bool) (mantissa : Nat) (exponent : Int)
deriving DecidableEq, Inhabited, Repr

/-- The dyadic number `mantissa * 2 ^ exponent`. -/
structure Dyadic where
  mantissa : Int
  exponent : Int
deriving DecidableEq, Inhabited, Repr

namespace Dyadic

def ofInt (n : Int) : Dyadic := ⟨n, 0⟩

/-- The mantissa at the exponent `e`, for `e` not above the exponent of `d`. -/
def scaledTo (d : Dyadic) (e : Int) : Int := d.mantissa * Int.pow 2 (d.exponent - e).toNat

def compare (a b : Dyadic) : Ordering :=
  let e := min a.exponent b.exponent
  Ord.compare (a.scaledTo e) (b.scaledTo e)

/-- `a` is an integer multiple of `b`; only zero is a multiple of zero. -/
def isMultipleOf (a b : Dyadic) : Bool :=
  let e := min a.exponent b.exponent
  a.scaledTo e % b.scaledTo e == 0

def isInteger (d : Dyadic) : Bool := d.isMultipleOf (ofInt 1)

end Dyadic

namespace Binary64

def minExponent : Int := -1074

def maxExponent : Int := 971

/-- The quotient rounded to the nearest integer, a tie to the even one. -/
def roundDiv (num den : Nat) : Nat :=
  let q := num / den
  let r := num % den
  if 2 * r < den then q else if den < 2 * r then q + 1 else q + q % 2

/-- The exponent `e` with `2 ^ e ≤ num / den < 2 ^ (e + 1)`, for positive `num` and `den`. -/
def binaryExponent (num den : Nat) : Int :=
  let e : Int := (Nat.log2 num : Int) - Nat.log2 den
  let below := if 0 ≤ e then num < den * Nat.pow 2 e.toNat else num * Nat.pow 2 (-e).toNat < den
  if below then e - 1 else e

/-- The float nearest to `num / den`; what rounds to `2 ^ 1024` or more is infinite. -/
def ofQuotient (negative : Bool) (num den : Nat) : Binary64 :=
  if num = 0 then .finite negative 0 minExponent
  else
    let q := max (binaryExponent num den - 52) minExponent
    let m :=
      if 0 ≤ q then roundDiv num (den * Nat.pow 2 q.toNat)
      else roundDiv (num * Nat.pow 2 (-q).toNat) den
    let (m, q) := if m = Nat.pow 2 53 then (Nat.pow 2 52, q + 1) else (m, q)
    if maxExponent < q then .infinity negative else .finite negative m q

/-- The float nearest to a dyadic number; a zero takes the sign given. -/
def ofDyadic (zeroSign : Bool) (d : Dyadic) : Binary64 :=
  let negative := if d.mantissa = 0 then zeroSign else decide (d.mantissa < 0)
  if 0 ≤ d.exponent then ofQuotient negative (d.mantissa.natAbs * Nat.pow 2 d.exponent.toNat) 1
  else ofQuotient negative d.mantissa.natAbs (Nat.pow 2 (-d.exponent).toNat)

/-- The float nearest to an integer, absent when that is infinite. -/
def ofInt? (n : Int) : Option Binary64 :=
  match ofQuotient (n < 0) n.natAbs 1 with
  | .finite s m e => some (.finite s m e)
  | _ => none

def isNan : Binary64 → Bool
  | nan _ => true
  | _ => false

/-- Whether two floats are one and the same NaN. -/
def sameNan : Binary64 → Binary64 → Bool
  | nan (some m), nan (some n) => m == n
  | _, _ => false

def isInfinite : Binary64 → Bool
  | infinity _ => true
  | _ => false

def isNegative : Binary64 → Bool
  | nan _ => false
  | infinity s => s
  | finite s _ _ => s

/-- The number a finite float stands for. -/
def toDyadic? : Binary64 → Option Dyadic
  | finite s m e => some ⟨if s then -m else m, e⟩
  | _ => none

/-- The sum, rounded once. -/
def add : Binary64 → Binary64 → Binary64
  | nan _, _ => nan none
  | _, nan _ => nan none
  | infinity s, infinity t => if s = t then infinity s else nan none
  | infinity s, finite _ _ _ => infinity s
  | finite _ _ _, infinity t => infinity t
  | finite s m e, finite t n f =>
    let low := min e f
    let x : Dyadic := ⟨if s then -m else m, e⟩
    let y : Dyadic := ⟨if t then -n else n, f⟩
    ofDyadic (s && t) ⟨x.scaledTo low + y.scaledTo low, low⟩

end Binary64

end Conform
