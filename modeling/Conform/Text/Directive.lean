import Conform.Fault

/-!
# Directives

A text may hold directives: a percent sign, flags, a width, a precision and a letter that says how a
number is written there. `fill` says what comes of filling one number into such a text: success, which
takes a directive for the number and no second one, or a fault.
-/

namespace Conform.Text.Directive

/-- Texts of characters and texts of bytes know different letters. -/
inductive Medium where
  | chars
  | bytes
deriving DecidableEq, Inhabited, Repr

def spent : Fault := .illTyped "not enough arguments for format string"

def unspent : Fault := .illTyped "not all arguments converted during string formatting"

def incomplete : Fault := .unreadable "incomplete format"

def unsupported : Fault := .unreadable "unsupported format character"

/-- One more than the largest character that a letter can write. -/
def Medium.characterBound : Medium → Int
  | chars => 0x110000
  | bytes => 256

/-- Whether a letter can write a number. A byte that is no character is not even named in a report. -/
def checkLetter (m : Medium) (x : Number) (c : Char) : Except Fault Unit :=
  match c, m, x with
  | 's', .chars, _ | 'r', _, _ | 'a', _, _ => .ok ()
  | 's', .bytes, _ | 'b', .bytes, _ => .error (.illTyped "a bytes-like object is required")
  | 'd', _, .float (.infinity _) | 'i', _, .float (.infinity _) | 'u', _, .float (.infinity _) =>
    .error .tooLarge
  | 'd', _, _ | 'i', _, _ | 'u', _, _ => .ok ()
  | 'e', _, _ | 'E', _, _ | 'f', _, _ | 'F', _, _ | 'g', _, _ | 'G', _, _ => .ok ()
  | 'o', _, .int _ | 'x', _, .int _ | 'X', _, .int _ => .ok ()
  | 'o', _, _ | 'x', _, _ | 'X', _, _ => .error (.illTyped "an integer is required")
  | 'c', m, .int n => if 0 ≤ n && n < m.characterBound then .ok () else .error .tooLarge
  | 'c', _, _ => .error (.illTyped "an integer is required")
  | c, .bytes, _ => if c.toNat < 128 then .error unsupported else .error .tooLarge
  | _, .chars, _ => .error unsupported

/-- A width or a precision below a bound: digits, or a star for the number itself. Tells what follows and
whether the number is spent. -/
def measure (bound : Nat) (x : Number) (used : Bool) : List Char → Except Fault (List Char × Bool)
  | '*' :: r =>
    if used then .error spent
    else
      match x with
      | .int n => if n < bound then .ok (r, true) else .error .tooLarge
      | .float _ => .error (.illTyped "* wants int")
  | cs =>
    let ds := cs.takeWhile Char.isDigit
    let n := ds.foldl (fun n c => 10 * n + (c.toNat - 48)) 0
    if n < bound then .ok (cs.drop ds.length, used) else .error (.unreadable "width too big")

def isFlag (c : Char) : Bool := c == '-' || c == '+' || c == ' ' || c == '#' || c == '0'

def isLength (c : Char) : Bool := c == 'h' || c == 'l' || c == 'L'

/-- Reads a directive after its percent sign; a second percent sign is a directive of its own. -/
def readOne (m : Medium) (x : Number) (used : Bool) (cs : List Char) :
    Except Fault (List Char × Bool) := do
  if cs.head? == some '%' then return (cs.drop 1, used)
  if cs.head? == some '(' then throw (.illTyped "format requires a mapping")
  let (cs, used) ← measure (Nat.pow 2 63) x used (cs.dropWhile isFlag)
  let (cs, used) ← match cs with
    | '.' :: r => measure (Nat.pow 2 31) x used r
    | r => pure (r, used)
  let cs := if (cs.head?.map isLength).getD false then cs.drop 1 else cs
  match cs with
  | [] => throw incomplete
  | c :: r =>
    if used then throw spent
    checkLetter m x c
    return (r, true)

/-- Reads at most `fuel` characters and directives. -/
def fillFrom (m : Medium) (x : Number) : Nat → Bool → List Char → Except Fault Unit
  | 0, _, _ => .ok ()
  | _, used, [] => if used then .ok () else .error unspent
  | fuel + 1, used, c :: r => do
    if c == '%' then
      let (r, used) ← readOne m x used r
      fillFrom m x fuel used r
    else fillFrom m x fuel used r

/-- Fills a number into a text. -/
def fill (m : Medium) (x : Number) (cs : List Char) : Except Fault Unit :=
  fillFrom m x (cs.length + 1) false cs

end Conform.Text.Directive
