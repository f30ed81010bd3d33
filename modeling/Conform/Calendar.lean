/-!
# Dates and times of day

Calendar dates, times of day with an optional offset from universal time, and moments that join the
two. Each has an ISO text and a constructor text; two moments with offsets are equal when they name
the same instant.
-/

namespace Conform

structure Date where
  year : Nat
  month : Nat
  day : Nat
deriving DecidableEq, Inhabited, Repr

/-- A time of day; the offset from universal time is in microseconds. -/
structure Clock where
  hour : Nat
  minute : Nat
  second : Nat := 0
  microsecond : Nat := 0
  offset : Option Int := none
deriving DecidableEq, Inhabited, Repr

structure Moment where
  date : Date
  clock : Clock
deriving DecidableEq, Inhabited, Repr

/-- A number with zeros in front up to the given width. -/
def padded (width n : Nat) : String :=
  let ds := Nat.toDigits 10 n
  String.ofList (List.replicate (width - ds.length) '0' ++ ds)

namespace Date

def isLeap (y : Nat) : Bool := y % 4 == 0 && (y % 100 != 0 || y % 400 == 0)

def daysInMonth (y m : Nat) : Nat :=
  match m with
  | 2 => if isLeap y then 29 else 28
  | 4 | 6 | 9 | 11 => 30
  | _ => 31

/-- A day that the calendar has; years have four digits. -/
def isValid (d : Date) : Bool :=
  1 ≤ d.year && d.year ≤ 9999 && 1 ≤ d.month && d.month ≤ 12 && 1 ≤ d.day
    && d.day ≤ daysInMonth d.year d.month

/-- Days since the day before the first of January of the year one. -/
def ordinal (d : Date) : Nat :=
  let y := d.year - 1
  y * 365 + y / 4 - y / 100 + y / 400
    + (List.range (d.month - 1)).foldl (fun n m => n + daysInMonth d.year (m + 1)) 0 + d.day

def text (d : Date) : String := padded 4 d.year ++ "-" ++ padded 2 d.month ++ "-" ++ padded 2 d.day

def constructorText (d : Date) : String :=
  "datetime.date(" ++ ", ".intercalate [toString d.year, toString d.month, toString d.day] ++ ")"

end Date

namespace Clock

def secondUnits : Nat := 1000000

/-- A time that a day has. -/
def isValid (c : Clock) : Bool := c.hour < 24 && c.minute < 60 && c.second < 60

/-- Microseconds since midnight. -/
def sinceMidnight (c : Clock) : Nat :=
  ((c.hour * 60 + c.minute) * 60 + c.second) * secondUnits + c.microsecond

/-- Equal times of day; with offsets, after each is taken off. -/
def same (a b : Clock) : Bool :=
  match a.offset, b.offset with
  | none, none => a.sinceMidnight == b.sinceMidnight
  | some x, some y => (a.sinceMidnight : Int) - x == b.sinceMidnight - y
  | _, _ => false

/-- The six places of a fraction of a second, left out when there is none. -/
def fractionText (microsecond : Nat) : String :=
  if microsecond = 0 then "" else "." ++ padded 6 microsecond

def offsetText (offset : Int) : String :=
  let total := offset.natAbs / secondUnits
  let fraction := fractionText (offset.natAbs % secondUnits)
  let seconds := if total % 60 = 0 ∧ fraction = "" then "" else ":" ++ padded 2 (total % 60) ++ fraction
  (if offset < 0 then "-" else "+") ++ padded 2 (total / 3600) ++ ":" ++ padded 2 (total / 60 % 60)
    ++ seconds

def text (c : Clock) : String :=
  padded 2 c.hour ++ ":" ++ padded 2 c.minute ++ ":" ++ padded 2 c.second ++ fractionText c.microsecond
    ++ (c.offset.map offsetText).getD ""

/-- The constructor text of an offset, split into days, seconds and microseconds. -/
def zoneText (offset : Int) : String :=
  if offset = 0 then "datetime.timezone.utc"
  else
    let seconds := Int.fdiv offset secondUnits
    let parts := [("days", Int.fdiv seconds 86400), ("seconds", Int.fmod seconds 86400),
      ("microseconds", Int.fmod offset secondUnits)]
    let shown := (parts.filter fun p => p.2 != 0).map fun p => p.1 ++ "=" ++ toString p.2
    "datetime.timezone(datetime.timedelta(" ++ ", ".intercalate shown ++ "))"

/-- The parts that a constructor text shows; trailing zeros below the minute are left out. -/
def shownParts (c : Clock) : List String :=
  let all := [toString c.hour, toString c.minute]
  let all := if c.second = 0 ∧ c.microsecond = 0 then all else all ++ [toString c.second]
  let all := if c.microsecond = 0 then all else all ++ [toString c.microsecond]
  match c.offset with
  | none => all
  | some o => all ++ ["tzinfo=" ++ zoneText o]

def constructorText (c : Clock) : String :=
  "datetime.time(" ++ ", ".intercalate c.shownParts ++ ")"

end Clock

namespace Moment

/-- Microseconds since the start of the calendar, before any offset is taken off. -/
def localTime (m : Moment) : Int :=
  (m.date.ordinal : Int) * 86400 * Clock.secondUnits + m.clock.sinceMidnight

/-- Equal moments; with offsets, the same instant. -/
def same (a b : Moment) : Bool :=
  match a.clock.offset, b.clock.offset with
  | none, none => a.localTime == b.localTime
  | some x, some y => a.localTime - x == b.localTime - y
  | _, _ => false

def isoText (m : Moment) : String := m.date.text ++ "T" ++ m.clock.text

def text (m : Moment) : String := m.date.text ++ " " ++ m.clock.text

def constructorText (m : Moment) : String :=
  "datetime.datetime(" ++ ", ".intercalate
    ([toString m.date.year, toString m.date.month, toString m.date.day] ++ m.clock.shownParts) ++ ")"

end Moment

/-! ## Reading ISO texts -/

/-- Reads exactly `n` decimal digits. -/
def fixedDigits? : Nat → List Char → Option (Nat × List Char)
  | n, cs =>
    let ds := cs.take n
    if ds.length = n ∧ ds.all Char.isDigit then
      some (ds.foldl (fun v c => 10 * v + (c.toNat - '0'.toNat)) 0, cs.drop n)
    else none

def Date.ofChars? (cs : List Char) : Option (Date × List Char) := do
  let (year, cs) ← fixedDigits? 4 cs
  let '-' :: cs := cs | none
  let (month, cs) ← fixedDigits? 2 cs
  let '-' :: cs := cs | none
  let (day, cs) ← fixedDigits? 2 cs
  let d : Date := ⟨year, month, day⟩
  if d.isValid then return (d, cs) else none

def Date.read? (s : String) : Option Date :=
  match Date.ofChars? s.toList with
  | some (d, []) => some d
  | _ => none

/-- Reads a fraction of a second, to six places. -/
def fraction? : List Char → Nat × List Char
  | '.' :: cs =>
    let ds := (cs.takeWhile Char.isDigit).take 6
    ((ds ++ List.replicate (6 - ds.length) '0').foldl (fun v c => 10 * v + (c.toNat - '0'.toNat)) 0,
      cs.dropWhile Char.isDigit)
  | cs => (0, cs)

/-- Reads hours and minutes, then seconds and their fraction if present. -/
def clockParts? (cs : List Char) : Option (Clock × List Char) := do
  let (hour, cs) ← fixedDigits? 2 cs
  let ':' :: cs := cs | none
  let (minute, cs) ← fixedDigits? 2 cs
  match cs with
  | ':' :: rest =>
    let (second, rest) ← fixedDigits? 2 rest
    let (micro, rest) := fraction? rest
    return (⟨hour, minute, second, micro, none⟩, rest)
  | _ => return (⟨hour, minute, 0, 0, none⟩, cs)

def Clock.ofChars? (cs : List Char) : Option Clock := do
  let (c, rest) ← clockParts? cs
  if !c.isValid then none
  match rest with
  | [] => return c
  | ['Z'] => return { c with offset := some 0 }
  | sign :: rest =>
    let (o, tail) ← clockParts? rest
    if tail != [] || !o.isValid then none
    if sign == '+' then return { c with offset := some o.sinceMidnight }
    if sign == '-' then return { c with offset := some (-(o.sinceMidnight : Int)) }
    none

def Clock.read? (s : String) : Option Clock := Clock.ofChars? s.toList

def Moment.read? (s : String) : Option Moment := do
  let (d, cs) ← Date.ofChars? s.toList
  match cs with
  | [] => return ⟨d, ⟨0, 0, 0, 0, none⟩⟩
  | _ :: rest => return ⟨d, ← Clock.ofChars? rest⟩

end Conform
