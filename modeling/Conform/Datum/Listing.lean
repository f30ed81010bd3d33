import Conform.Datum.Key

/-!
# The order in which sets list their members

A set of numbers lists them by their slots in an open-addressed table whose size is a power of two. A
number has the word of its residue modulo the prime `2 ^ 61 - 1`, so equal integers and floats have one
word; the word says which slots are tried, and the first free one is taken. Tuples and frozen sets of
numbers have words mixed from those of their items; the empty text has the word zero, and null has a word of
its own. A set that holds anything else lists its members in order of insertion.
-/

namespace Conform.Listing

/-! ## Words -/

def modulus : Nat := Nat.pow 2 61 - 1

/-- The word of a residue with a sign. The word of minus one is that of minus two. -/
def signedWord (negative : Bool) (r : Nat) : UInt64 :=
  if !negative then .ofNat r else if r = 1 then .ofInt (-2) else .ofInt (-r)

/-- The word of a number; the powers of two repeat after 61 of them. -/
def numberWord? : Number → Option UInt64
  | .int n => some (signedWord (n < 0) (n.natAbs % modulus))
  | .float (.finite s m e) => some (signedWord s (m * Nat.pow 2 (e % 61).toNat % modulus))
  | .float (.infinity s) => some (signedWord s 314159)
  | .float (.nan _) => none

def rotate31 (w : UInt64) : UInt64 := (w <<< 31) ||| (w >>> 33)

/-- The words of items mixed in order, and their number. -/
def tupleWord (ws : List UInt64) : UInt64 :=
  let start : UInt64 := 2870177450012600261
  let mixed := ws.foldl (fun acc w => rotate31 (acc + w * 14029467366897019727) * 11400714785074694791) start
  let word := mixed + (UInt64.ofNat ws.length ^^^ (start ^^^ (3527539 : UInt64)))
  if word = .ofInt (-1) then 1546275796 else word

def scattered (w : UInt64) : UInt64 := ((w ^^^ (89869747 : UInt64)) ^^^ (w <<< 16)) * 3644798167

/-- The words of members mixed in any order, and their number. -/
def setWord (ws : List UInt64) : UInt64 :=
  let mixed := ws.foldl (fun acc w => acc ^^^ scattered w) ((UInt64.ofNat ws.length + 1) * 1927868237)
  let word := (mixed ^^^ ((mixed >>> 11) ^^^ (mixed >>> 25))) * 69069 + 907133923
  if word = .ofInt (-1) then 590923713 else word

variable {α : Type}

/-- The word of null. -/
def nullWord : UInt64 := 4238894112

mutual

/-- The word of a datum, if it is made of numbers, null and empty texts. -/
def word? : Datum α → Option UInt64
  | .null => some nullWord
  | .bool b => numberWord? (.int (if b then 1 else 0))
  | .int n => numberWord? (.int n)
  | .float x => numberWord? (.float x)
  | .str s => if s = "" then some 0 else none
  | .bytes false [] => some 0
  | .tuple xs => (words? xs).map tupleWord
  | .set true xs => (words? xs).map setWord
  | _ => none

def words? : List (Datum α) → Option (List UInt64)
  | [] => some []
  | x :: xs => do return (← word? x) :: (← words? xs)

end

/-! ## Slots -/

/-- A slot is empty or holds a member and its word. -/
abbrev Table (α : Type) := Array (Option (UInt64 × α))

def isFree (t : Table α) (i : Nat) : Bool := t[i]?.join.isNone

/-- How many slots are tried in a row, if there are as many. -/
def runLength : Nat := 10

/-- The first free slot on a walk through the table: a run of slots from `i`, then from another place
that the rest of the word helps to choose. Once the rest is zero the walk gets everywhere. -/
def freeSlot (t : Table α) : Nat → Nat → Nat → Nat
  | 0, i, _ => i
  | fuel + 1, i, rest =>
    match (List.range' i (if i + runLength ≤ t.size then runLength else 1)).find? (isFree t) with
    | some j => j
    | none => freeSlot t fuel ((5 * i + 1 + rest / 32) % t.size) (rest / 32)

def place (t : Table α) (e : UInt64 × α) : Table α :=
  t.setIfInBounds (freeSlot t (t.size + 13) (e.1.toNat % t.size) e.1.toNat) (some e)

/-- The members in the order of their slots. -/
def entries (t : Table α) : List (UInt64 × α) := t.toList.filterMap id

def leastSize : Nat := 8

/-- A table four times as large as its number of members, and more, with the members placed anew. -/
def grow (t : Table α) : Table α :=
  let es := entries t
  (es.foldl place (Array.replicate (max leastSize (Nat.pow 2 (Nat.log2 (4 * es.length) + 1))) none))

/-- Places a member. A table that is filled to three fifths grows. -/
def insert (t : Table α) (e : UInt64 × α) : Table α :=
  let t := place t e
  if 3 * (t.size - 1) ≤ 5 * (entries t).length then grow t else t

/-- The members of words in the order of their slots. -/
def bySlot (es : List (UInt64 × α)) : List α :=
  (entries (es.foldl insert (Array.replicate leastSize none))).map Prod.snd

end Conform.Listing

namespace Conform.Datum

variable {α : Type}

/-- The members of a set in the order in which it lists them. -/
def listed (xs : List (Datum α)) : List (Datum α) :=
  match Listing.words? xs with
  | some words => Listing.bySlot (words.zip xs)
  | none => xs

/-- The set of some data. -/
def ofMembers [BEq α] (frozen : Bool) (xs : List (Datum α)) : Datum α := set frozen (listed (distinct xs))

mutual

/-- The datum with its sets made anew from what they list. Members that want one slot may change places. -/
def relisted : Datum α → Datum α
  | list xs => list (relistedEach xs)
  | tuple xs => tuple (relistedEach xs)
  | set z xs => set z (listed (relistedEach xs))
  | dict es => dict (relistedEntries es)
  | v => v

def relistedEach : List (Datum α) → List (Datum α)
  | [] => []
  | x :: xs => relisted x :: relistedEach xs

def relistedEntries : Entries α → Entries α
  | [] => []
  | (k, v) :: es => (relisted k, relisted v) :: relistedEntries es

end

end Conform.Datum
