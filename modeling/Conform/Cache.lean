import Conform.Datum.Key
import Conform.Fault

/-!
# Result caches

A bounded table from primitive data to results that forgets the least recently used entry first. Keys
carry the kind of the datum, so `1`, `1.0` and `true` never share an entry. An entry may hold no
result: it takes its place in the table and reads as absent.
-/

namespace Conform

/-- A datum that a cache can hold a result for. -/
inductive CacheKey where
  | undefined
  | null
  | bool (b : Bool)
  | int (n : Int)
  | float (x : Binary64)
  | str (s : String)
deriving DecidableEq, Inhabited, Repr

namespace CacheKey

def ofDatum? {α : Type} : Datum α → Option CacheKey
  | .undefined => some undefined
  | .null => some null
  | .bool b => some (bool b)
  | .int n => some (int n)
  | .float x => some (float x)
  | .str s => some (str s)
  | _ => none

/-- The same entry: floats are compared as keys. -/
def same : CacheKey → CacheKey → Bool
  | float x, float y => (Number.float x).sameKey (.float y)
  | a, b => a == b

end CacheKey

/-- Entries stand in the order of their last use, least recent first. -/
structure Cache (α : Type) where
  capacity : Nat
  entries : List (CacheKey × Option α) := []

namespace Cache

variable {α β : Type}

/-- The size that a datum gives: a positive integer, or `true` for one. -/
def sizeOf? : Datum β → Option Nat
  | .bool true => some 1
  | .int n => if 0 < n then some n.toNat else none
  | _ => none

def lookup? (k : CacheKey) (c : Cache α) : Option (CacheKey × Option α) :=
  c.entries.find? fun e => e.1.same k

/-- Puts an entry last and forgets the first entries beyond the capacity. -/
def use (k : CacheKey) (r : Option α) (c : Cache α) : Cache α :=
  let kept := c.entries.filter (fun e => !e.1.same k) ++ [(k, r)]
  { c with entries := kept.drop (kept.length - c.capacity) }

/-- The result for a datum; finding it counts as a use. -/
def get (v : Datum β) (c : Cache α) : Option α × Cache α :=
  match CacheKey.ofDatum? v with
  | none => (none, c)
  | some k =>
    match c.lookup? k with
    | some (j, some r) => (some r, c.use j (some r))
    | _ => (none, c)

/-- Stores a result; data that are no keys are ignored. -/
def set (v : Datum β) (r : Option α) (c : Cache α) : Cache α :=
  match CacheKey.ofDatum? v with
  | none => c
  | some k =>
    match c.lookup? k with
    | some (j, _) => c.use j r
    | none => c.use k r

/-- An empty cache of the same size. -/
def spawn (c : Cache α) : Cache α := { c with entries := [] }

def size (c : Cache α) : Nat := c.entries.length

end Cache

end Conform
