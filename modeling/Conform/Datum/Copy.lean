import Conform.Datum.Listing
import Conform.Fault

/-!
# Deep copies

A copy has the structure of its datum, and other entities in it: what the copy holds is equal to
nothing but itself. Its sets are made anew from what the sets of the datum list. Functions and patterns
are shared, and a result cache cannot be copied, so nothing that holds one can be.
-/

namespace Conform

namespace Entity

/-- What the `n`-th copying puts in place of an entity. -/
def copied (n : Nat) : Entity → Entity
  | fn f => fn f
  | pattern source => pattern source
  | deepDefault => deepDefault
  | e => copy n e

def isCopyable : Entity → Bool
  | cache _ => false
  | pointer p => !p.holdsCache
  | outline o => !o.holdsCache
  | _ => true

end Entity

namespace Datum

variable {α : Type}

mutual

/-- Whether all leaves satisfy a test. -/
def allLeaves (p : α → Bool) : Datum α → Bool
  | list xs => allLeavesEach p xs
  | tuple xs => allLeavesEach p xs
  | set _ xs => allLeavesEach p xs
  | dict es => allLeavesEntries p es
  | leaf a => p a
  | _ => true

def allLeavesEach (p : α → Bool) : List (Datum α) → Bool
  | [] => true
  | x :: xs => allLeaves p x && allLeavesEach p xs

def allLeavesEntries (p : α → Bool) : Entries α → Bool
  | [] => true
  | (k, v) :: es => allLeaves p k && allLeaves p v && allLeavesEntries p es

end

def isCopyable (v : Value) : Bool := v.allLeaves Entity.isCopyable

/-- The copy that the `n`-th copying makes. -/
def copy (n : Nat) (v : Value) : Except Fault Value :=
  if v.isCopyable then .ok (v.map (Entity.copied n)).relisted
  else .error (.illTyped "a result cache cannot be copied")

/-- Dictionaries, lists and sets that can grow. -/
def isMutableContainer : Value → Bool
  | dict _ => true
  | list _ => true
  | set frozen _ => !frozen
  | _ => false

end Datum

end Conform
