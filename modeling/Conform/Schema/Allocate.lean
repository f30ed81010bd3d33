import Conform.Schema.Chain

/-!
# Tables for caches

A node made by a builder has a cache without a table. `allocate` gives every such cache in a schema a
table of its own, with numbers from a counter; caches that have one keep it.
-/

namespace Conform

/-- The next unused number. -/
def freshNumber : StateM Nat Nat := fun n => (n, n + 1)

def CacheSlot.allocate (s : CacheSlot) : StateM Nat CacheSlot := do
  match s.table with
  | some _ => return s
  | none => return { s with table := some (← freshNumber) }

def Core.allocate (c : Core) : StateM Nat Core := do
  match c.cache with
  | some (.cache slot) => return { c with cache := some (.cache (← slot.allocate)) }
  | _ => return c

namespace Schema

mutual

def allocate : Schema → StateM Nat Schema
  | .node core empty content => do
    let core ← core.allocate
    let empty ← allocateOption empty
    return .node core empty (← allocateContent content)

def allocateContent : Content → StateM Nat Content
  | .array items => do return .array (← allocateEach items)
  | .object keys => do return .object (← allocateKeys keys)
  | .alternatives es chain mode => do return .alternatives (← allocateAlternatives es) chain mode
  | c => return c

def allocateOption : Option Schema → StateM Nat (Option Schema)
  | none => return none
  | some s => do return some (← allocate s)

def allocateEach : List Schema → StateM Nat (List Schema)
  | [] => return []
  | s :: ss => do
    let s ← allocate s
    return s :: (← allocateEach ss)

def allocateKeys : Option (List (Value × Schema)) → StateM Nat (Option (List (Value × Schema)))
  | none => return none
  | some ks => do return some (← allocateKeyList ks)

def allocateKeyList : List (Value × Schema) → StateM Nat (List (Value × Schema))
  | [] => return []
  | (k, s) :: ks => do
    let s ← allocate s
    return (k, s) :: (← allocateKeyList ks)

def allocateAlternatives : List Alternative → StateM Nat (List Alternative)
  | [] => return []
  | .attempt s :: es => do
    let s ← allocate s
    return .attempt s :: (← allocateAlternatives es)
  | .conditional subject bs fromSwitch :: es => do
    let bs ← allocateBranches bs
    return .conditional subject bs fromSwitch :: (← allocateAlternatives es)

def allocateBranches : List Branch → StateM Nat (List Branch)
  | [] => return []
  | .mk test yes no :: bs => do
    let test ← allocate test
    let yes ← allocateOption yes
    let no ← allocateOption no
    return .mk test yes no :: (← allocateBranches bs)

end

end Schema

end Conform
