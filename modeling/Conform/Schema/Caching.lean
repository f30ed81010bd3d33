import Conform.Schema.Basic
import Conform.Datum.Copy

/-!
# Where schemas hold caches

A schema that is data itself can be deeply copied unless there is a result cache in it: in a node, or
among the values that its settings name.
-/

namespace Conform

def Fallback.holdsCache : Option Fallback → Bool
  | some (.static v) => !v.isCopyable
  | some (.ref r) => r.holdsCache
  | _ => false

def ValueSet.holdsCache (s : ValueSet) : Bool :=
  !s.literalValues.all Datum.isCopyable || s.refs.any fun r => r.holdsCache

def RuleEntry.holdsCache (r : RuleEntry) : Bool :=
  !(r.args.map Prod.snd).all Datum.isCopyable || !r.warn.isCopyable || !r.message.isCopyable

namespace Core

def setHoldsCache (s : Option ValueSet) : Bool := (s.map ValueSet.holdsCache).getD false

def storesResults (c : Core) : Bool :=
  match c.cache with
  | some (.cache _) => true
  | _ => false

/-- Whether there is a result cache in the settings. -/
def holdsCache (c : Core) : Bool :=
  storesResults c || Fallback.holdsCache c.default || Fallback.holdsCache c.failover
    || (c.unknown.map fun v => !v.isCopyable).getD false
    || setHoldsCache c.allowed || setHoldsCache c.denied
    || c.rules.any RuleEntry.holdsCache
    || (c.prefs.map fun es => !(Datum.dict es).isCopyable).getD false

end Core

mutual

/-- Whether there is a result cache in a node or below it. -/
def Schema.holdsCache : Schema → Bool
  | .node core empty content => core.holdsCache || optionHoldsCache empty || contentHoldsCache content

def contentHoldsCache : Content → Bool
  | .boolean truthy falsy => Core.setHoldsCache truthy || Core.setHoldsCache falsy
  | .array items => listHoldsCache items
  | .object keys => keysHoldCache keys
  | .alternatives entries _ _ => alternativesHoldCache entries
  | _ => false

def optionHoldsCache : Option Schema → Bool
  | none => false
  | some s => s.holdsCache

def listHoldsCache : List Schema → Bool
  | [] => false
  | s :: ss => s.holdsCache || listHoldsCache ss

def keysHoldCache : Option (List (Value × Schema)) → Bool
  | none => false
  | some ks => keyListHoldsCache ks

def keyListHoldsCache : List (Value × Schema) → Bool
  | [] => false
  | (k, s) :: ks => !k.isCopyable || s.holdsCache || keyListHoldsCache ks

def alternativesHoldCache : List Alternative → Bool
  | [] => false
  | .attempt s :: es => s.holdsCache || alternativesHoldCache es
  | .conditional subject bs _ :: es =>
    (subject.map fun r => r.holdsCache).getD false || branchesHoldCache bs || alternativesHoldCache es

def branchesHoldCache : List Branch → Bool
  | [] => false
  | .mk test yes no :: bs =>
    test.holdsCache || optionHoldsCache yes || optionHoldsCache no || branchesHoldCache bs

end

end Conform
