import Conform.ValueSet

/-!
# Schemas

A schema is a tree of nodes. A node has settings that every type shares, a schema for values that
count as absent, and the content of its type: child keys, item schemas, or alternatives. The
references of a node are those of its settings and of everything below it.
-/

namespace Conform

/-- Where the value of a default or a failover comes from. -/
inductive Fallback where
  | static (v : Value)
  | ref (r : Reference)
  | call (f : Fn)
  /-- Built from the defaults of the children. -/
  | deep

/-- What takes the place of the reports of a failed node. -/
inductive ErrorOverride where
  | raised (e : Raised)
  | call (f : Fn)

/-- What a node hands to its parent instead of the converted value. -/
inductive ResultMode where
  | raw
  | strip
deriving DecidableEq, Inhabited, Repr

def ResultMode.name : ResultMode → String
  | raw => "raw"
  | strip => "strip"

inductive Cast where
  | number
  | string
  | length
deriving DecidableEq, Inhabited, Repr

def Cast.name : Cast → String
  | number => "number"
  | string => "string"
  | length => "len"

inductive RuleName where
  | custom | warning
  | min | max | greater | less | length | integer | multiple
  | pattern | trim | case
  | limit
deriving DecidableEq, Inhabited, Repr

def RuleName.text : RuleName → String
  | custom => "custom"
  | warning => "warning"
  | min => "min"
  | max => "max"
  | greater => "greater"
  | less => "less"
  | length => "length"
  | integer => "integer"
  | multiple => "multiple"
  | pattern => "pattern"
  | trim => "trim"
  | case => "case"
  | limit => "limit"

/-- A rule attached to a node. Arguments given by a reference are resolved before each test. -/
structure RuleEntry where
  name : RuleName
  args : List (String × Value) := []
  refs : List (String × Reference) := []
  warn : Value := .bool false
  message : Value := .null

/-- The place of a result cache. A slot without a table has not been used by any validation. -/
structure CacheSlot where
  table : Option Nat := none
  capacity : Nat
  givenAsTrue : Bool := false
deriving DecidableEq, Inhabited, Repr

/-- A cache of the same size that shares no entry. -/
def CacheSlot.renewed (s : CacheSlot) : CacheSlot := { s with table := none }

/-- Where a node keeps its results: in a cache, or in a value that is no cache and fails when used. -/
inductive ResultStore where
  | cache (slot : CacheSlot)
  | unfit
deriving DecidableEq, Inhabited, Repr

def ResultStore.renewed : ResultStore → Except Fault ResultStore
  | cache slot => .ok (cache slot.renewed)
  | unfit => .error (.noMethod "spawn")

/-- The settings that nodes of all types share. -/
structure Core where
  presence : Option Presence := none
  default : Option Fallback := none
  failover : Option Fallback := none
  error : Option ErrorOverride := none
  label : Option String := none
  cast : Option Cast := none
  result : Option ResultMode := none
  only : Bool := false
  insensitive : Bool := false
  sensitive : Bool := false
  unknown : Option Value := none
  allowed : Option ValueSet := none
  denied : Option ValueSet := none
  rules : List RuleEntry := []
  externals : List Fn := []
  prefs : Option Dict := none
  cache : Option ResultStore := none

/-- How far the conditional entries of a list of alternatives cover its input. -/
inductive ChainState where
  | isOpen
  | thenOnly
  | otherwiseOnly
  | closed
deriving DecidableEq, Inhabited, Repr

/-- How many alternatives must accept; without a mode the first one that does is taken. -/
inductive MatchMode where
  | one
  | all
deriving DecidableEq, Inhabited, Repr

def MatchMode.name : MatchMode → String
  | one => "one"
  | all => "all"

mutual

inductive Schema where
  | node (core : Core) (empty : Option Schema) (content : Content)

/-- What nodes of each type hold. -/
inductive Content where
  | any
  | boolean (truthy falsy : Option ValueSet)
  | number
  | string
  | array (items : List Schema)
  | object (keys : Option (List (Value × Schema)))
  | alternatives (entries : List Alternative) (chain : ChainState) (mode : Option MatchMode)
  | probe

/-- An alternative to try, or branches chosen by a subject, which is the input without a reference. -/
inductive Alternative where
  | attempt (s : Schema)
  | conditional (subject : Option Reference) (branches : List Branch) (fromSwitch : Bool)

/-- The schema for a subject that passes the test, and the one for a subject that fails it. -/
inductive Branch where
  | mk (test : Schema) (onMatch onMiss : Option Schema)

end

instance : Inhabited Content := ⟨.any⟩
instance : Inhabited Schema := ⟨.node {} none .any⟩

def Content.kind : Content → Kind
  | any => .any
  | boolean .. => .boolean
  | number => .number
  | string => .string
  | array _ => .array
  | object _ => .object
  | alternatives .. => .alternatives
  | probe => .probe

namespace Schema

def core : Schema → Core
  | node c _ _ => c

def empty? : Schema → Option Schema
  | node _ e _ => e

def content : Schema → Content
  | node _ _ c => c

def kind (s : Schema) : Kind := s.content.kind

def ofContent (c : Content) : Schema := node {} none c

/-- Whether a list of alternatives dispatches every input. -/
def isClosed (s : Schema) : Bool :=
  match s.content with
  | .alternatives _ .closed _ => true
  | _ => false

end Schema

/-! ## References -/

def Fallback.refs : Option Fallback → List Reference
  | some (.ref r) => [r]
  | _ => []

namespace Core

def setRefs (s : Option ValueSet) : List Reference := (s.map ValueSet.refs).getD []

/-- The references of the settings: of rules, value sets, default and failover. -/
def refs (c : Core) : List Reference :=
  c.rules.flatMap (fun r => r.refs.map Prod.snd) ++ setRefs c.allowed ++ setRefs c.denied
    ++ Fallback.refs c.default ++ Fallback.refs c.failover

end Core

/-- The subjects of the conditional entries. -/
def Alternative.subjects (es : List Alternative) : List Reference :=
  es.filterMap fun
    | .attempt _ => none
    | .conditional subject _ _ => subject

mutual

/-- All references of a node and of the schemas below it. -/
def Schema.refs : Schema → List Reference
  | .node core empty content => core.refs ++ optionRefs empty ++ contentRefs content

def contentRefs : Content → List Reference
  | .array items => listRefs items
  | .object keys => keyRefs keys
  | .alternatives entries _ _ => alternativeRefs entries ++ Alternative.subjects entries
  | _ => []

def optionRefs : Option Schema → List Reference
  | none => []
  | some s => s.refs

def listRefs : List Schema → List Reference
  | [] => []
  | s :: ss => s.refs ++ listRefs ss

def keyRefs : Option (List (Value × Schema)) → List Reference
  | none => []
  | some ks => keyListRefs ks

def keyListRefs : List (Value × Schema) → List Reference
  | [] => []
  | (_, s) :: ks => s.refs ++ keyListRefs ks

def alternativeRefs : List Alternative → List Reference
  | [] => []
  | .attempt s :: es => s.refs ++ alternativeRefs es
  | .conditional _ bs _ :: es => branchRefs bs ++ alternativeRefs es

def branchRefs : List Branch → List Reference
  | [] => []
  | .mk test yes no :: bs => test.refs ++ optionRefs yes ++ optionRefs no ++ branchRefs bs

end

/-- Results of a node without references depend on its input alone, so they may be kept. -/
def Schema.isCacheable (s : Schema) : Bool := s.refs.isEmpty

end Conform
