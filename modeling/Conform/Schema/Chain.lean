import Conform.Schema.Builder

/-!
# Chains of alternatives

The chain state of a list of alternatives follows the coverage of its entries: once an entry dispatches
every input the chain is closed, and nothing can be appended.
-/

namespace Conform

/-- What an entry does with an input: tries it, or dispatches some or all of it. -/
inductive Coverage where
  | attempt
  | onMatch
  | onMiss
  | both
deriving DecidableEq, Inhabited, Repr

def Coverage.name : Coverage → String
  | attempt => "try"
  | onMatch => "then"
  | onMiss => "otherwise"
  | both => "both"

def Coverage.ofName? : String → Option Coverage
  | "try" => some attempt
  | "then" => some onMatch
  | "otherwise" => some onMiss
  | "both" => some both
  | _ => none

namespace ChainState

def name : ChainState → String
  | isOpen => "open"
  | thenOnly => "then_only"
  | otherwiseOnly => "otherwise_only"
  | closed => "closed"

def ofName? : String → Option ChainState
  | "open" => some isOpen
  | "then_only" => some thenOnly
  | "otherwise_only" => some otherwiseOnly
  | "closed" => some closed
  | _ => none

/-- The state after an entry; an attempt keeps it. -/
def after (s : ChainState) : Coverage → ChainState
  | .attempt => s
  | .onMatch => thenOnly
  | .onMiss => otherwiseOnly
  | .both => closed

/-- The state after an entry appended to a chain that is not closed. -/
def advance (s : ChainState) (c : Coverage) : Except Fault ChainState := do
  require (s != closed) "Unreachable condition"
  return s.after c

end ChainState

namespace Branch

def test : Branch → Schema
  | mk t _ _ => t

def onMatch : Branch → Option Schema
  | mk _ y _ => y

def onMiss : Branch → Option Schema
  | mk _ _ n => n

end Branch

namespace Alternative

def isAttempt : Alternative → Bool
  | attempt _ => true
  | conditional .. => false

/-- The coverage of branches. -/
def branchCoverage (bs : List Branch) : Coverage :=
  if bs.any fun b => b.onMatch.isSome && b.onMiss.isSome then .both
  else if bs.any fun b => b.onMiss.isSome then .onMiss
  else .onMatch

def coverage : Alternative → Coverage
  | attempt _ => .attempt
  | conditional _ bs _ => branchCoverage bs

end Alternative

namespace Schema

/-- The entries, chain state and mode of a list of alternatives. -/
def alternatives? (s : Schema) : Option (List Alternative × ChainState × Option MatchMode) :=
  match s.content with
  | .alternatives es chain mode => some (es, chain, mode)
  | _ => none

/-- Appends an entry to a list of alternatives. -/
def append (s : Schema) (e : Alternative) : Except Fault Schema :=
  match s.content with
  | .alternatives es chain mode => do
    let chain ← chain.advance e.coverage
    s.withContent (.alternatives (es ++ [e]) chain mode)
  | _ => .error (.noMethod "append")

/-- A match mode counts attempts, so every entry must be one. -/
def requireAttempts (mode : String) (es : List Alternative) : Except Fault Unit :=
  ensure (es.all Alternative.isAttempt)
    [.str "Cannot combine match mode", .str mode, .str "with conditional rules"]

/-- Sets the match mode; `any` is the mode of taking the first that accepts. -/
def matchMode (s : Schema) (mode : Term) : Except Fault Schema :=
  match s.content with
  | .alternatives es chain _ => do
    let refused := Fault.contract
      (Fault.contractText [.str "Invalid alternatives match mode", Term.toValue mode])
    match mode with
    | .str "any" => s.withContent (.alternatives es chain none)
    | .str "one" =>
      requireAttempts "one" es
      s.withContent (.alternatives es chain (some .one))
    | .str "all" =>
      requireAttempts "all" es
      s.withContent (.alternatives es chain (some .all))
    | _ => throw refused
  | _ => .error (.noMethod "match")

/-! ## Labels -/

mutual

/-- Labels a node and every branch reported under it; the tests of branches keep their labels. -/
def relabel (name : String) : Schema → Except Fault Schema
  | .node core empty content => do
    let core ← core.renewed
    return .node { core with label := some name } empty (← relabelContent name content)

def relabelContent (name : String) : Content → Except Fault Content
  | .alternatives es chain mode => do return .alternatives (← relabelEach name es) chain mode
  | c => .ok c

def relabelEach (name : String) : List Alternative → Except Fault (List Alternative)
  | [] => .ok []
  | .attempt s :: es => do
    let s ← relabel name s
    return .attempt s :: (← relabelEach name es)
  | .conditional subject bs fromSwitch :: es => do
    let bs ← relabelBranches name bs
    return .conditional subject bs fromSwitch :: (← relabelEach name es)

def relabelBranches (name : String) : List Branch → Except Fault (List Branch)
  | [] => .ok []
  | .mk test yes no :: bs => do
    let yes ← relabelOption name yes
    let no ← relabelOption name no
    return .mk test yes no :: (← relabelBranches name bs)

def relabelOption (name : String) : Option Schema → Except Fault (Option Schema)
  | none => .ok none
  | some s => do return some (← relabel name s)

end

def label (s : Schema) (name : Term) : Except Fault Schema :=
  match name with
  | .str text => do
    require (text != "") "Label name must be a non-empty string"
    s.relabel text
  | _ => .error (.contract "Label name must be a non-empty string")

end Schema

end Conform
