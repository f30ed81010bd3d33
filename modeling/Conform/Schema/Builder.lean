import Conform.Schema.Rule

/-!
# Building nodes

Each operation gives a changed copy of a node. A copy has an empty cache of its own. An operation that
is used against its contract fails with the text that says so.
-/

namespace Conform

namespace Core

/-- The settings of a copy. -/
def renewed (c : Core) : Except Fault Core := do
  match c.cache with
  | none => return c
  | some store => return { c with cache := some (← store.renewed) }

/-- Enters a member into one set, made if need be, and takes it out of the opposite one. -/
def enter (m : Member) (own other : Option ValueSet) : Option ValueSet × Option ValueSet :=
  (some ((own.getD {}).add m), other.map (ValueSet.remove m))

/-- Enters terms into a set. The override marker comes first if at all: it replaces the set, drops the
opposite one and lifts the restriction to allowed values. -/
def enterAll (terms : List Term) (own other : Option ValueSet) (only : Bool) :
    Except Fault (Option ValueSet × Option ValueSet × Bool) := do
  let replacing := (terms.head?.map Term.isOverride).getD false
  let rest := if replacing then terms.drop 1 else terms
  let start := if replacing then (some { replaces := true }, none) else (own, other)
  let (own, other) ← rest.foldlM (fun sets t => do
    require (!Term.isOverride t) "Override must be the first value"
    return enter (Term.member t) sets.1 sets.2) start
  return (own, other, only && !replacing)

def allow (terms : List Term) (c : Core) : Except Fault Core := do
  let (allowed, denied, only) ← enterAll terms c.allowed c.denied c.only
  return { c with allowed, denied, only }

def deny (terms : List Term) (c : Core) : Except Fault Core := do
  let (denied, allowed, only) ← enterAll terms c.denied c.allowed c.only
  return { c with allowed, denied, only }

end Core

namespace Schema

/-- A copy with settings changed by a function that may fail. -/
def change? (s : Schema) (f : Core → Except Fault Core) : Except Fault Schema := do
  return node (← f (← s.core.renewed)) s.empty? s.content

/-- A copy with changed settings. -/
def change (s : Schema) (f : Core → Core) : Except Fault Schema := s.change? fun c => .ok (f c)

/-- A copy with other content. -/
def withContent? (s : Schema) (c : Except Fault Content) : Except Fault Schema := do
  let core ← s.core.renewed
  return node core s.empty? (← c)

def withContent (s : Schema) (c : Content) : Except Fault Schema := s.withContent? (.ok c)

/-! ## Allowed and denied values -/

def allow (s : Schema) (terms : List Term) : Except Fault Schema := s.change? (Core.allow terms)

def deny (s : Schema) (terms : List Term) : Except Fault Schema := s.change? (Core.deny terms)

def only (s : Schema) (enabled : Bool) : Except Fault Schema := s.change fun c => { c with only := enabled }

/-- Restricts the node to the given values. -/
def valid (s : Schema) (terms : List Term) : Except Fault Schema := do
  require (!terms.isEmpty) "Missing values"
  (← s.allow terms).only true

/-! ## Settings -/

def withPresence (s : Schema) (p : Presence) : Except Fault Schema :=
  s.change fun c => { c with presence := some p }

def presence (s : Schema) (mode : Term) : Except Fault Schema := do
  let some p := (match mode with | .str name => Presence.ofName? name | _ => none)
    | throw (.contract (Fault.contractText [.str "Unknown presence mode", Term.toValue mode]))
  s.withPresence p

def required (s : Schema) : Except Fault Schema := s.withPresence .required

/-- A reference that spreads over items is no single value. -/
def refuseSpread (t : Term) : Except Fault Unit :=
  require (!((Term.reference? t).map Reference.spread).getD false)
    "Cannot use in() reference outside of allowed values"

/-- What a term says about a default: the absent value takes it away. -/
def fallback? (t : Term) : Option Fallback :=
  match t with
  | .undefined => none
  | .leaf (.reference r) => some (.ref r)
  | .leaf (.entity (.fn f)) => some (.call f)
  | .leaf (.entity .deepDefault) => some .deep
  | t => some (.static (Term.toValue t))

def default (s : Schema) (t : Term) : Except Fault Schema := do
  refuseSpread t
  s.change fun c => { c with default := fallback? t }

def failover (s : Schema) (t : Term) : Except Fault Schema := do
  refuseSpread t
  s.change fun c => { c with failover := fallback? t }

/-- Values that the schema matches count as absent. -/
def withEmpty (s : Schema) (e : Option Schema) : Except Fault Schema := do
  return node (← s.core.renewed) e s.content

def error (s : Schema) (t : Term) : Except Fault Schema :=
  match t with
  | .leaf (.entity (.raised e)) => s.change fun c => { c with error := some (.raised e) }
  | .leaf (.entity (.fn f)) => s.change fun c => { c with error := some (.call f) }
  | _ => .error (.contract "Must provide a valid Error object or a function")

def cast (s : Schema) (form : Term) : Except Fault Schema := do
  let refused := Fault.contract (Fault.contractText
    [.str "Type", .str s.kind.name, .str "does not support casting to", Term.toValue form])
  match form with
  | .null => s.change fun c => { c with cast := none }
  | .str name =>
    match s.kind.casts.find? fun k => k.name == name with
    | some k => s.change fun c => { c with cast := some k }
    | none => throw refused
  | t => if Datum.isHashable t then throw refused else throw (.illTyped "unhashable key")

def withResult (s : Schema) (mode : ResultMode) (enabled : Bool) : Except Fault Schema :=
  s.change fun c => { c with result := if enabled then some mode else none }

def insensitive (s : Schema) (enabled : Bool) : Except Fault Schema :=
  s.change fun c => { c with insensitive := enabled }

def sensitive (s : Schema) (enabled : Bool) : Except Fault Schema :=
  s.change fun c => { c with sensitive := enabled }

/-- Whether keys without a schema are allowed; the absent value leaves it to the preferences. -/
def unknown (s : Schema) (t : Term) : Except Fault Schema :=
  s.change fun c => { c with unknown := if Datum.isUndefined t then none else some (Term.toValue t) }

/-- Overrides preferences for the node and everything below it. -/
def prefs (s : Schema) (options : Dict) : Except Fault Schema := do
  require (!Datum.hasKey (.str "context") options) "Cannot override context"
  require (!Datum.hasKey (.str "externals") options) "Cannot override externals"
  require (!Datum.hasKey (.str "warnings") options) "Cannot override warnings"
  Preferences.check options
  s.change fun c => { c with prefs := some (Datum.mergeEntries (c.prefs.getD []) options) }

def defaultCacheSize : Nat := 1000

/-- What a term gives to keep results in: a new cache, the cache that it is, or nothing of use. -/
def resultStore (t : Term) : ResultStore :=
  match t with
  | .null => .cache { capacity := defaultCacheSize }
  | .leaf (.entity (.cache h)) => .cache ⟨some h.serial, h.capacity, h.givenAsTrue⟩
  | _ => .unfit

/-- Keeps results; what they are kept in is not checked before it is used. -/
def cache (s : Schema) (t : Term) : Except Fault Schema :=
  s.change fun c => { c with cache := some (resultStore t) }

def external (s : Schema) (t : Term) : Except Fault Schema :=
  match Term.fn? t with
  | some f => s.change fun c => { c with externals := c.externals ++ [f] }
  | none => .error (.contract "Method must be a function")

/-! ## Rules -/

/-- Checks one argument of a rule: a reference where one may stand, or an accepted value. -/
def checkArg (rule : RuleName) (spec : ArgSpec) (given : List (String × Term)) :
    Except Fault (List (String × Value) × List (String × Reference)) := do
  match (given.lookup spec.name).bind Term.reference? with
  | some r =>
    ensure spec.admitsRef
      [.str "Argument", .str spec.name, .str "of rule", .str rule.text, .str "does not support references"]
    ensure (!r.spread) [.str "Invalid in() reference usage in rule", .str rule.text]
    return ([(spec.name, .leaf (.pointer r.toPointer))], [(spec.name, r)])
  | none =>
    let v := spec.normalize (((given.lookup spec.name).map Term.toValue).getD .null)
    let accepted ← spec.check v
    ensure accepted [.str rule.text, .str spec.name, .str spec.complaint]
    return ([(spec.name, v)], [])

/-- The entry of a rule with its arguments checked in order. -/
def ruleEntry (spec : RuleSpec) (given : List (String × Term)) : Except Fault RuleEntry := do
  let checked ← spec.args.mapM fun a => checkArg spec.name a given
  return { name := spec.name, args := checked.flatMap Prod.fst, refs := checked.flatMap Prod.snd }

/-- The rules with an entry added at the end, in place of one of its name unless several may stand. -/
def putRule (spec : RuleSpec) (e : RuleEntry) (rules : List RuleEntry) : List RuleEntry :=
  (if spec.multiple then rules else rules.filter fun r => r.name != spec.name) ++ [e]

def addRule (s : Schema) (name : RuleName) (given : List (String × Term)) : Except Fault Schema := do
  let some spec := s.kind.rule? name | throw (.noMethod name.text)
  let e ← ruleEntry spec given
  s.change fun c => { c with rules := putRule spec e c.rules }

/-- Changes the last rule: whether it only warns, and its message; null leaves either as it is. -/
def rule (s : Schema) (warn message : Term) : Except Fault Schema := do
  require (!s.core.rules.isEmpty) "Cannot apply rules to empty ruleset"
  let amend := fun (r : RuleEntry) => { r with
    warn := if Datum.isNull warn then r.warn else Term.toValue warn
    message := if Datum.isNull message then r.message else Term.toValue message }
  s.change fun c => { c with
    rules := match c.rules.getLast? with
      | some r => c.rules.dropLast ++ [amend r]
      | none => [] }

/-! ## Types of nodes -/

def any : Schema := ofContent .any

def boolean : Schema := ofContent (.boolean none none)

def number : Schema := ofContent .number

def string : Schema := ofContent .string

def array : Schema := ofContent (.array [])

def object : Schema := ofContent (.object none)

def alternatives : Schema := ofContent (.alternatives [] .isOpen none)

def probe : Schema := ofContent .probe

/-- A text that matches a pattern. -/
def pattern (s : Schema) (regex name invert : Term) : Except Fault Schema := do
  let compiled : Term ← match regex with
    | .str source =>
      if (Pattern.read? source).isSome then pure (.leaf (.entity (.pattern source)))
      else throw .badPattern
    | .leaf (.entity (.pattern _)) => pure regex
    | _ => throw (.contract "regex must be a regular expression")
  s.addRule .pattern [("regex", compiled), ("name", name), ("invert", invert)]

/-! ## Converted values of booleans -/

def requireTerms (name : String) (terms : List Term) : Except Fault Unit :=
  ensure (!terms.isEmpty) [.str "Missing", .str name, .str "values"]

/-- Adds values that convert to a truth value. -/
def extendTerm (name : String) (terms : List Term) (set : Option ValueSet) :
    Except Fault (Option ValueSet) := do
  let extended ← terms.foldlM (fun (acc : ValueSet) t => do
    ensure (!Datum.isUndefined t) [.str "Cannot call", .str name, .str "with undefined"]
    return acc.add (Term.member t)) (set.getD {})
  return some extended

def truthy (s : Schema) (terms : List Term) : Except Fault Schema :=
  match s.content with
  | .boolean t f => do
    requireTerms "truthy" terms
    s.withContent? (return .boolean (← extendTerm "truthy" terms t) f)
  | _ => .error (.noMethod "truthy")

def falsy (s : Schema) (terms : List Term) : Except Fault Schema :=
  match s.content with
  | .boolean t f => do
    requireTerms "falsy" terms
    s.withContent? (return .boolean t (← extendTerm "falsy" terms f))
  | _ => .error (.noMethod "falsy")

end Schema

end Conform
