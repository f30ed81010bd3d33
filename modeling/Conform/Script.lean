import Conform.Schema.Compile
import Conform.Schema.Allocate

/-!
# Schemas described by calls

A schema can be written as a constructor followed by calls of builders, each with arguments in order
and by name. `Script.run` carries out such a chain.
-/

namespace Conform

/-- A call by name, with arguments in order and arguments by name. -/
structure Call where
  name : String
  args : List Term := []
  options : List (String × Term) := []

namespace Call

/-- A parameter of a call. Without a default it must be given. -/
structure Param where
  name : String
  default : Option Term := none
  byNameOnly : Bool := false

def wrongArguments (c : Call) : Fault := .illTyped ("wrong arguments for " ++ c.name)

/-- The argument for each parameter: by position, by name, or the default. -/
def assign (c : Call) : List Param → List Term → Except Fault (List Term)
  | [], [] => .ok []
  | [], _ :: _ => .error c.wrongArguments
  | p :: ps, args => do
    let named := c.options.lookup p.name
    match args with
    | a :: rest =>
      if p.byNameOnly || named.isSome then throw c.wrongArguments
      return a :: (← assign c ps rest)
    | [] =>
      match named <|> p.default with
      | some a => return a :: (← assign c ps [])
      | none => throw c.wrongArguments

/-- The arguments of a call in the order of the parameters. -/
def bind (c : Call) (params : List Param) : Except Fault (List Term) := do
  let known := fun (name : String) => params.any fun p => p.name == name
  if !c.options.all fun o => known o.1 then throw c.wrongArguments
  assign c params c.args

def bindNone (c : Call) : Except Fault Unit := do
  let _ ← c.bind []

/-- The only argument of a call. -/
def bindOne (c : Call) (p : Param) : Except Fault Term := do
  match ← c.bind [p] with
  | [t] => return t
  | _ => throw c.wrongArguments

def bindTwo (c : Call) (p q : Param) : Except Fault (Term × Term) := do
  match ← c.bind [p, q] with
  | [t, u] => return (t, u)
  | _ => throw c.wrongArguments

/-- Any number of arguments, all in order. -/
def bindMany (c : Call) : Except Fault (List Term) := do
  if !c.options.isEmpty then throw c.wrongArguments
  return c.args

/-- Any arguments by name. -/
def bindNamed (c : Call) : Except Fault Dict := do
  if !c.args.isEmpty || (c.options.lookup "self").isSome then throw c.wrongArguments
  return c.options.map fun o => (.str o.1, Term.toValue o.2)

/-- A truth value, true unless said otherwise. -/
def bindFlag (c : Call) (name : String) : Except Fault Bool := do
  return Datum.truthy (← c.bindOne { name, default := some (.bool true) })

end Call

namespace Script

open Call

/-! ## Constructors -/

/-- Schemas to try: one list of them, or each by itself. -/
def alternativesOf (terms : List Term) : Except Fault Schema :=
  let spread := match terms with
    | [.list xs] => xs
    | ts => ts
  if spread.isEmpty then .ok .alternatives else Schema.alternatives.attempt spread

def objectOf (keys : Term) : Except Fault Schema :=
  if Datum.isNull keys then .ok .object else Schema.object.keys keys

def construct (c : Call) : Except Fault Schema := do
  let plain (s : Schema) : Except Fault Schema := do
    c.bindNone
    return s
  match c.name with
  | "any" => plain .any
  | "array" => plain .array
  | "boolean" => plain .boolean
  | "number" => plain .number
  | "string" => plain .string
  | "probe" => plain .probe
  | "alternatives" => alternativesOf (← c.bindMany)
  | "object" => objectOf (← c.bindOne { name := "keys", default := some .null })
  | "valid" => Schema.any.valid (← c.bindMany)
  | "invalid" => Schema.any.deny (← c.bindMany)
  | "compile" => Schema.compile (← c.bindOne { name := "value" })
  | "var" =>
    match Term.schema? (← c.bindOne { name := "schema" }) with
    | some s => return s
    | none => throw (.illTyped "a variable that holds no schema")
  | name => throw (.noMethod name)

/-! ## Builders -/

/-- Adds a rule with one argument. -/
def limitRule (s : Schema) (rule : RuleName) (param : String) (c : Call) : Except Fault Schema := do
  s.addRule rule [(param, ← c.bindOne { name := param })]

/-- Calls that nodes of every type take; nothing for other names. -/
def common? (s : Schema) (c : Call) : Option (Except Fault Schema) :=
  match c.name with
  | "allow" => some do s.allow (← c.bindMany)
  | "valid" | "equal" => some do s.valid (← c.bindMany)
  | "invalid" | "disallow" | "not_" => some do s.deny (← c.bindMany)
  | "only" => some do s.only (← c.bindFlag "enabled")
  | "presence" => some do s.presence (← c.bindOne { name := "mode" })
  | "required" | "exist" => some do
    c.bindNone
    s.required
  | "optional" => some do
    c.bindNone
    s.withPresence .optional
  | "forbidden" => some do
    c.bindNone
    s.withPresence .forbidden
  | "default" => some do
    let absent : Term := if s.kind = .object then .leaf (.entity .deepDefault) else .undefined
    s.default (← c.bindOne { name := "value", default := some absent })
  | "failover" => some do s.failover (← c.bindOne { name := "value", default := some .undefined })
  | "empty" => some do s.empty (← c.bindOne { name := "schema", default := some .undefined })
  | "error" => some do s.error (← c.bindOne { name := "err" })
  | "label" => some do s.label (← c.bindOne { name := "name" })
  | "cast" => some do s.cast (← c.bindOne { name := "to" })
  | "raw" => some do s.withResult .raw (← c.bindFlag "enabled")
  | "strip" => some do s.withResult .strip (← c.bindFlag "enabled")
  | "prefs" | "options" => some do s.prefs (← c.bindNamed)
  | "cache" => some do s.cache (← c.bindOne { name := "cache", default := some .null })
  | "external" => some do s.external (← c.bindOne { name := "method" })
  | "custom" => some do limitRule s .custom "method" c
  | "warning" => some do
    let (code, locals) ← c.bindTwo { name := "code" } { name := "local", default := some .null }
    s.addRule .warning [("code", code), ("local", locals)]
  | "rule" => some do
    let (warn, message) ← c.bindTwo { name := "warn", default := some .null }
      { name := "message", default := some .null }
    s.rule warn message
  | "warn" => some do
    c.bindNone
    s.rule (.bool true) .null
  | "message" => some do s.rule .null (← c.bindOne { name := "message" })
  | "concat" => some do s.concat (← c.bindOne { name := "source" })
  | "clone" => some do
    c.bindNone
    s.change id
  | _ => none

def numberCall (s : Schema) (c : Call) : Except Fault Schema := do
  match c.name with
  | "min" => limitRule s .min "limit" c
  | "max" => limitRule s .max "limit" c
  | "greater" => limitRule s .greater "limit" c
  | "less" => limitRule s .less "limit" c
  | "multiple" => limitRule s .multiple "base" c
  | "integer" =>
    c.bindNone
    s.addRule .integer []
  | "positive" =>
    c.bindNone
    s.addRule .greater [("limit", .int 0)]
  | "negative" =>
    c.bindNone
    s.addRule .less [("limit", .int 0)]
  | name => throw (.noMethod name)

def lengthCall (s : Schema) (c : Call) : Except Fault Schema :=
  match c.name with
  | "min" => limitRule s .min "limit" c
  | "max" => limitRule s .max "limit" c
  | "length" => limitRule s .length "limit" c
  | name => .error (.noMethod name)

def stringCall (s : Schema) (c : Call) : Except Fault Schema := do
  match c.name with
  | "pattern" | "regex" =>
    match ← c.bind [{ name := "regex" }, { name := "name", default := some .null },
        { name := "invert", default := some (.bool false) }] with
    | [regex, name, invert] => s.pattern regex name invert
    | _ => throw c.wrongArguments
  | "trim" =>
    s.addRule .trim [("enabled", ← c.bindOne { name := "enabled", default := some (.bool true) })]
  | "case" => limitRule s .case "direction" c
  | "lowercase" =>
    c.bindNone
    s.addRule .case [("direction", .str "lower")]
  | "uppercase" =>
    c.bindNone
    s.addRule .case [("direction", .str "upper")]
  | "insensitive" => s.insensitive (← c.bindFlag "enabled")
  | _ => lengthCall s c

def booleanCall (s : Schema) (c : Call) : Except Fault Schema := do
  match c.name with
  | "truthy" => s.truthy (← c.bindMany)
  | "falsy" => s.falsy (← c.bindMany)
  | "sensitive" => s.sensitive (← c.bindFlag "enabled")
  | name => throw (.noMethod name)

def arrayCall (s : Schema) (c : Call) : Except Fault Schema := do
  match c.name with
  | "items" => s.items (← c.bindMany)
  | _ => lengthCall s c

def objectCall (s : Schema) (c : Call) : Except Fault Schema := do
  match c.name with
  | "keys" => s.keys (← c.bindOne { name := "schema", default := some .null })
  | "append" => s.extend (← c.bindOne { name := "schema", default := some .null })
  | "unknown" => s.unknown (← c.bindOne { name := "allow", default := some (.bool true) })
  | name => throw (.noMethod name)

def conditionParams : List Param := [
  { name := "condition" },
  { name := "is_", default := some .undefined, byNameOnly := true },
  { name := "not_", default := some .undefined, byNameOnly := true },
  { name := "then", default := some .undefined, byNameOnly := true },
  { name := "otherwise", default := some .undefined, byNameOnly := true },
  { name := "switch", default := some .null, byNameOnly := true }]

def alternativesCall (s : Schema) (c : Call) : Except Fault Schema := do
  match c.name with
  | "try_" => s.attempt (← c.bindMany)
  | "match" => s.matchMode (← c.bindOne { name := "mode" })
  | "conditional" =>
    match ← c.bind conditionParams with
    | [condition, is, isNot, onMatch, onMiss, switch] =>
      s.conditional condition { is, isNot, onMatch, onMiss, switch }
    | _ => throw c.wrongArguments
  | name => throw (.noMethod name)

def probeCall (s : Schema) (c : Call) : Except Fault Schema := do
  match c.name with
  | "limit" =>
    let (n, tag) ← c.bindTwo { name := "n" } { name := "tag", default := some .null }
    s.addRule .limit [("n", n), ("tag", tag)]
  | name => throw (.noMethod name)

/-- Carries out one call on a node. -/
def apply (s : Schema) (c : Call) : Except Fault Schema :=
  match common? s c with
  | some r => r
  | none =>
    match s.kind with
    | .any => .error (.noMethod c.name)
    | .number => numberCall s c
    | .string => stringCall s c
    | .boolean => booleanCall s c
    | .array => arrayCall s c
    | .object => objectCall s c
    | .alternatives => alternativesCall s c
    | .probe => probeCall s c

/-- Carries out a chain: a constructor, then builders. -/
def run : List Call → Except Fault Schema
  | [] => .error (.illTyped "an empty chain")
  | c :: cs => do cs.foldlM apply (← construct c)

end Script

end Conform
