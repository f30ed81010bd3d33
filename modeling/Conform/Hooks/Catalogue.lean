import Conform.Datum.KindName
import Conform.Validation.Run

/-!
# A catalogue of named functions

The behaviour of the functions that schemas may name: tests, defaults, error overrides, hooks and
adjustments. Their names say their place and what they do, and their parameters complete them. A
function may stand in another place that gives it as many arguments as it takes.
-/

namespace Conform

namespace Fn

def param (f : Fn) (name : String) : Value := (f.params.lookup name).getD .null

def textParam (f : Fn) (name : String) : String := (f.param name).text

end Fn

namespace Catalogue

/-! ## Functions -/

/-- The classes among the functions; called with nothing, they make an empty member. -/
def className? : String → Option String
  | "default.list" => some "list"
  | "default.dict" => some "dict"
  | _ => none

/-- A function of the catalogue; there is one of each class. -/
def function (serial : Nat) (name : String) (params : List (String × Value)) : Fn :=
  let className := className? name
  { serial := if className.isSome then 0 else serial, name, params, className }

/-- The kind of the exceptions that these functions raise. -/
def boomKind : String := "Boom"

def boom (text : String) : Raised := ⟨boomKind, text, 0⟩

def boomValue (text : String) : Value := .leaf (.raised (boom text))

def unknown (f : Fn) : Fault := .illTyped ("no such function here: " ++ f.name)

/-- The parameter `message`, raised. -/
def raising (f : Fn) : Fault := .raised (boom (f.textParam "message"))

def noAttribute (kind name : String) : Fault :=
  .noMethod ("'" ++ kind ++ "' object has no attribute '" ++ name ++ "'")

/-- The sum of two numbers; an integer meets a float as a float, and a truth value counts as one or
zero. -/
def sum (a b : Value) : Except Fault Value := do
  let asFloat (n : Int) : Except Fault Binary64 :=
    match Binary64.ofInt? n with
    | some x => .ok x
    | none => .error .tooLarge
  match a.number?, b.number? with
  | some (.int m), some (.int n) => return .int (m + n)
  | some (.int m), some (.float y) => return .float ((← asFloat m).add y)
  | some (.float x), some (.int n) => return .float (x.add (← asFloat n))
  | some (.float x), some (.float y) => return .float (x.add y)
  | _, _ => throw (.illTyped ("unsupported operand type(s) for +: '" ++ a.kindName true ++ "' and '"
      ++ b.kindName true ++ "'"))

/-- Numbers proper, to which the parameter `n` is added. -/
def isAddable : Value → Bool
  | .int _ | .float _ => true
  | _ => false

def added (f : Fn) (v : Value) : Except Fault Value :=
  if isAddable v then sum v (f.param "n") else .ok v

/-- The value at the parameter `key` of a dictionary. -/
def got (f : Fn) (v : Value) : Except Fault Value := do
  let missing := Fault.raised (boom ("no " ++ f.textParam "key"))
  let .dict es := v | throw missing
  match Datum.find? (← (f.param "key").toKey) es with
  | some w => return w
  | none => throw missing

/-- The number of entries once one more key is set. -/
def mutated : Value → Except Fault Value
  | .dict es => .ok (.int (Datum.insert (.str "zz") (.int 1) es).length)
  | .list _ => .error (.illTyped "list indices must be integers or slices, not str")
  | .bytes true _ => .error (.illTyped "bytearray indices must be integers or slices, not str")
  | v => .error (.illTyped ("'" ++ v.kindName true ++ "' object does not support item assignment"))

def lengthOf : Value → Value
  | .str s => .int s.length
  | .list xs => .int xs.length
  | .dict es => .int es.length
  | _ => .undefined

def zeros (v : Value) : Except Fault Value :=
  match v.number? with
  | some (.int n) => .ok (.list (List.replicate n.toNat (.int 0)))
  | _ => .error (.illTyped ("can't multiply sequence by non-int of type '" ++ v.kindName true ++ "'"))

/-- What a function makes of one argument. -/
def applied (f : Fn) (v : Value) : Except Fault Value :=
  match f.name with
  | "external.none" | "external.record" => .ok .null
  | "external.same" | "default.parent" => .ok v
  | "external.const" | "adjust.const" => .ok (f.param "value")
  | "external.add" | "adjust.add" => added f v
  | "external.get" | "default.parent_get" => got f v
  | "external.raise" | "adjust.raise" => .error (raising f)
  | "adjust.len" => .ok (lengthOf v)
  | "default.mutate" => mutated v
  | "default.req_opt" => do return .list [← got f v, .bool false]
  | "default.optional" => zeros v
  | "default.varargs" | "default.req_varargs" => .ok (.int 1)
  | "default.list" => v.toItems.map .list
  | "default.dict" => v.toEntries.map .dict
  | _ => .error (unknown f)

/-- The same, where the argument may be recorded. -/
def called (f : Fn) (v : Value) : Eval Value := do
  if f.name == "external.record" then Eval.record (f.param "tag") v
  applied f v

/-! ## Tests -/

def reportValue (r : Report) : Value := .leaf (.report r)

/-- The report under the code and with the names that the parameters give. -/
def reported (f : Fn) (frame : Frame) (site : Site) (value : Value) : Except Fault Report := do
  return frame.reportUnder site (f.param "code") value (← (f.param "local").toEntriesIfTrue)

def plainReport (frame : Frame) (code : Value) : Value :=
  reportValue (frame.reportUnder frame.site code frame.current [])

/-- Facts about the node under test. -/
def info (frame : Frame) (v : Value) : Value :=
  .list [v, frame.given, frame.current, .list frame.site.path,
    .int frame.site.ancestors.length, .str frame.kind.name]

def custom (f : Fn) (frame : Frame) (v : Value) : Eval Value := do
  match f.name with
  | "custom.none" => return .null
  | "custom.const" => return f.param "value"
  | "custom.add" => added f v
  | "custom.error" => return reportValue (← reported f frame frame.site frame.current)
  | "custom.errors" => return .list ((← (f.param "codes").toItems).map (plainReport frame))
  | "custom.mixed" => return .list [plainReport frame (f.param "code"), .str "x"]
  | "custom.raise" => throw (raising f)
  | "custom.record" =>
    Eval.record (f.param "tag") v
    return .null
  | "custom.warn" =>
    Eval.warn (← reported f frame frame.site frame.current)
    return .null
  | "custom.info" => return info frame v
  | "custom.error_at" =>
    return reportValue (← reported f frame (frame.site.child v (f.param "key")) frame.current)
  | "default.varargs" | "default.req_varargs" => return .int 2
  | "default.req_opt" => return .list [← got f v, .bool true]
  | "default.parent_prefs" | "default.three" => throw (noAttribute "Helpers" "presence")
  | "default.list" => throw (.illTyped "list expected at most 1 argument, got 2")
  | "default.dict" => throw (.illTyped "dict expected at most 1 argument, got 2")
  | _ => throw (unknown f)

/-! ## Defaults -/

def signature (f : Fn) : Signature :=
  match f.name with
  | "default.parent" | "default.parent_get" | "default.mutate" => ⟨[false], false⟩
  | "default.parent_prefs" => ⟨[false, false], false⟩
  | "default.optional" => ⟨[true], false⟩
  | "default.req_opt" => ⟨[false, true], false⟩
  | "default.varargs" => ⟨[], true⟩
  | "default.req_varargs" => ⟨[false], true⟩
  | "default.three" => ⟨[false, false, true], false⟩
  | name =>
    if name.startsWith "custom." then ⟨[false, false], false⟩
    else if name.startsWith "default." then ⟨[], false⟩
    else ⟨[false], false⟩

/-- A test that is given the parent and the preferences instead of a value and its node. -/
def testOfParent (f : Fn) (parent : Value) : Eval Value := do
  match f.name with
  | "custom.none" => return .null
  | "custom.const" => return f.param "value"
  | "custom.add" => added f parent
  | "custom.raise" => throw (raising f)
  | "custom.record" =>
    Eval.record (f.param "tag") parent
    return .null
  | "custom.errors" =>
    match ← (f.param "codes").toItems with
    | [] => return .list []
    | _ => throw (noAttribute "Preferences" "error")
  | "custom.error" | "custom.mixed" => throw (noAttribute "Preferences" "error")
  | "custom.warn" => throw (noAttribute "Preferences" "warn")
  | "custom.info" => throw (noAttribute "Preferences" "original")
  | _ => throw (unknown f)

def fallback (f : Fn) (parent : Option Value) (prefs : Option Preferences) : Eval Value := do
  let enclosing := parent.getD .undefined
  let p := prefs.getD {}
  match f.name with
  | "default.const" => return f.param "value"
  | "default.raise" => throw (raising f)
  | "default.parent_prefs" => return .list [enclosing, .str p.presence.name, .bool p.convert,
      .bool p.abortEarly, (p.context.map Datum.dict).getD .null]
  | "default.optional" => return .list [.int 0, .int 0]
  | "default.req_opt" => return .list [← got f enclosing, .bool prefs.isSome]
  | "default.varargs" | "default.req_varargs" =>
    return .int ((if parent.isSome then 1 else 0) + if prefs.isSome then 1 else 0)
  | "default.three" => return .list [.str "d", .str p.presence.name]
  | "default.kwonly" => return .int 1
  | "default.list" => return .list []
  | "default.dict" => return .dict []
  | name => if name.startsWith "custom." then testOfParent f enclosing else called f enclosing

/-! ## Error overrides -/

def issueCode : Issue → Except Fault String
  | .report r =>
    match r.code with
    | .str code => .ok code
    | _ => .error (.illTyped "a code that is no text")
  | .other v => .ok (v.kindName false)

def issueMessage : Issue → Except Fault String
  | .report r => r.message
  | .other v => .ok v.text

def override (f : Fn) (issues : List Issue) : Eval Value := do
  let values := issues.map Issue.toValue
  let first := values.head?.getD .null
  match f.name with
  | "error.count" => return boomValue (toString issues.length ++ " failed")
  | "error.codes" => return boomValue (",".intercalate (← issues.mapM fun i => issueCode i))
  | "error.messages" => return boomValue (" | ".intercalate (← issues.mapM fun i => issueMessage i))
  | "error.first" => return first
  | "error.reverse" => return .list values.reverse
  | "error.tuple" => return .tuple values
  | "error.empty" => return .list []
  | "error.none" => return .null
  | "error.mixed" => return .list [first, boomValue (f.textParam "message")]
  | "error.raise" => throw (raising f)
  | _ => called f (.list values)

/-! ## Hooks and adjustments -/

/-- Nothing stands for the value as it was given. -/
def external (f : Fn) (v : Value) : Eval (Option Value) := do
  match f.name with
  | "external.same" | "default.parent" => return none
  | "external.add" | "adjust.add" => if isAddable v then return some (← added f v) else return none
  | _ => return some (← called f v)

/-- The functions of the catalogue. -/
def hooks : Hooks where
  adjust := applied
  custom := custom
  signature := signature
  fallback := fallback
  override := override
  external := external

end Catalogue

end Conform
