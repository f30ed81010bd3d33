import Conform.Pattern.Search
import Conform.Text.Ascii
import Conform.Text.Directive
import Conform.Validation.Scalar

/-!
# Tests of rules

A test answers with the value, changed or not, or with reports. An earlier function may have put any
kind of value in place, so a test meets values that its type excludes; comparing those is a fault.
-/

namespace Conform

/-- What a test answers. -/
inductive Reply where
  | value (v : Value)
  | reports (rs : List Report)

namespace Reply

/-- The reports in a value that is a report or a list of nothing but reports. -/
def reports? : Value → Option (List Report)
  | .leaf (.report r) => some [r]
  | .list (x :: xs) => (x :: xs).mapM fun
    | .leaf (.report r) => some r
    | _ => none
  | _ => none

/-- A value that holds nothing but reports answers like them. -/
def normal : Reply → Reply
  | value v =>
    match reports? v with
    | some rs => reports rs
    | none => value v
  | reports rs => reports rs

end Reply

namespace Rule

def notComparable : Fault := .illTyped "values that cannot be compared"

/-- Whether the order of a value and a limit is one of those admitted. -/
def compare (admits : Ordering → Bool) (v limit : Value) : Except Fault Bool :=
  match v.number?, limit.number? with
  | some a, some b => .ok ((a.compare? b).map admits |>.getD false)
  | _, _ => .error notComparable

def compareLength (admits : Ordering → Bool) (v limit : Value) : Except Fault Bool :=
  match v.length? with
  | some n => compare admits (.int n) limit
  | none => .error (.illTyped "a value without length")

def isWhole (x : Binary64) : Bool := (x.toDyadic?.map Dyadic.isInteger).getD false

/-- Whether a value is a whole number; a text and bytes are read first. -/
def isInteger (v : Value) : Except Fault Bool :=
  let reading (cs : Option (List Char)) : Except Fault Bool :=
    match cs.bind Numeral.spelledFloat? with
    | some x => .ok (isWhole x)
    | none => .error (.unreadable v.text)
  match v with
  | .int _ | .bool _ => .ok true
  | .float x => .ok (isWhole x)
  | .str s => reading (some s.toList)
  | .bytes _ d => reading (Text.asciiChars? d)
  | _ => .error (.illTyped "a value that is no number")

/-- Whether a number is a multiple of a positive one. Two integers are compared exactly; otherwise both
become floats first. -/
def isMultipleOf (v base : Number) : Except Fault Bool := do
  let asFloat : Number → Except Fault Binary64
    | .int n => match Binary64.ofInt? n with
      | some x => .ok x
      | none => .error .tooLarge
    | .float x => .ok x
  match v, base with
  | .int a, .int b => return a % b == 0
  | a, b =>
    match ← asFloat a, ← asFloat b with
    | .finite _ m _, .infinity _ => return m == 0
    | x, y =>
      match x.toDyadic?, y.toDyadic? with
      | some x, some y => return x.isMultipleOf y
      | _, _ => return false

/-- Whether a value is a multiple of a positive base. A text takes the base for its directives, and is no
multiple. -/
def isMultiple (v base : Value) : Except Fault Bool := do
  let some b := base.number? | throw (.illTyped "a base that is no number")
  match v, v.number? with
  | _, some a => isMultipleOf a b
  | .str s, _ =>
    Text.Directive.fill .chars b s.toList
    return false
  | .bytes _ d, _ =>
    Text.Directive.fill .bytes b (d.map fun c => Char.ofNat c.toNat)
    return false
  | _, _ => throw (.illTyped "a value that is no number")

/-- The codes of comparisons are named for the rule. -/
def limitReply (f : Frame) (code : String) (v limit : Value) (holds : Bool) : Reply :=
  if holds then .value v else .reports [f.fail code [(.str "limit", limit)]]

def comparison? : RuleName → Option (Ordering → Bool)
  | .min => some (· != .lt)
  | .max => some (· != .gt)
  | .greater => some (· == .gt)
  | .less => some (· == .lt)
  | .length => some (· == .eq)
  | _ => none

def noTextMethod : Fault := .noMethod "no text"

def testPattern (f : Frame) (v : Value) (args : List (String × Value)) : Except Fault Reply := do
  let .leaf (.pattern source) := RuleEntry.arg "regex" args | throw .badPattern
  let some p := Pattern.read? source | throw .badPattern
  let .str s := v | throw (.illTyped "expected a text")
  if p.search s != (RuleEntry.arg "invert" args).truthy then return .value v
  let name := RuleEntry.arg "name" args
  if name.truthy then
    return .reports [f.fail "string.pattern.name" [(.str "regex", .str source), (.str "name", name)]]
  return .reports [f.fail "string.pattern.base" [(.str "regex", .str source)]]

/-- A text without blanks around it. A schema can be trimmed too, and then is another one. -/
def testTrim (f : Frame) (v : Value) (args : List (String × Value)) : Except Fault Reply := do
  if !(RuleEntry.arg "enabled" args).truthy then return .value v
  let trimmed ← match v with
    | .str s => pure (s == Text.trimBlanks s)
    | .bytes _ d => pure (Text.isTrimmed d)
    | .leaf (.outline _) => pure false
    | _ => throw noTextMethod
  return if trimmed then .value v else .reports [f.fail "string.trim" []]

def testCase (f : Frame) (v : Value) (args : List (String × Value)) : Except Fault Reply := do
  let (isLower, isUpper) ← match v with
    | .str s => pure (s == Text.lower s, s == Text.upper s)
    | .bytes _ d => pure (!d.any Text.isAsciiUpper, !d.any Text.isAsciiLower)
    | _ => throw noTextMethod
  match RuleEntry.arg "direction" args with
  | .str "lower" => return if isLower then .value v else .reports [f.fail "string.lowercase" []]
  | _ => return if isUpper then .value v else .reports [f.fail "string.uppercase" []]

/-- The sample rule: a text no longer than `n`. -/
def testLimit (f : Frame) (v : Value) (args : List (String × Value)) : Except Fault Reply := do
  let n := RuleEntry.arg "n" args
  match v with
  | .str s =>
    if ← compare (· == .gt) (.int s.length) n then
      return .reports [f.fail "probe.limit" [(.str "n", n)], f.fail "probe.limit2" []]
    return .value v
  | v => return .value v

/-- A function as a test: what it raises is reported, and null leaves the value as it is. -/
def testCustom (h : Hooks) (f : Frame) (v : Value) (args : List (String × Value)) : Eval Reply := do
  match RuleEntry.arg "method" args with
  | .leaf (.fn fn) =>
    try
      let answer ← h.custom fn f v
      return .value (if answer.isNull then v else answer)
    catch fault =>
      return .reports [f.fail "any.custom" [(.str "error", .leaf (.raised fault.toRaised))]]
  | _ => throw (.illTyped "not a function")

/-- A rule that only warns. -/
def testWarning (f : Frame) (v : Value) (args : List (String × Value)) : Eval Reply := do
  let locals := match RuleEntry.arg "local" args with
    | .dict es => es
    | _ => []
  Eval.warn (f.reportUnder f.site (RuleEntry.arg "code" args) f.current locals)
  return .value v

/-- The test of a rule for nodes of a kind. -/
def test (h : Hooks) (name : RuleName) (f : Frame) (v : Value) (args : List (String × Value)) :
    Eval Reply := do
  let limit := RuleEntry.arg "limit" args
  match name with
  | .custom => testCustom h f v args
  | .warning => testWarning f v args
  | .integer =>
    return if ← isInteger v then .value v else .reports [f.fail "number.integer" []]
  | .multiple =>
    let base := RuleEntry.arg "base" args
    return if ← isMultiple v base then .value v
      else .reports [f.fail "number.multiple" [(.str "multiple", base)]]
  | .pattern => testPattern f v args
  | .trim => testTrim f v args
  | .case => testCase f v args
  | .limit => testLimit f v args
  | .min | .max | .greater | .less | .length =>
    let admits := (comparison? name).getD fun _ => false
    let code := f.kind.name ++ "." ++ name.text
    let holds ← if f.kind = .number then compare admits v limit else compareLength admits v limit
    return limitReply f code v limit holds

end Rule

end Conform
