import Conform.Schema.Term
import Conform.Pattern.Syntax

/-!
# Rules

Each type has its rules. A rule lists its arguments, and an argument says what it accepts: whether a
reference may stand for it, how a value given for it is normalised, and which values it takes.
-/

namespace Conform

/-- An argument of a rule. -/
structure ArgSpec where
  name : String
  check : Value → Except Fault Bool := fun _ => .ok true
  complaint : String := "is invalid"
  admitsRef : Bool := true
  normalize : Value → Value := id

/-- A rule of a type. A rule done by conversion is tested only where nothing is converted. -/
structure RuleSpec where
  name : RuleName
  args : List ArgSpec := []
  byConversion : Bool := false
  multiple : Bool := false

namespace Datum

/-- A number proper. An integer too large for a float is a fault. -/
def isNumber : Value → Except Fault Bool
  | .int n => if (Binary64.ofInt? n).isSome then .ok true else .error .tooLarge
  | .float x => .ok !x.isNan
  | _ => .ok false

def isPositiveNumber (v : Value) : Except Fault Bool := do
  if !(← isNumber v) then return false
  return match v.number? with
    | some n => n.compare? (.int 0) == some .gt
    | none => false

/-- A count: an integer from zero upwards. -/
def isCount : Value → Bool
  | .int n => 0 ≤ n
  | _ => false

/-- A number from zero upwards, of any size. -/
def isNonNegative : Value → Bool
  | .int n => 0 ≤ n
  | .float x => match (Number.float x).compare? (.int 0) with
    | some .lt | none => false
    | _ => true
  | _ => false

def isCallable : Value → Bool
  | .leaf (.fn _) => true
  | _ => false

def isPattern : Value → Bool
  | .leaf (.pattern _) => true
  | _ => false

/-- A text becomes its length. -/
def lengthOfText : Value → Value
  | .str s => .int s.length
  | v => v

end Datum

namespace RuleSpec

def numberLimit : ArgSpec :=
  { name := "limit", check := Datum.isNumber, complaint := "must be a number" }

def countLimit : ArgSpec where
  name := "limit"
  check := fun v => .ok v.isCount
  complaint := "must be a positive integer"

def custom : RuleSpec where
  name := .custom
  args := [{
    name := "method"
    check := fun v => .ok v.isCallable
    complaint := "must be a function"
    admitsRef := false }]
  multiple := true

def warning : RuleSpec where
  name := .warning
  args := [
    { name := "code"
      check := fun v => .ok (v.isText && v.truthy)
      complaint := "must be a non-empty string"
      admitsRef := false },
    { name := "local"
      check := fun v => .ok (v.isNull || v.isDict)
      complaint := "must be a dict"
      admitsRef := false }]
  multiple := true

def multipleOf : RuleSpec where
  name := .multiple
  args := [{ name := "base", check := Datum.isPositiveNumber, complaint := "must be a positive number" }]

def pattern : RuleSpec where
  name := .pattern
  args := [
    { name := "regex"
      check := fun v => .ok v.isPattern
      complaint := "must be a regular expression"
      admitsRef := false },
    { name := "name"
      check := fun v => .ok (v.isNull || v.isText)
      complaint := "must be a string"
      admitsRef := false },
    { name := "invert"
      check := fun v => .ok v.isBool
      complaint := "must be a boolean"
      admitsRef := false }]
  multiple := true

def trim : RuleSpec where
  name := .trim
  args := [{
    name := "enabled"
    check := fun v => .ok v.isBool
    complaint := "must be a boolean"
    admitsRef := false }]
  byConversion := true

def case : RuleSpec where
  name := .case
  args := [{
    name := "direction"
    check := fun v => .ok (match v with | .str s => s == "lower" || s == "upper" | _ => false)
    complaint := "must be one of lower, upper"
    admitsRef := false }]
  byConversion := true

def limit : RuleSpec where
  name := .limit
  args := [
    { name := "n"
      check := fun v => .ok v.isNonNegative
      complaint := "must be small"
      normalize := Datum.lengthOfText },
    { name := "tag" }]

def common : List RuleSpec := [custom, warning]

def lengths : List RuleSpec := [⟨.min, [countLimit], false, false⟩, ⟨.max, [countLimit], false, false⟩,
  ⟨.length, [countLimit], false, false⟩]

def comparisons : List RuleSpec := [⟨.min, [numberLimit], false, false⟩,
  ⟨.max, [numberLimit], false, false⟩, ⟨.greater, [numberLimit], false, false⟩,
  ⟨.less, [numberLimit], false, false⟩]

end RuleSpec

namespace Kind

/-- The rules of each type; every type has the common ones. -/
def rules : Kind → List RuleSpec
  | number => RuleSpec.common ++ RuleSpec.comparisons ++ [{ name := .integer }, RuleSpec.multipleOf]
  | string => RuleSpec.common ++ RuleSpec.lengths ++ [RuleSpec.pattern, RuleSpec.trim, RuleSpec.case]
  | array => RuleSpec.common ++ RuleSpec.lengths
  | probe => RuleSpec.common ++ [RuleSpec.limit]
  | _ => RuleSpec.common

def rule? (k : Kind) (name : RuleName) : Option RuleSpec := k.rules.find? fun r => r.name == name

def casts : Kind → List Cast
  | number => [.string]
  | boolean => [.number, .string]
  | probe => [.length]
  | _ => []

end Kind

namespace RuleEntry

/-- The value of an argument; null where it was not given. -/
def arg (name : String) (args : List (String × Value)) : Value := (args.lookup name).getD .null

end RuleEntry

namespace Core

/-- The last rule of a name. -/
def rule? (c : Core) (name : RuleName) : Option RuleEntry :=
  c.rules.reverse.find? fun r => r.name == name

end Core

end Conform
