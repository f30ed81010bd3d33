import Conform.Number.Shortest
import Conform.Text.Case
import Conform.Validation.Run

/-!
# Conversion and base checks of scalars

Before its tests a value is prepared and coerced, where the preferences ask for conversion; then the
type of the node is checked. Each step may change the value or report failures, and gives nothing
where it leaves the value alone.
-/

namespace Conform

/-- The outcome of one step of a node. -/
structure Outcome where
  value : Value
  errors : List Issue := []

namespace Outcome

def failed (v : Value) (reports : List Report) : Outcome := ⟨v, reports.map .report⟩

end Outcome

/-! ## Preparation -/

/-- Only the sample type prepares: a text after `!` is refused, and a leading `@` is dropped. -/
def prepare (kind : Kind) (f : Frame) (v : Value) : Option Outcome :=
  match kind, v with
  | .probe, .str s =>
    match s.toList with
    | '!' :: _ => some (.failed v [f.fail "probe.prepare" []])
    | '@' :: r => some ⟨.str (String.ofList r), []⟩
    | _ => none
  | _, _ => none

/-! ## Coercion -/

/-- Reads a number from a text. -/
def coerceNumber : Value → Option Value
  | .str s => (Number.read? s).map fun
    | .int n => .int n
    | .float x => .float x
  | _ => none

/-- Changes the case and trims, as the rules of the node ask. -/
def coerceText (c : Core) (s : String) : String :=
  let cased := match c.rule? .case with
    | none => s
    | some r =>
      match RuleEntry.arg "direction" r.args with
      | .str "lower" => Text.lower s
      | _ => Text.upper s
  match c.rule? .trim with
  | none => cased
  | some r => if (RuleEntry.arg "enabled" r.args).truthy then Text.trimBlanks cased else cased

def coerceString (c : Core) : Value → Option Value
  | .str s => some (.str (coerceText c s))
  | _ => none

/-- The truth value that a text spells. -/
def spelledBool (sensitive : Bool) (s : String) : Option Bool :=
  match if sensitive then s else Text.lower s with
  | "true" => some true
  | "false" => some false
  | _ => none

/-- The truth value that a value is registered for. -/
def registeredBool (sensitive : Bool) (truthy falsy : Option ValueSet) (v : Value) : Option Bool :=
  if (truthy.map (ValueSet.hasLiteral (!sensitive) v)).getD false then some true
  else if (falsy.map (ValueSet.hasLiteral (!sensitive) v)).getD false then some false
  else none

/-- Only texts and numbers are converted to truth values. -/
def coerceBool (sensitive : Bool) (truthy falsy : Option ValueSet) (v : Value) : Option Value :=
  let spelled := match v with
    | .str s => spelledBool sensitive s
    | _ => none
  match v with
  | .str _ | .int _ | .float _ =>
    (spelled <|> registeredBool sensitive truthy falsy v).map Datum.bool
  | _ => none

/-- The sample type refuses a text after `?` twice, and writes an integer as a text. -/
def coerceProbe (f : Frame) (v : Value) : Option Outcome :=
  match v with
  | .str s =>
    if s.startsWith "?" then
      some (.failed v [f.fail "probe.coerce" [], f.fail "probe.coerce2" [(.str "n", .int 2)]])
    else none
  | .int n => some ⟨.str (toString n), []⟩
  | _ => none

def coerce (core : Core) (content : Content) (f : Frame) (v : Value) : Option Outcome :=
  match content with
  | .number => (coerceNumber v).map fun w => ⟨w, []⟩
  | .string => (coerceString core v).map fun w => ⟨w, []⟩
  | .boolean truthy falsy => (coerceBool core.sensitive truthy falsy v).map fun w => ⟨w, []⟩
  | .probe => coerceProbe f v
  | _ => none

/-- A text trimmed by the rule of the node, as the check for emptiness sees it. -/
def trimmed (core : Core) (v : Value) : Value :=
  match v, core.rule? .trim with
  | .str s, some r =>
    if (RuleEntry.arg "enabled" r.args).truthy then .str (Text.trimBlanks s) else v
  | _, _ => v

/-! ## Base checks -/

def baseNumber (f : Frame) (v : Value) : Except Fault (Option Outcome) := do
  if !(← Datum.isNumber v) then return some (.failed v [f.fail "number.base" []])
  match v with
  | .float (.infinity _) => return some (.failed v [f.fail "number.infinity" []])
  | _ => return none

def baseString (f : Frame) (v : Value) : Option Outcome :=
  match v with
  | .str "" => some (.failed v [f.fail "string.empty" []])
  | .str _ => none
  | _ => some (.failed v [f.fail "string.base" []])

def baseBoolean (f : Frame) (v : Value) : Option Outcome :=
  if v.isBool then none else some (.failed v [f.fail "boolean.base" []])

def baseProbe (f : Frame) (v : Value) : Option Outcome :=
  if v.isText then none else some (.failed v [f.fail "probe.base" []])

/-! ## Casts -/

/-- The value in the form that a cast asks for; values of other kinds stay. -/
def castValue (kind : Kind) (form : Cast) (v : Value) : Except Fault Value := do
  match kind, form, v with
  | .number, .string, v => return if ← Datum.isNumber v then .str v.text else v
  | .boolean, .number, .bool b => return .int (if b then 1 else 0)
  | .boolean, .string, .bool b => return .str (if b then "true" else "false")
  | .probe, .length, .str s => return .int s.length
  | _, _, v => return v

end Conform
