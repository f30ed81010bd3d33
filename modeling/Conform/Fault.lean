import Conform.Datum.Text

/-!
# Faults

What stops an operation: misuse of a builder, rejected data, a failed hook, an exception of a function,
or an operation on data of a wrong kind.
-/

namespace Conform

/-- One failed constraint as a caller sees it. -/
structure Detail where
  message : String
  path : Path
  code : Value
  context : Dict

/-- The reports of a failed validation, rendered. -/
structure Rejection where
  message : String
  details : List Detail
  input : Value

inductive Fault where
  /-- A builder or an operation was called against its contract. -/
  | contract (message : String)
  /-- Data were rejected. -/
  | rejected (r : Rejection)
  /-- A hook that ran after validation raised `cause`. -/
  | hook (message : String) (path : Path) (label : String) (cause : Raised)
  /-- A function raised an exception, or an exception was given in place of reports. -/
  | raised (e : Raised)
  /-- A variable has no value. -/
  | unbound (name : String)
  /-- An integer is too large for a float. -/
  | tooLarge
  /-- Data of a wrong kind for the operation. -/
  | illTyped (text : String)
  /-- A text that should be a number is none. -/
  | unreadable (text : String)
  /-- A table has no such entry. -/
  | missingKey (text : String)
  /-- A list has no such item. -/
  | outOfRange (text : String)
  /-- A template has an expression that is empty or does not end. -/
  | badTemplate
  /-- A text is no pattern. -/
  | badPattern
  /-- Data of this kind have no such method. -/
  | noMethod (text : String)

namespace Fault

/-- The name of the kind of a fault. -/
def kind : Fault → String
  | contract _ => "ContractViolation"
  | rejected _ => "ValidationError"
  | hook .. => "ExternalHookError"
  | raised e => e.kind
  | unbound _ => "Unbound"
  | tooLarge => "OverflowError"
  | illTyped _ => "TypeError"
  | unreadable _ => "ValueError"
  | missingKey _ => "KeyError"
  | outOfRange _ => "IndexError"
  | badTemplate => "TemplateSyntaxError"
  | badPattern => "error"
  | noMethod _ => "AttributeError"

def message : Fault → String
  | contract m => m
  | rejected r => r.message
  | hook m _ _ _ => m
  | raised e => e.text
  | unbound name => name
  | tooLarge => "int too large to convert to float"
  | illTyped t => t
  | unreadable t => t
  | missingKey t => t
  | outOfRange t => t
  | badTemplate => "invalid template"
  | badPattern => "invalid pattern"
  | noMethod t => t

/-- A fault as the exception that a caller can hold. -/
def toRaised : Fault → Raised
  | raised e => e
  | f => ⟨f.kind, f.message, 0⟩

/-- The parts of a message joined by spaces. -/
def contractText (parts : List Value) : String :=
  let text := " ".intercalate (parts.map Datum.text)
  if text = "" then "Unknown contract violation" else text

end Fault

/-- Fails with a contract violation, whose message joins the parts by spaces, unless the condition
holds. -/
def ensure (condition : Bool) (parts : List Value) : Except Fault Unit :=
  if condition then .ok () else .error (.contract (Fault.contractText parts))

/-- A contract violation with a fixed message, unless the condition holds. -/
def require (condition : Bool) (message : String) : Except Fault Unit :=
  if condition then .ok () else .error (.contract message)

end Conform
