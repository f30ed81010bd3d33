import Conform.Datum.Basic
import Conform.Number.Shortest
import Conform.Text.Quoted

/-!
# The text of data

Three texts: `quoted` shows a datum inside a container, `text` shows it alone, and `display` shows it
inside a message, where lists and tuples look alike and hold texts without quotes.
-/

namespace Conform

/-- Leaves that have a text alone and a text inside containers. -/
class Shown (α : Type) where
  text : α → String
  quoted : α → String

namespace Datum

variable {α : Type} [Shown α]

def boolText (b : Bool) : String := if b then "True" else "False"

def bytesText (growable : Bool) (data : List UInt8) : String :=
  if growable then "bytearray(" ++ Text.quotedBytes data ++ ")" else Text.quotedBytes data

def setText (frozen : Bool) (members : List String) : String :=
  let body := "\x7b" ++ ", ".intercalate members ++ "\x7d"
  match frozen, members with
  | false, [] => "set()"
  | true, [] => "frozenset()"
  | false, _ => body
  | true, _ => "frozenset(" ++ body ++ ")"

def tupleText : List String → String
  | [x] => "(" ++ x ++ ",)"
  | xs => "(" ++ ", ".intercalate xs ++ ")"

mutual

/-- The text inside a container. -/
def quoted : Datum α → String
  | undefined => "UNDEFINED"
  | null => "None"
  | bool b => boolText b
  | int n => toString n
  | float x => x.text
  | str s => Text.quoted s
  | bytes g d => bytesText g d
  | date d => d.constructorText
  | clock c => c.constructorText
  | moment m => m.constructorText
  | list xs => "[" ++ ", ".intercalate (quotedEach xs) ++ "]"
  | tuple xs => tupleText (quotedEach xs)
  | set z xs => setText z (quotedEach xs)
  | dict es => "\x7b" ++ ", ".intercalate (quotedEntries es) ++ "\x7d"
  | leaf a => Shown.quoted a

def quotedEach : List (Datum α) → List String
  | [] => []
  | x :: xs => quoted x :: quotedEach xs

def quotedEntries : Entries α → List String
  | [] => []
  | (k, v) :: es => (quoted k ++ ": " ++ quoted v) :: quotedEntries es

end

/-- The text of a datum alone. -/
def text : Datum α → String
  | str s => s
  | date d => d.text
  | clock c => c.text
  | moment m => m.text
  | leaf a => Shown.text a
  | v => v.quoted

mutual

/-- The text of a datum inside a message. -/
def display : Datum α → String
  | undefined => "undefined"
  | list xs => "[" ++ ", ".intercalate (displayEach xs) ++ "]"
  | tuple xs => "[" ++ ", ".intercalate (displayEach xs) ++ "]"
  | v => v.text

def displayEach : List (Datum α) → List String
  | [] => []
  | x :: xs => display x :: displayEach xs

end

end Datum

namespace Target

def text : Target → String
  | context => "None"
  | root => "'root'"
  | ancestor n => toString n

def kindName : Target → String
  | context => "global"
  | _ => "value"

end Target

namespace Pointer

def text (p : Pointer) : String := "ref:" ++ p.key

def quoted (p : Pointer) : String :=
  "Reference(" ++ Text.quoted p.key ++ ", ancestor=" ++ p.target.text ++ ", type='"
    ++ p.target.kindName ++ "')"

end Pointer

namespace Kind

def className : Kind → String
  | any => "AnySchema"
  | boolean => "BooleanSchema"
  | number => "NumberSchema"
  | string => "StringSchema"
  | array => "ArraySchema"
  | object => "ObjectSchema"
  | alternatives => "AlternativesSchema"
  | probe => "ProbeSchema"

def nodeText (k : Kind) : String := "<" ++ k.className ++ " type=" ++ k.name ++ ">"

end Kind

namespace Entity

/-- The text inside containers, given a text for the data of a report. -/
def quotedWith (quoted : Value → String) : Entity → String
  | token name => "<obj " ++ name ++ ">"
  | fn f => match f.className with
    | some name => "<class '" ++ name ++ "'>"
    | none => "<function " ++ f.name ++ ">"
  | raised e => e.kind ++ "(" ++ Text.quoted e.text ++ ")"
  | pattern source => "re.compile(" ++ (Text.quoted source).take 200 ++ ")"
  | override => "OVERRIDE"
  | deepDefault => "DEEP_DEFAULT"
  | pointer p => p.quoted
  | outline o => o.kind.nodeText
  | cache _ => "<Cache>"
  | report r => "ErrorReport(" ++ quoted r.code ++ ", path=" ++ quoted (.list r.path) ++ ")"
  | copy _ e => e.quotedWith quoted

/-- Entities inside the data of a report. -/
@[reducible] def inner : Shown Entity := ⟨quotedWith fun _ => "[...]", quotedWith fun _ => "[...]"⟩

def quoted (e : Entity) : String := e.quotedWith fun v => @Datum.quoted _ inner v

def text : Entity → String
  | raised e => e.text
  | pointer p => p.text
  | copy _ e => e.text
  | e => e.quoted

instance : Shown Entity := ⟨text, quoted⟩

end Entity

end Conform
