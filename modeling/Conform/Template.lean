import Conform.Datum.Key
import Conform.Fault
import Conform.Text.Blank
import Conform.Text.Digit
import Conform.Text.Word

/-!
# Message templates

A template is text with slots. A slot is a name between double braces; it shows the value of that name
in the context, and nothing where the context lacks it. A few names are constants. A remark in braces
with number signs on the inside is left out, and an opening brace before a percent sign is refused. Text
put into a slot is not read again.
-/

namespace Conform

inductive Piece where
  | text (s : String)
  | slot (name : String)
deriving DecidableEq, Inhabited, Repr

abbrev Template := List Piece

/-! ## The text of a template -/

def openMark : List Char := ['\x7b', '\x7b']

def closeMark : List Char := ['\x7d', '\x7d']

def Piece.source : Piece → String
  | text s => s
  | slot name => String.ofList openMark ++ " " ++ name ++ " " ++ String.ofList closeMark

namespace Template

def source (t : Template) : String := String.join (t.map Piece.source)

/-! ## Reading -/

/-- Every line break becomes a newline. -/
def joinLines : List Char → List Char
  | '\r' :: '\n' :: r => '\n' :: joinLines r
  | '\r' :: r => '\n' :: joinLines r
  | c :: r => c :: joinLines r
  | [] => []

/-- The characters without one newline at the end. -/
def dropLastNewline (cs : List Char) : List Char :=
  if cs.getLast? == some '\n' then cs.dropLast else cs

/-- What stands before a mark that ends with a brace, and what follows it. -/
def upTo? (mark : Char) : List Char → Option (List Char × List Char)
  | [] => none
  | [_] => none
  | c :: d :: r =>
    if c == mark && d == '\x7d' then some ([], r)
    else (upTo? mark (d :: r)).map fun (inside, rest) => (c :: inside, rest)

/-- A word that does not start with a digit is a name, except the one for negation. -/
def isName (s : String) : Bool :=
  match s.toList with
  | [] => false
  | c :: r => Text.isWord c && !Text.isDecimal c && r.all Text.isWord && s != "not"

/-- Adds a character in front of a template. -/
def consChar (c : Char) : Template → Template
  | .text s :: t => .text (c.toString ++ s) :: t
  | t => .text c.toString :: t

/-- Reads at most `fuel` characters and slots. -/
def readPieces : Nat → List Char → Option Template
  | 0, _ => some []
  | _, [] => some []
  | fuel + 1, c :: r =>
    match c, r with
    | '\x7b', '\x7b' :: rest =>
      match upTo? '\x7d' rest with
      | none => none
      | some (inside, rest) =>
        let name := Text.trimBlanks (String.ofList inside)
        if isName name then (readPieces fuel rest).map (Piece.slot name :: ·) else none
    | '\x7b', '#' :: rest =>
      match upTo? '#' rest with
      | none => none
      | some (_, rest) => readPieces fuel rest
    | '\x7b', '%' :: _ => none
    | c, r => (readPieces fuel r).map (consChar c)

/-- Reads a template; a slot must be closed and hold a name. -/
def read (s : String) : Except Fault Template :=
  let cs := dropLastNewline (joinLines s.toList)
  match readPieces cs.length cs with
  | some t => .ok t
  | none => .error .badTemplate

/-! ## Rendering -/

/-- Names that mean the same in every context. -/
def constants : List (String × Value) := [
  ("true", .bool true), ("True", .bool true), ("false", .bool false), ("False", .bool false),
  ("none", .null), ("None", .null), ("self", .str "<TemplateReference None>")]

/-- Names that mean something where the context lacks them. -/
def standing : List (String × Value) := [
  ("range", .str "<class 'range'>"), ("dict", .str "<class 'dict'>")]

def renderPiece (context : Dict) : Piece → String
  | .text s => s
  | .slot name =>
    match constants.lookup name <|> Datum.find? (.str name) context <|> standing.lookup name with
    | some v => v.display
    | none => ""

def render (t : Template) (context : Dict) : String := String.join (t.map (renderPiece context))

/-- Renders the source of a template. The code stands for the name `code` unless the context has one;
every name of the context must be a text. -/
def renderSource (template : Value) (context : Dict) (code : Value) : Except Fault String := do
  let .str source := template | throw (.illTyped "a template must be a text")
  let t ← read source
  if !context.all (fun e => e.1.isText) then throw (.illTyped "keywords must be strings")
  return t.render (Datum.mergeEntries [(.str "code", code)] context)

end Template

end Conform
