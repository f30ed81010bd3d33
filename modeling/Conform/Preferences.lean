import Conform.Catalog

/-!
# Preferences

The options of a validation, and the check of an override before it is merged. Of several mistakes in
one override, the one that lies least deep is reported, and names that are no options come first.
-/

namespace Conform

inductive LabelStyle where
  | path
  | key
deriving DecidableEq, Inhabited, Repr

inductive Presence where
  | optional
  | required
  | forbidden
deriving DecidableEq, Inhabited, Repr

def LabelStyle.name : LabelStyle → String
  | path => "path"
  | key => "key"

namespace Presence

def name : Presence → String
  | optional => "optional"
  | required => "required"
  | forbidden => "forbidden"

def ofName? : String → Option Presence
  | "optional" => some optional
  | "required" => some required
  | "forbidden" => some forbidden
  | _ => none

end Presence

structure Preferences where
  abortEarly : Bool := true
  allowUnknown : Bool := false
  cache : Bool := true
  context : Option Dict := none
  convert : Bool := true
  errorLabel : LabelStyle := .path
  externals : Bool := true
  language : Option String := none
  messages : Dict := []
  noDefaults : Bool := false
  presence : Presence := .optional
  stripUnknown : Bool := false
  warnings : Bool := false

namespace Preferences

instance : Inhabited Preferences := ⟨{}⟩

/-! ## Checking an override -/

/-- The types that an option may require. -/
inductive OptionType where
  | flag
  | choice (names : List String)
  | textOrNull
  | dictOrNull
  | messages

def options : List (String × OptionType) := [
  ("abort_early", .flag),
  ("allow_unknown", .flag),
  ("cache", .flag),
  ("context", .dictOrNull),
  ("convert", .flag),
  ("error_label", .choice ["path", "key"]),
  ("externals", .flag),
  ("language", .textOrNull),
  ("messages", .messages),
  ("no_defaults", .flag),
  ("presence", .choice ["optional", "required", "forbidden"]),
  ("strip_unknown", .flag),
  ("warnings", .flag)]

/-- A mistake: where in the override it lies, and what is wrong there. -/
structure Mistake where
  path : List Value
  text : String

def notOfType (v : Value) (types : List String) : String :=
  v.quoted ++ " is not of type " ++ ", ".intercalate (types.map fun t => Text.quoted t)

/-- The mistakes in the message overrides: an entry is a text, or a dictionary of texts. -/
def messageMistakes (es : Dict) : List Mistake :=
  es.flatMap fun e =>
    match e.2 with
    | .str _ => []
    | .dict inner => (inner.filter fun f => !f.2.isText).map fun f =>
        ⟨[.str "messages", e.1, f.1], notOfType f.2 ["string"]⟩
    | v => [⟨[.str "messages", e.1], v.quoted ++ " is not valid under any of the given schemas"⟩]

/-- The mistakes in the value of one option. -/
def optionMistakes (name : String) (v : Value) : OptionType → List Mistake
  | .flag => if v.isBool then [] else [⟨[.str name], notOfType v ["boolean"]⟩]
  | .choice names =>
    let listed := ", ".intercalate (names.map fun n => Text.quoted n)
    match v with
    | .str s => if s ∈ names then [] else [⟨[.str name], v.quoted ++ " is not one of [" ++ listed ++ "]"⟩]
    | _ => [⟨[.str name], v.quoted ++ " is not one of [" ++ listed ++ "]"⟩]
  | .textOrNull =>
    if v.isText || v.isNull then [] else [⟨[.str name], notOfType v ["string", "null"]⟩]
  | .dictOrNull =>
    if v.isDict || v.isNull then [] else [⟨[.str name], notOfType v ["object", "null"]⟩]
  | .messages =>
    match v with
    | .dict es => messageMistakes es
    | _ => [⟨[.str name], notOfType v ["object"]⟩]

/-- Names that are no options, in the order of their texts. -/
def strangers (o : Dict) : List Value :=
  let names := (o.map Prod.fst).filter fun k =>
    match k with
    | .str s => !(options.any fun p => p.1 == s)
    | _ => true
  names.mergeSort fun a b => a.text ≤ b.text

def strangerMistakes (o : Dict) : List Mistake :=
  match strangers o with
  | [] => []
  | names =>
    let verb := if names.length = 1 then "was" else "were"
    [⟨[], "Additional properties are not allowed (" ++ ", ".intercalate (names.map Datum.quoted)
      ++ " " ++ verb ++ " unexpected)"⟩]

def mistakes (o : Dict) : List Mistake :=
  strangerMistakes o ++ options.flatMap fun (name, type) =>
    match Datum.find? (.str name) o with
    | some v => optionMistakes name v type
    | none => []

/-- The first of the mistakes that lie least deep. -/
def shallowest? (ms : List Mistake) : Option Mistake :=
  ms.foldl (fun best m =>
    match best with
    | none => some m
    | some b => if m.path.length < b.path.length then some m else some b) none

def Mistake.message (m : Mistake) : String :=
  let location := ".".intercalate (m.path.map Datum.text)
  let place := if location = "" then "" else " at '" ++ location ++ "'"
  "Invalid preferences" ++ place ++ ": " ++ m.text

def check (o : Dict) : Except Fault Unit :=
  match shallowest? (mistakes o) with
  | none => .ok ()
  | some m => .error (.contract m.message)

/-! ## Merging -/

/-- Sets one option; names and values that `check` refuses are ignored. -/
def setOption (p : Preferences) (name : String) (v : Value) : Preferences :=
  match name, v with
  | "abort_early", .bool b => { p with abortEarly := b }
  | "allow_unknown", .bool b => { p with allowUnknown := b }
  | "cache", .bool b => { p with cache := b }
  | "context", .dict es => { p with context := some es }
  | "context", .null => { p with context := none }
  | "convert", .bool b => { p with convert := b }
  | "error_label", .str "path" => { p with errorLabel := .path }
  | "error_label", .str "key" => { p with errorLabel := .key }
  | "externals", .bool b => { p with externals := b }
  | "language", .str s => { p with language := some s }
  | "language", .null => { p with language := none }
  | "messages", .dict es => { p with messages := Datum.mergeEntries p.messages es }
  | "no_defaults", .bool b => { p with noDefaults := b }
  | "presence", .str s => { p with presence := (Presence.ofName? s).getD p.presence }
  | "strip_unknown", .bool b => { p with stripUnknown := b }
  | "warnings", .bool b => { p with warnings := b }
  | _, _ => p

def setEntry (p : Preferences) (e : Value × Value) : Preferences :=
  match e.1 with
  | .str name => p.setOption name e.2
  | _ => p

/-- The preferences with an override on top; its messages extend those before. -/
def merge (p : Preferences) (o : Dict) : Except Fault Preferences := do
  if o.isEmpty then return p
  check o
  return o.foldl setEntry p

/-- The preferences for asking only whether a value matches. -/
def forMatching (p : Preferences) : Preferences := { p with abortEarly := true, externals := false }

/-- Every option with its value. -/
def toDict (p : Preferences) : Dict := [
  (.str "abort_early", .bool p.abortEarly),
  (.str "allow_unknown", .bool p.allowUnknown),
  (.str "cache", .bool p.cache),
  (.str "context", (p.context.map Datum.dict).getD .null),
  (.str "convert", .bool p.convert),
  (.str "error_label", .str p.errorLabel.name),
  (.str "externals", .bool p.externals),
  (.str "language", (p.language.map Datum.str).getD .null),
  (.str "messages", .dict p.messages),
  (.str "no_defaults", .bool p.noDefaults),
  (.str "presence", .str p.presence.name),
  (.str "strip_unknown", .bool p.stripUnknown),
  (.str "warnings", .bool p.warnings)]

end Preferences

end Conform
