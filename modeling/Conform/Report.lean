import Conform.Preferences

/-!
# Reports

A report is one failed constraint, kept as data until the validation ends. Its context holds the names
its message may use: the local ones, and beside them the label of the node, the value, and the last
segment of the path.
-/

namespace Conform

/-- A path as a text: indexes in brackets, other segments after points. -/
def formatPath (path : Path) : String :=
  path.foldl (fun text segment =>
    match segment with
    | .int n => text ++ "[" ++ toString n ++ "]"
    | s => (if text = "" then text else text ++ ".") ++ s.text) ""

/-- The name of the node at a path, when it has none of its own: its path, or the last segment. -/
def pathLabel (path : Path) (style : LabelStyle) : String :=
  let shown := if style = .key ∧ 1 < path.length then path.drop (path.length - 1) else path
  let text := formatPath shown
  if text = "" then "value" else text

/-- The explicit label, else the one from the path. -/
def nodeLabel (explicit : Option String) (path : Path) (style : LabelStyle) : String :=
  explicit.getD (pathLabel path style)

/-- The report of a failed constraint, with the message that the preferences give its code. -/
def report (label : Option String) (path : Path) (prefs : Preferences) (code : Value)
    (value : Value) (locals : Dict) : Report where
  code := code
  path := path
  value := value
  locals := locals
  label := nodeLabel label path prefs.errorLabel
  template := Catalog.source code ((prefs.language.map Datum.str).getD .null) prefs.messages

namespace ReportOf

/-- Adds an entry unless the key is present. -/
def addDefault (k : String) (v : Value) (es : Dict) : Dict :=
  if Datum.hasKey (.str k) es then es else es ++ [(.str k, v)]

def context (r : Report) : Dict :=
  let es := addDefault "label" (.str r.label) r.locals
  let es := if r.value.isUndefined then es else addDefault "value" r.value es
  match r.path.getLast? with
  | some k => addDefault "key" k es
  | none => es

def message (r : Report) : Except Fault String :=
  Template.renderSource r.template r.context r.code

/-- Gives the report the message of a rule: one text for all codes, or texts by code. -/
def withMessage (m : Value) (r : Report) : Report :=
  match m with
  | .str s => { r with template := .str s }
  | .dict es =>
    match Datum.find? r.code es with
    | some t => { r with template := t }
    | none => r
  | _ => r

def detail (r : Report) : Except Fault Detail := do
  return ⟨← r.message, r.path, r.code, r.context⟩

end ReportOf

namespace Detail

def toValue (d : Detail) : Value := .dict [
  (.str "message", .str d.message),
  (.str "path", .list d.path),
  (.str "type", d.code),
  (.str "context", .dict d.context)]

/-- The messages joined into one. -/
def summary (ds : List Detail) : String := ". ".intercalate (ds.map Detail.message)

end Detail

/-- What a failed validation holds: reports, and what error overrides put in their place. -/
inductive Issue where
  | report (r : Report)
  | other (v : Value)

namespace Issue

def ofValue : Value → Issue
  | .leaf (.report r) => report r
  | v => other v

def toValue : Issue → Value
  | report r => .leaf (.report r)
  | other v => v

def report? : Issue → Option Report
  | report r => some r
  | other _ => none

def raised? : Issue → Option Raised
  | other (.leaf (.raised e)) => some e
  | _ => none

/-- The reports, rendered. -/
def details (issues : List Issue) : Except Fault (List Detail) :=
  (issues.filterMap report?).mapM ReportOf.detail

end Issue

end Conform
