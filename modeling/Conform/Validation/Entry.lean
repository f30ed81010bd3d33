import Conform.Validation.Evaluate

/-!
# Validating

`validate` runs the synchronous pass alone: rejected data are an answer, not a fault, and hooks are
refused. `validateWithHooks` runs the queued hooks afterwards, each on what the earlier ones left, and
there rejected data are a fault.
-/

namespace Conform

/-- What a failed validation answers with. -/
inductive Failure where
  | raised (e : Raised)
  | rejected (r : Rejection)

def Failure.toFault : Failure → Fault
  | raised e => .raised e
  | rejected r => .rejected r

/-- Warnings as the caller sees them. -/
structure Warning where
  message : String
  details : List Detail

structure Answer where
  value : Value
  failure : Option Failure := none
  warning : Option Warning := none

namespace Validation

variable (h : Hooks)

/-- The failure that issues amount to: the first exception among them, else all their reports. -/
def failureOf (issues : List Issue) (input : Value) : Except Fault (Option Failure) := do
  if issues.isEmpty then return none
  match issues.findSome? Issue.raised? with
  | some e => return some (.raised e)
  | none =>
    let details ← Issue.details issues
    return some (.rejected ⟨Detail.summary details, details, input⟩)

def warningOf (reports : List Report) : Except Fault (Option Warning) := do
  if reports.isEmpty then return none
  let details ← reports.mapM ReportOf.detail
  return some ⟨Detail.summary details, details⟩

/-- The synchronous pass, on a fresh journal. -/
def pass (s : Schema) (v : Value) (p : Preferences) : Eval (Result × Option Failure) := do
  modify (Run.onJournal fun _ => {})
  let result ← s.eval h v {} p
  return (result, ← failureOf result.errors v)

/-- Validates without hooks. -/
def validate (s : Schema) (v : Value) (options : Dict) : Eval Answer := do
  require (!Datum.hasKey (.str "warnings") options)
    "Cannot override warnings preference in synchronous validation"
  let prefs ← ({} : Preferences).merge options
  let (result, failure) ← pass h s v prefs
  let journal := (← get).journal
  require journal.externals.isEmpty "Schema with external rules must use validate_async()"
  return ⟨result.value, failure, ← warningOf journal.warnings⟩

/-- Puts a value at a key of a container. Lists take integers in their range; a truth value counts as
one. -/
def place (parent key v : Value) : Except Fault Value :=
  match parent with
  | .dict es => .ok (.dict (Datum.insert key v es))
  | .list xs =>
    let index? : Option Int := match key with
      | .int n => some n
      | .bool b => some (if b then 1 else 0)
      | _ => none
    match index? with
    | none => .error (.illTyped "list indices must be integers or slices")
    | some i =>
      let j := if i < 0 then i + xs.length else i
      if 0 ≤ j ∧ j < xs.length then .ok (.list (xs.set j.toNat v))
      else .error (.outOfRange "list assignment index out of range")
  | v => .ok v

/-- The tree with the datum at a path replaced. -/
def replaceAt (root : Value) (path : Path) (v : Value) : Except Fault Value :=
  match path with
  | [] => .ok v
  | [key] => place root key v
  | key :: rest => do
    let child ← replaceAt (← step root key) rest v
    putBack root key child
where
  /-- The parent with a changed child in its place. -/
  putBack (parent key child : Value) : Except Fault Value :=
    match parent with
    | .dict es => .ok (.dict (Datum.insert key child es))
    | .list xs => do
      return .list (match (← index? key) with
        | some i => xs.set (if i < 0 then i + xs.length else i).toNat child
        | none => xs)
    | .tuple xs => do
      return .tuple (match (← index? key) with
        | some i => xs.set (if i < 0 then i + xs.length else i).toNat child
        | none => xs)
    | p => .ok p

def isReplaceable : Value → Bool
  | .dict _ | .list _ => true
  | _ => false

/-- Runs one hook on the node it was queued for. What it gives replaces the node, if its parent is a
dictionary or a list. -/
def runHook (root : Value) (hook : Pending) : Eval Value := do
  let node ← reach root hook.path
  let answer ← tryCatch (h.external hook.fn node) fun fault =>
    let cause := fault.toRaised
    throw (.hook (cause.text ++ " (" ++ hook.label ++ ")") hook.path hook.label cause)
  match answer with
  | none | some .undefined | some .null => return root
  | some v =>
    match hook.path with
    | [] => return v
    | path =>
      let parent ← reach root path.dropLast
      ensure (isReplaceable parent) [.str "Cannot replace external result at", .list path]
      replaceAt root path v

/-- Validates, then runs the queued hooks in order. Warnings are answered where they are asked for. -/
def validateWithHooks (s : Schema) (v : Value) (options : Dict) : Eval Answer := do
  let prefs ← ({} : Preferences).merge options
  let (result, failure) ← pass h s v prefs
  match failure with
  | some f => throw f.toFault
  | none =>
    let journal := (← get).journal
    let root ← journal.externals.foldlM (runHook h) result.value
    if prefs.warnings then return ⟨root, none, ← warningOf journal.warnings⟩
    else return ⟨root, none, none⟩

/-- Whether an answer shows warnings, even if there are none. -/
def showsWarnings (options : Dict) : Bool :=
  (({} : Preferences).merge options).toOption.map Preferences.warnings |>.getD false

end Validation

end Conform
