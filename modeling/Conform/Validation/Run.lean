import Conform.Cache
import Conform.Journal
import Conform.Report
import Conform.Schema.Rule

/-!
# Runs

The state that a validation works on: its journal, the tables of the result caches, which outlive it,
a log of the calls that functions record, and the number of copies made. `Hooks` says how the functions of a schema behave.
-/

namespace Conform

/-- A queued hook: what runs, for the node at which path, under which name. -/
structure Pending where
  fn : Fn
  path : Path
  label : String

/-- The outcome of one node. It fails if there are issues. -/
structure Result where
  value : Value
  errors : List Issue := []

structure Run where
  journal : Journal Pending Report := {}
  caches : List (Nat × Cache Result) := []
  calls : List (Value × Value) := []
  copies : Nat := 0

instance : Inhabited Run := ⟨{}⟩

/-- A computation on a run; what it did before a fault stays done. -/
abbrev Eval := ExceptT Fault (StateM Run)

/-- What checks a value at a site under preferences. -/
abbrev Evaluator := Value → Site → Preferences → Eval Result

namespace Run

def onJournal (f : Journal Pending Report → Journal Pending Report) (r : Run) : Run :=
  { r with journal := f r.journal }

def cacheOf (slot : CacheSlot) (table : Nat) (r : Run) : Cache Result :=
  (r.caches.lookup table).getD { capacity := slot.capacity }

def putCache (table : Nat) (c : Cache Result) (r : Run) : Run :=
  { r with caches := (table, c) :: r.caches.filter fun e => e.1 != table }

end Run

namespace Eval

def warn (r : Report) : Eval Unit := modify (Run.onJournal (Journal.warn r))

def record (tag v : Value) : Eval Unit := modify fun r => { r with calls := r.calls ++ [(tag, v)] }

/-- A deep copy, told from all copies made before. -/
def copy (v : Value) : Eval Value := do
  let n := (← get).copies
  modify fun r => { r with copies := n + 1 }
  v.copy n

/-- The result kept for a value; finding it counts as a use. -/
def cached? (store : ResultStore) (v : Value) : Eval (Option Result) := do
  let .cache slot := store | throw (.noMethod "get")
  match slot.table with
  | none => return none
  | some t =>
    let (found, c) := ((← get).cacheOf slot t).get v
    modify (Run.putCache t c)
    return found

def keep (store : ResultStore) (v : Value) (result : Result) : Eval Unit := do
  let .cache slot := store | throw (.noMethod "set")
  match slot.table with
  | none => pure ()
  | some t => modify fun r => r.putCache t ((r.cacheOf slot t).set v (some result))

/-- Runs a computation and takes back what it wrote to the journal, also where it fails. -/
def withoutTrace {α : Type} (x : Eval α) : Eval α := ExceptT.mk do
  modify (Run.onJournal Journal.snapshot)
  let outcome ← x.run
  modify (Run.onJournal fun j => j.restore?.getD j)
  return outcome

end Eval

/-- The node being validated, as its tests and functions see it. -/
structure Frame where
  kind : Kind
  label : Option String
  site : Site
  prefs : Preferences
  given : Value
  current : Value

namespace Frame

/-- The report of a failure of the node at another site, under any code. -/
def reportUnder (f : Frame) (site : Site) (code value : Value) (locals : Dict) : Report :=
  Conform.report f.label site.path f.prefs code value locals

/-- The report of a failure of the node at another site. -/
def reportAt (f : Frame) (site : Site) (code : String) (value : Value) (locals : Dict) : Report :=
  f.reportUnder site (.str code) value locals

def report (f : Frame) (code : String) (value : Value) (locals : Dict) : Report :=
  f.reportAt f.site code value locals

/-- The report of a failure of the current value. -/
def fail (f : Frame) (code : String) (locals : Dict) : Report := f.report code f.current locals

end Frame

/-- The positional parameters of a function, each with whether it has a default, and whether it takes
further ones. -/
structure Signature where
  positional : List Bool := []
  variadic : Bool := false

/-- How many of two arguments a function is given: none unless one is required, both if it takes any
number. -/
def Signature.arity (s : Signature) : Nat :=
  if s.positional.all id then 0
  else if s.variadic then 2
  else min s.positional.length 2

/-- How the functions in a schema behave. -/
structure Hooks where
  /-- Changes what a reference found. -/
  adjust : Adjustment
  /-- Tests and converts a value. -/
  custom : Fn → Frame → Value → Eval Value
  signature : Fn → Signature
  /-- Makes a default from as much of the parent and the preferences as the function takes. -/
  fallback : Fn → Option Value → Option Preferences → Eval Value
  /-- Replaces the issues of a failed node. -/
  override : Fn → List Issue → Eval Value
  /-- Runs after validation; nothing stands for the value it was given. -/
  external : Fn → Value → Eval (Option Value)

end Conform
