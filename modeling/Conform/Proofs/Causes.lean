import Conform.Proofs.Schema.Formed
import Conform.Proofs.Schema.Free
import Conform.Proofs.Schema.Nodes
import Conform.Proofs.Messages

/-!
# Causes of faults

What a schema without functions of its caller needs so that its evaluation has an answer, and what else can
keep it from having one: an integer too large for a float, a segment of a reference that looks like an index and
cannot be read, a default that cannot be copied, a store that holds no results, a warning whose names are no
texts, and a report among the data that does not render.
-/

namespace Conform

/-- How a report fails where it is rendered, or where its code is read. -/
def ReportOf.Faults (r : Report) (f : Fault) : Prop :=
  r.message = .error f ∨ ∃ s, Alternatives.failedType? s (.report r) = .error f

namespace Schema

/-- The references of a node itself. -/
def ownRefs (s : Schema) : List Reference := s.core.refs ++ s.content.subjects

end Schema

namespace Schema

end Schema

/-- The data that can come up where a schema without functions is evaluated on given data: these and those of
the schema, what they are made of and what is made of them by copies and conversions. -/
inductive Data (s : Schema) (given : Value → Prop) : Value → Prop
  | given {v : Value} (isGiven : given v) : Data s given v
  | undefined : Data s given .undefined
  | list {xs : List Value} (each : ∀ x ∈ xs, Data s given x) : Data s given (.list xs)
  | tuple {xs : List Value} (each : ∀ x ∈ xs, Data s given x) : Data s given (.tuple xs)
  | dict {es : Dict} (keys : ∀ e ∈ es, Data s given e.1) (values : ∀ e ∈ es, Data s given e.2) : Data s given (.dict es)
  | item {xs : List Value} {x : Value} (whole : Data s given (.list xs)) (member : x ∈ xs) : Data s given x
  | cell {xs : List Value} {x : Value} (whole : Data s given (.tuple xs)) (member : x ∈ xs) : Data s given x
  | key {es : Dict} {e : Value × Value} (whole : Data s given (.dict es)) (member : e ∈ es) : Data s given e.1
  | entry {es : Dict} {e : Value × Value} (whole : Data s given (.dict es)) (member : e ∈ es) : Data s given e.2
  | copied {v w : Value} {n : Nat} (original : Data s given v) (copy : v.copy n = .ok w) : Data s given w
  | literal {t : Schema} {set : ValueSet} {v : Value} (below : s.Below t)
      (is : t.core.allowed = some set ∨ t.core.denied = some set) (member : v ∈ set.literalValues) : Data s given v
  | static {t : Schema} {v : Value} (below : s.Below t)
      (is : t.core.default = some (.static v) ∨ t.core.failover = some (.static v)) : Data s given v
  | mapped {t : Schema} {r : Reference} {pairs : List (Value × Value)} {e : Value × Value} (below : s.Below t)
      (ref : r ∈ t.ownRefs) (table : r.table = some pairs) (member : e ∈ pairs) : Data s given e.2
  | declared {t : Schema} {ks : List (Value × Schema)} {e : Value × Schema} (below : s.Below t)
      (content : t.content = .object (some ks)) (member : e ∈ ks) : Data s given e.1
  | prepared {t : Schema} {f : Frame} {v : Value} {o : Outcome} (below : s.Below t) (from_ : Data s given v)
      (step : prepare t.content.kind f v = some o) : Data s given o.value
  | coerced {t : Schema} {f : Frame} {v : Value} {o : Outcome} (below : s.Below t) (from_ : Data s given v)
      (step : coerce t.core t.content f v = some o) : Data s given o.value
  | trimmed {t : Schema} {v : Value} (below : s.Below t) (from_ : Data s given v) :
      Data s given (Conform.trimmed t.core v)
  | cast {t : Schema} {form : Cast} {v w : Value} (below : s.Below t) (asked : t.core.cast = some form)
      (from_ : Data s given v) (step : castValue t.content.kind form v = .ok w) : Data s given w

/-- What can keep the evaluation of a schema on given data from having an answer. -/
inductive Cause (s : Schema) (given : Value → Prop) : Fault → Prop
  | tooLarge {n : Int} (met : Data s given (.int n)) (large : Binary64.ofInt? n = none) : Cause s given .tooLarge
  | irregular {t : Schema} {r : Reference} {segment : String} {f : Fault} (below : s.Below t) (ref : r ∈ t.ownRefs)
      (member : segment ∈ r.path) (unreadable : index? (.str segment) = .error f) : Cause s given f
  | uncopyable {t : Schema} {v : Value} (below : s.Below t)
      (static : t.core.default = some (.static v) ∨ t.core.failover = some (.static v))
      (holdsCache : v.isCopyable = false) : Cause s given (.illTyped "a result cache cannot be copied")
  | unfit {t : Schema} {text : String} (below : s.Below t) (store : t.core.cache = some .unfit) :
      Cause s given (.noMethod text)
  | keyword {t : Schema} {e : RuleEntry} {es : Dict} (below : s.Below t) (rule : e ∈ t.core.rules)
      (warns : e.name = .warning) (local_ : RuleEntry.arg "local" e.args = .dict es)
      (stranger : ∃ d ∈ es, d.1.isText = false) : Cause s given (.illTyped "keywords must be strings")
  | report {r : Report} {f : Fault} (met : Data s given (.leaf (.report r))) (faults : r.Faults f) : Cause s given f

variable {s : Schema} {given : Value → Prop}

/-- A report that fails for a cause alone. -/
def ReportOf.Sound (s : Schema) (given : Value → Prop) (r : Report) : Prop := ∀ f, r.Faults f → Cause s given f

namespace Bounds

/-- Data that can come up, reports and faults with a cause. -/
def answering (s : Schema) (given : Value → Prop) : Bounds where
  value := Data s given
  key k := k.isHashable
  issue
    | .report r => r.Sound s given
    | .other _ => True
  fault := Cause s given
  prefs p := p.messages = [] ∧ ∀ es, p.context = some es → Data s given (.dict es)
  tables ts ts' := ts = ts' ∧ Run.Kept (fun _ _ result => Data s given result.value ∧
    ∀ r, Issue.report r ∈ result.errors → r.Sound s given) ts
  samePlace := True
  sameCopies := True

end Bounds

end Conform
