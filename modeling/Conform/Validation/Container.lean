import Conform.Validation.Node

/-!
# Base checks of containers

An array checks its items in order and drops those that became absent; an object checks its declared
keys in order and then the other keys. A child sees its container as converted so far. Alternatives
take the first attempt that accepts, or dispatch to a branch, or count the attempts that accept.
-/

namespace Conform

/-! ## Arrays -/

namespace Items

/-- The result of the first evaluator that accepts. -/
def firstAccepted (v : Value) (s : Site) (p : Preferences) : List Evaluator → Eval (Option Result)
  | [] => return none
  | e :: es => do
    let r ← e v s p
    if r.errors.isEmpty then return some r else firstAccepted v s p es

/-- The result of one item, or its issues. With a single schema these are its own. -/
def checkItem (schemas : List Evaluator) (f : Frame) (site : Site) (index : Nat) (v : Value) :
    Eval Result := do
  match schemas with
  | [e] => e v site f.prefs
  | es =>
    match ← firstAccepted v site f.prefs es with
    | some r => return r
    | none =>
      return ⟨v, [.report (f.reportAt site "array.includes" v [(.str "pos", .int index)])]⟩

/-- Checks the items after those that are done. -/
def checkFrom (schemas : List Evaluator) (f : Frame) (done : List Value) :
    List Value → List Issue → Eval Outcome
  | [], errors => return ⟨.list (done.filter fun v => !v.isUndefined), errors⟩
  | v :: rest, errors => do
    let whole : Value := .list (done ++ v :: rest)
    let site := f.site.child whole (.int done.length)
    let r ← checkItem schemas f site done.length v
    if r.errors.isEmpty then checkFrom schemas f (done ++ [r.value]) rest errors
    else if f.prefs.abortEarly then return ⟨whole, r.errors⟩
    else checkFrom schemas f (done ++ [v]) rest (errors ++ r.errors)

/-- Without item schemas any list is taken as it is. -/
def base (schemas : List Evaluator) : BaseCheck := fun f v => do
  match v with
  | .list xs => if schemas.isEmpty then return none else return some (← checkFrom schemas f [] xs [])
  | _ => return some (.failed v [f.fail "array.base" []])

end Items

/-! ## Objects -/

/-- A declared key: whether its value is removed, and what checks it. -/
structure KeyCheck where
  key : Value
  strips : Bool
  eval : Evaluator

namespace Keys

/-- The entries after a child has accepted: its value is put in place, or removed. -/
def settle (c : KeyCheck) (item result : Value) (es : Dict) : Dict :=
  if c.strips || (result.isUndefined && !item.isUndefined) then Datum.erase c.key es
  else if result.isUndefined then es
  else Datum.insert c.key result es

/-- Checks the declared keys in order. Stops at the first failure where that is asked for, and then
says so. -/
def checkDeclared (f : Frame) : List KeyCheck → Dict → List Issue → Eval (Dict × List Issue × Bool)
  | [], es, errors => return (es, errors, false)
  | c :: cs, es, errors => do
    let item := (Datum.find? c.key es).getD .undefined
    let r ← c.eval item (f.site.child (.dict es) c.key) f.prefs
    if r.errors.isEmpty then checkDeclared f cs (settle c item r.value es) errors
    else if f.prefs.abortEarly then return (es, r.errors, true)
    else checkDeclared f cs es (errors ++ r.errors)

def isKnown (cs : List KeyCheck) (k : Value) : Bool := cs.any fun c => Datum.sameKey c.key k

/-- The report of a key without a schema. -/
def strangerReport (f : Frame) (es : Dict) (e : Value × Value) : Issue :=
  .report (f.reportAt (f.site.child (.dict es) e.1) "object.unknown" e.2 [(.str "child", e.1)])

/-- Removes, admits or reports the keys without a schema. -/
def checkStrangers (unknown : Option Value) (cs : List KeyCheck) (f : Frame) (es : Dict)
    (errors : List Issue) : Outcome :=
  let admits := match unknown with
    | some v => v.truthy
    | none => f.prefs.allowUnknown
  let marked := (unknown.map Datum.truthy).getD false
  let strangers := es.filter fun e => !isKnown cs e.1
  if f.prefs.stripUnknown && !marked then ⟨.dict (es.filter fun e => isKnown cs e.1), errors⟩
  else if admits then ⟨.dict es, errors⟩
  else
    let reports := strangers.map (strangerReport f es)
    match f.prefs.abortEarly, reports with
    | true, r :: _ => ⟨.dict es, [r]⟩
    | _, rs => ⟨.dict es, errors ++ rs⟩

/-- Without declared keys any dictionary is taken as it is. -/
def base (unknown : Option Value) (keys : Option (List KeyCheck)) : BaseCheck := fun f v => do
  match v, keys with
  | .dict es, some cs =>
    let (es, errors, aborted) ← checkDeclared f cs es []
    if aborted then return some ⟨.dict es, errors⟩
    else return some (checkStrangers unknown cs f es errors)
  | .dict _, none => return none
  | _, _ => return some (.failed v [f.fail "object.base" []])

end Keys

/-! ## Alternatives -/

/-- A branch with its schemas made evaluators. -/
structure BranchCheck where
  test : Evaluator
  onMatch : Option Evaluator
  onMiss : Option Evaluator

inductive AlternativeCheck where
  | attempt (e : Evaluator)
  | conditional (subject : Option Reference) (branches : List BranchCheck)

namespace Alternatives

variable (h : Hooks)

/-! ### Counting -/

/-- The number of entries that accept a value, and the result of the last of them. -/
def count (f : Frame) (v : Value) : List AlternativeCheck → Nat × Value → Eval (Nat × Value)
  | [], acc => return acc
  | .attempt e :: es, acc => do
    let r ← e v f.site f.prefs
    count f v es (if r.errors.isEmpty then (acc.1 + 1, r.value) else acc)
  | .conditional .. :: _, _ => throw (.noMethod "schema")

/-- One match gives its own result, and all together give the value back. -/
def byMode (mode : MatchMode) (es : List AlternativeCheck) (f : Frame) (v : Value) : Eval Outcome := do
  let (hits, matched) ← count f v es (0, .undefined)
  if hits = 0 then return .failed v [f.fail "alternatives.any" []]
  match mode with
  | .one =>
    return if hits = 1 then ⟨matched, []⟩ else .failed v [f.fail "alternatives.one" []]
  | .all =>
    return if hits = es.length then ⟨v, []⟩ else .failed v [f.fail "alternatives.all" []]

/-! ### First match -/

/-- The type in the code of a failed base check: what comes before the first point. -/
def baseType? (code : String) : Option String :=
  if code.toList.dropWhile (· != '.') = ".base".toList then
    some (String.ofList (code.toList.takeWhile (· != '.')))
  else none

/-- The type whose base check failed at the site itself. There, a code must be a text. -/
def failedType? (s : Site) : Issue → Except Fault (Option String)
  | .report r =>
    if r.path.length ≠ s.path.length then .ok none
    else
      match r.code with
      | .str code => .ok (baseType? code)
      | .bytes .. => .error (.illTyped "a bytes-like object is required")
      | _ => .error (.noMethod "partition")
  | .other _ => .ok none

/-- The types whose base checks failed, if the issues are such failures and nothing else. -/
def failedTypes? (s : Site) : List Issue → Except Fault (Option (List String))
  | [] => .ok (some [])
  | i :: is => do
    match ← failedType? s i with
    | none => return none
    | some type => return (← failedTypes? s is).map (type :: ·)

/-- One failure for many: the lone issue itself, the list of types whose base checks failed, or the
details of all. -/
def consolidate (f : Frame) (issues : List Issue) : Except Fault (List Issue) := do
  match issues with
  | [] => return [.report (f.fail "alternatives.any" [])]
  | [i] => return [i]
  | is =>
    match ← failedTypes? f.site is with
    | some types =>
      return [.report (f.fail "alternatives.types" [(.str "types", .list (types.map Datum.str))])]
    | none =>
      let details ← Issue.details is
      return [.report (f.fail "alternatives.match"
        [(.str "message", .str (Detail.summary details)),
          (.str "details", .list (details.map Detail.toValue))])]

/-- The branch that a subject is dispatched to. -/
def choose (f : Frame) (subject : Value) : List BranchCheck → Eval (Option Evaluator)
  | [] => return none
  | b :: bs => do
    let chosen := if ← Node.accepts b.test subject f.site f.prefs then b.onMatch else b.onMiss
    match chosen with
    | some e => return some e
    | none => choose f subject bs

def subjectOf (f : Frame) (v : Value) : Option Reference → Eval Value
  | none => return v
  | some r => Node.resolve h f v r

/-- Tries and dispatches in order; the issues of rejected attempts count only if nothing accepts. -/
def first (f : Frame) (v : Value) : List AlternativeCheck → List Issue → Eval Outcome
  | [], issues => return ⟨v, ← consolidate f issues⟩
  | .attempt e :: es, issues => do
    let r ← e v f.site f.prefs
    if r.errors.isEmpty then return ⟨r.value, []⟩ else first f v es (issues ++ r.errors)
  | .conditional subject bs :: es, issues => do
    let s ← subjectOf h f v subject
    match ← choose f s bs with
    | some e =>
      let r ← e v f.site f.prefs
      return ⟨r.value, r.errors⟩
    | none => first f v es issues

def base (mode : Option MatchMode) (es : List AlternativeCheck) : BaseCheck := fun f v => do
  match mode with
  | some m => return some (← byMode m es f v)
  | none => return some (← first h f v es [])

end Alternatives

end Conform
