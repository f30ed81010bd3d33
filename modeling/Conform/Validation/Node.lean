import Conform.Validation.Rules

/-!
# The evaluation of one node

A node merges its preferences, asks its cache, converts the value, takes it as absent where it counts
as empty, and applies presence, allowed and denied values, the base check of its type and its rules.
Then it finishes: failover, error override, default, cast, hooks, raw or stripped result, cache.
-/

namespace Conform

/-- The base check of a type; nothing where it leaves the value alone. -/
abbrev BaseCheck := Frame → Value → Eval (Option Outcome)

/-- A node with the schemas below it made evaluators. -/
structure Node where
  core : Core
  content : Content
  cacheable : Bool
  empty : Option Evaluator
  base : BaseCheck

namespace Node

variable (h : Hooks)

/-- Resolves a reference for the value under validation. -/
def resolve (f : Frame) (v : Value) (r : Reference) : Eval Value := do
  r.resolve h.adjust (← get).journal.shadow f.prefs.context v f.site

def find (f : Frame) (insensitive : Bool) (v : Value) (s : ValueSet) : Eval (Option Found) := do
  let shadow := (← get).journal.shadow
  s.lookup (fun r => r.resolve h.adjust shadow f.prefs.context v f.site) insensitive v

/-! ## Finishing -/

/-- The value of a default or failover, `undefined` where there is none. A container that can grow is
copied, and so is the parent that a function takes. A function that raises gives no value and adds an
issue. -/
def fallback (f : Frame) (code : String) (source : Option Fallback) : Eval (Value × List Issue) := do
  if f.prefs.noDefaults then return (.undefined, [])
  match source with
  | none | some .deep => return (.undefined, [])
  | some (.static v) => return (← if v.isMutableContainer then Eval.copy v else pure v, [])
  | some (.ref r) => return (← resolve h f .undefined r, [])
  | some (.call fn) =>
    let arity := (h.signature fn).arity
    let parent ← if 0 < arity then some <$> Eval.copy (f.site.ancestors.head?.getD .undefined) else pure none
    let prefs := if 1 < arity then some f.prefs else none
    try
      return (← h.fallback fn parent prefs, [])
    catch fault =>
      return (.undefined,
        [.report (f.report code .null [(.str "error", .leaf (.raised fault.toRaised))])])

/-- The issues that an error override puts in place of others. -/
def overridden (source : Option ErrorOverride) (errors : List Issue) : Eval (List Issue) := do
  match source with
  | none => return errors
  | some (.raised e) => return [.other (.leaf (.raised e))]
  | some (.call fn) =>
    match ← h.override fn errors with
    | .list xs | .tuple xs => return xs.map Issue.ofValue
    | v => return [.ofValue v]

/-- A failed node may fall back on another value, and then has no errors. -/
def failover (core : Core) (f : Frame) (v : Value) (errors : List Issue) :
    Eval (Value × List Issue) := do
  if errors.isEmpty then return (v, [])
  let (w, more) ← fallback h f "any.failover" core.failover
  if !w.isUndefined then return (w, [])
  return (v, ← overridden h core.error (errors ++ more))

/-- An absent value is filled in. -/
def fill (core : Core) (f : Frame) (v : Value) (errors : List Issue) : Eval (Value × List Issue) := do
  if !v.isUndefined then return (v, errors)
  let (w, more) ← fallback h f "any.default" core.default
  return (w, errors ++ more)

def cast (core : Core) (f : Frame) (v : Value) : Except Fault Value :=
  match core.cast with
  | none => .ok v
  | some c => if v.isUndefined then .ok v else castValue f.kind c v

/-- Queues the hooks of the node. -/
def queue (core : Core) (f : Frame) : Eval Unit :=
  if f.prefs.externals then
    let label := nodeLabel f.label f.site.path f.prefs.errorLabel
    modify (Run.onJournal fun j =>
      core.externals.foldl (fun j fn => j.queue ⟨fn, f.site.path, label⟩) j)
  else pure ()

/-- The result proper: a raw node gives its input and a stripped one nothing, and both leave their
value to references. -/
def deliver (core : Core) (f : Frame) (v : Value) (errors : List Issue) : Eval Result := do
  match core.result with
  | none => return ⟨v, errors⟩
  | some mode =>
    modify (Run.onJournal (Journal.capture f.site.path v))
    return ⟨match mode with | .strip => .undefined | .raw => f.given, errors⟩

def finish (n : Node) (f : Frame) (v : Value) (errors : List Issue) : Eval Result := do
  let (v, errors) ← failover h n.core f v errors
  let (v, errors) ← fill h n.core f v errors
  let v ← cast n.core f v
  queue n.core f
  let result ← deliver n.core f v errors
  match n.core.cache with
  | some store => if f.prefs.cache && n.cacheable then Eval.keep store f.given result
  | none => pure ()
  return result

/-! ## Rules -/

/-- The arguments of a rule with its references resolved, or the report of the first one that finds
no acceptable value. -/
def resolveArgs (f : Frame) (v : Value) (spec : RuleSpec) :
    List (String × Reference) → List (String × Value) → Eval (Except Report (List (String × Value)))
  | [], args => return .ok args
  | (name, r) :: rest, args => do
    let found ← resolve h f v r
    let arg := (spec.args.find? fun a => a.name == name).getD { name := name }
    let value := arg.normalize found
    if ← arg.check value then
      resolveArgs f v spec rest (args.map fun a => if a.1 == name then (name, value) else a)
    else
      return .error (f.report "any.ref" found
        [(.str "arg", .str name), (.str "ref", .leaf (.pointer r.toPointer)),
          (.str "reason", .str arg.complaint)])

/-- The answer of one rule to a value. -/
def reply (f : Frame) (v : Value) (spec : RuleSpec) (e : RuleEntry) : Eval Reply := do
  match ← resolveArgs h f v spec e.refs e.args with
  | .error r => return .reports [r]
  | .ok args => return (← Rule.test h e.name { f with current := v } v args).normal

/-- Applies rules in order. A rule that only warns never fails, and the first failure ends a run that
aborts early. -/
def applyRules (f : Frame) : List RuleEntry → Value → List Issue → Eval (Value × List Issue)
  | [], v, errors => return (v, errors)
  | e :: rest, v, errors => do
    let spec := (f.kind.rule? e.name).getD { name := e.name }
    if spec.byConversion && f.prefs.convert then applyRules f rest v errors
    else
      match ← reply h f v spec e with
      | .value w => applyRules f rest w errors
      | .reports rs =>
        let rs := rs.map (ReportOf.withMessage e.message)
        if e.warn.truthy then
          rs.forM Eval.warn
          applyRules f rest v errors
        else if f.prefs.abortEarly then return (v, rs.map .report)
        else applyRules f rest v (errors ++ rs.map .report)

/-! ## Allowed and denied values -/

/-- What a step decides: to go on with a value and issues, or to finish with them. -/
inductive Verdict where
  | goOn (v : Value) (errors : List Issue)
  | finished (v : Value) (errors : List Issue)

/-- An allowed value ends the checks; where only allowed values may stand, others fail. -/
def checkAllowed (core : Core) (f : Frame) (v : Value) : Eval Verdict := do
  match core.allowed with
  | none => return .goOn v []
  | some s =>
    match ← find h f core.insensitive v s with
    | some found => return .finished (if f.prefs.convert then found.value else v) []
    | none =>
      if core.only then
        let issue := Issue.report (f.report "any.only" v [(.str "valids", .list (s.values true))])
        return if f.prefs.abortEarly then .finished v [issue] else .goOn v [issue]
      else return .goOn v []

def checkDenied (core : Core) (f : Frame) (v : Value) (errors : List Issue) : Eval Verdict := do
  match core.denied with
  | none => return .goOn v errors
  | some s =>
    match ← find h f core.insensitive v s with
    | none => return .goOn v errors
    | some _ =>
      let issue := Issue.report (f.report "any.invalid" v [(.str "invalids", .list (s.values true))])
      return if f.prefs.abortEarly then .finished v [issue] else .goOn v (errors ++ [issue])

/-- The base check and, unless it fails, the rules. -/
def checkBase (n : Node) (f : Frame) (v : Value) (errors : List Issue) : Eval (Value × List Issue) := do
  match ← n.base { f with current := v } v with
  | some ⟨w, e :: es⟩ => return (w, errors ++ e :: es)
  | some ⟨w, []⟩ => applyRules h f n.core.rules w errors
  | none => applyRules h f n.core.rules v errors

/-- The checks of a value that is there. -/
def check (n : Node) (f : Frame) (v : Value) : Eval (Value × List Issue) := do
  match ← checkAllowed h n.core f v with
  | .finished v errors => return (v, errors)
  | .goOn v errors =>
    match ← checkDenied h n.core f v errors with
    | .finished v errors => return (v, errors)
    | .goOn v errors => checkBase h n f v errors

/-! ## Conversion and presence -/

/-- One conversion step, taken where there is a value and the preferences ask for conversion. -/
def convertStep (f : Frame) (step : Value → Option Outcome) (v : Value) : Verdict :=
  if v.isUndefined || !f.prefs.convert then .goOn v []
  else
    match step v with
    | none => .goOn v []
    | some ⟨w, []⟩ => .goOn w []
    | some ⟨w, es⟩ => .finished w es

def convert (n : Node) (f : Frame) (v : Value) : Verdict :=
  match convertStep f (prepare f.kind f) v with
  | .finished v es => .finished v es
  | .goOn v _ => convertStep f (coerce n.core n.content f) v

/-- Whether a value satisfies an evaluator, without a trace. -/
def accepts (e : Evaluator) (v : Value) (s : Site) (p : Preferences) : Eval Bool := do
  let result ← Eval.withoutTrace (e v s p.forMatching)
  return result.errors.isEmpty

/-- A value that the schema for empty values accepts is absent. -/
def emptied (n : Node) (f : Frame) (v : Value) : Eval Value := do
  match n.empty with
  | none => return v
  | some e => return if ← accepts e (trimmed n.core v) f.site {} then .undefined else v

/-- What the node asks of absence; alternatives that dispatch every input leave it to the branches. -/
def presence (n : Node) (f : Frame) : Option Presence :=
  match n.core.presence, n.content with
  | some p, _ => some p
  | none, .alternatives _ .closed _ => none
  | none, _ => some f.prefs.presence

def isDeep : Option Fallback → Bool
  | some .deep => true
  | _ => false

/-- Applies presence, then the checks. An optional node with a deep default starts from an empty
dictionary. -/
def checkPresence (n : Node) (f : Frame) (v : Value) : Eval (Value × List Issue) := do
  if v.isUndefined then
    match n.presence f with
    | some .forbidden => return (v, [])
    | some .required => return (v, [.report (f.report "any.required" v [])])
    | some .optional => if isDeep n.core.default then check h n f (.dict []) else return (v, [])
    | none => check h n f v
  else
    match n.presence f with
    | some .forbidden => return (v, [.report (f.report "any.unknown" v [])])
    | _ => check h n f v

/-- The checks between the look-up in the cache and the finish. -/
def body (n : Node) (f : Frame) : Eval (Value × List Issue) := do
  match n.convert f f.given with
  | .finished v es => return (v, es)
  | .goOn v _ => checkPresence h n f (← emptied n f v)

/-- Evaluates the node. -/
def evaluate (n : Node) : Evaluator := fun v site prefs => do
  let prefs ← match n.core.prefs with
    | some o => prefs.merge o
    | none => pure prefs
  let f : Frame :=
    { kind := n.content.kind, label := n.core.label, site, prefs, given := v, current := v }
  let cached ← match n.core.cache with
    | some store => if prefs.cache then Eval.cached? store v else pure none
    | none => pure none
  match cached with
  | some result => return result
  | none =>
    let (w, errors) ← body h n f
    finish h n f w errors

end Node

end Conform
