import Conform.Schema.Chain

/-!
# Schemas from literals

`compile` turns a term into a schema: a dictionary into an object with those keys, a list into
alternatives, a pattern into a text, and a scalar or a reference into the one value that it is. The
builders that take schemas compile what they are given.
-/

namespace Conform

namespace Schema

/-- Whether a key takes the place of a declared one; NaN differs from every key. -/
def redeclares (key declared : Value) : Bool := Datum.sameKey declared key && !declared.isNan

/-- Declares a child; a key declared again replaces its earlier schema. -/
def declare (key : Value) (child : Schema) (keys : List (Value × Schema)) : List (Value × Schema) :=
  (keys.filter fun e => !redeclares key e.1) ++ [(key, child)]

def requireDefinedKey (key child : Term) : Except Fault Unit :=
  ensure (!Datum.isUndefined child) [.str "Invalid undefined schema for key", Term.toValue key]

def requireDefined (t : Term) : Except Fault Unit :=
  require (!Datum.isUndefined t) "Invalid undefined schema"

mutual

def compile : Term → Except Fault Schema
  | .leaf (.schema _ s) => .ok s
  | .dict es => do return ofContent (.object (some (← compileKeys [] es)))
  | .list xs => do
    require (!xs.isEmpty) "Invalid empty alternatives list"
    return ofContent (.alternatives (← compileEach xs) .isOpen none)
  | .leaf (.entity (.pattern source)) =>
    string.pattern (.leaf (.entity (.pattern source))) .null (.bool false)
  | .null => any.valid [.null]
  | .str s => any.valid [.str s]
  | .int n => any.valid [.int n]
  | .float x => any.valid [.float x]
  | .bool b => any.valid [.bool b]
  | .bytes false d => any.valid [.bytes false d]
  | .date d => any.valid [.date d]
  | .moment m => any.valid [.moment m]
  | .clock c => any.valid [.clock c]
  | .leaf (.reference r) => any.valid [.leaf (.reference r)]
  | t => .error (.contract ("Invalid schema content: " ++ (Term.toValue t).quoted))

/-- The attempts that a list of terms describes. -/
def compileEach : List Term → Except Fault (List Alternative)
  | [] => .ok []
  | t :: ts => do
    requireDefined t
    let s ← compile t
    return .attempt s :: (← compileEach ts)

/-- The children with those of a dictionary declared in order. -/
def compileKeys (keys : List (Value × Schema)) :
    List (Term × Term) → Except Fault (List (Value × Schema))
  | [] => .ok keys
  | (k, t) :: es => do
    requireDefinedKey k t
    let child ← compile t
    compileKeys (declare (Term.toValue k) child keys) es

end

/-- Nothing for the absent value, else the compiled term. -/
def compileOption (t : Term) : Except Fault (Option Schema) :=
  if Datum.isUndefined t then .ok none else (compile t).map some

def empty (s : Schema) (t : Term) : Except Fault Schema := do
  s.withEmpty (← compileOption t)

/-! ## Objects and arrays -/

/-- Declares child keys. Null takes the declaration back; an empty dictionary allows no key. -/
def keys (s : Schema) (t : Term) : Except Fault Schema :=
  match s.content with
  | .object declared =>
    match t with
    | .null => s.withContent (.object none)
    | .dict es => s.withContent? (return .object (some (← compileKeys (declared.getD []) es)))
    | _ => .error (.contract "Object schema must be a valid object")
  | _ => .error (.noMethod "keys")

/-- Declares more child keys, if any are given. -/
def extend (s : Schema) (t : Term) : Except Fault Schema :=
  if Datum.truthy t then s.keys t else .ok s

/-- Adds schemas for items; each item must match one of them. -/
def items (s : Schema) (terms : List Term) : Except Fault Schema :=
  match s.content with
  | .array items => do
    require (!terms.isEmpty) "Missing item schemas"
    s.withContent? (return .array (items ++ (← terms.mapM compile)))
  | _ => .error (.noMethod "items")

/-! ## Alternatives -/

/-- Appends schemas that are tried in order. -/
def attempt (s : Schema) (terms : List Term) : Except Fault Schema := do
  require (!terms.isEmpty) "Missing alternative schemas"
  terms.foldlM (fun s t => do
    requireDefined t
    s.append (.attempt (← compile t))) s

/-- The test of a branch: a compiled term, required unless it is a schema or a reference; without a
term, any value but null, false, zero and the empty text. -/
def branchTest (t : Term) : Except Fault Schema := do
  match t with
  | .undefined => (← any.deny [.null, .bool false, .int 0, .str ""]).required
  | .leaf (.schema ..) => compile t
  | .leaf (.reference _) => compile t
  | t => (← compile t).required

/-- The arguments of a conditional alternative as they are given. -/
structure Condition where
  is : Term := .undefined
  isNot : Term := .undefined
  onMatch : Term := .undefined
  onMiss : Term := .undefined
  switch : Term := .null

/-- The texts in order, joined by commas; other keys cannot be ordered. -/
def strangerText (names : List Term) : Except Fault String := do
  let texts ← names.mapM fun
    | .str s => Except.ok s
    | _ => .error (.illTyped "keys that are no texts")
  return ", ".intercalate (texts.mergeSort fun a b => a ≤ b)

/-- One branch of a switch. Only the last one may say what happens otherwise. -/
def switchBranch (onMiss : Term) (isLast : Bool) (item : Term) : Except Fault Branch := do
  let .dict es := item
    | throw (.contract (Fault.contractText [.str "Invalid switch item:", Term.toValue item]))
  let known : List String := if isLast then ["is", "then", "otherwise"] else ["is", "then"]
  let strangers := (es.map Prod.fst).filter fun k =>
    match k with
    | .str s => !known.contains s
    | _ => true
  if !strangers.isEmpty then
    let text ← strangerText strangers
    throw (.contract ("Switch item contains unknown keys: " ++ text))
  let find := fun (name : String) => (es.find? fun e =>
    match e.1 with
    | .str s => s == name
    | _ => false).map Prod.snd
  let some is := find "is" | throw (.contract "Switch statement missing \"is\"")
  let some onMatch := find "then" | throw (.contract "Switch statement missing \"then\"")
  let own := if isLast then find "otherwise" else none
  if isLast then
    require (Datum.isUndefined onMiss || own.isNone)
      "Cannot specify \"otherwise\" inside and outside a \"switch\""
  let fallback := if isLast then own.getD onMiss else .undefined
  return .mk (← branchTest is) (some (← compile onMatch)) (← compileOption fallback)

def switchBranches (onMiss : Term) : List Term → Except Fault (List Branch)
  | [] => .ok []
  | item :: rest => do
    let b ← switchBranch onMiss rest.isEmpty item
    return b :: (← switchBranches onMiss rest)

/-- A condition on the input itself. -/
def schemaCondition (test : Schema) (c : Condition) : Except Fault Alternative := do
  require (Datum.isUndefined c.is) "\"is\" can not be used with a schema condition"
  require (Datum.isUndefined c.isNot) "\"not\" can not be used with a schema condition"
  require (Datum.isNull c.switch) "\"switch\" can not be used with a schema condition"
  require (!Datum.isUndefined c.onMatch || !Datum.isUndefined c.onMiss)
    "Options must have at least one of \"then\" or \"otherwise\""
  return .conditional none [.mk test (← compileOption c.onMatch) (← compileOption c.onMiss)] false

/-- A condition on the value that a reference finds. -/
def subjectCondition (subject : Reference) (c : Condition) : Except Fault Alternative := do
  require (!subject.spread) "Cannot use in() reference as condition"
  require (Datum.isUndefined c.is || Datum.isUndefined c.isNot) "Cannot combine \"is\" with \"not\""
  if Datum.isNull c.switch then
    let (is, onMatch, onMiss) :=
      if Datum.isUndefined c.isNot then (c.is, c.onMatch, c.onMiss)
      else (c.isNot, c.onMiss, c.onMatch)
    require (!Datum.isUndefined onMatch || !Datum.isUndefined onMiss)
      "Options must have at least one of \"then\", \"otherwise\", or \"switch\""
    let test ← branchTest is
    return .conditional (some subject) [.mk test (← compileOption onMatch) (← compileOption onMiss)]
      false
  else
    let listed := match c.switch with
      | .list xs => xs
      | .tuple xs => xs
      | _ => []
    require (!listed.isEmpty) "\"switch\" must be a non-empty list"
    require (Datum.isUndefined c.is && Datum.isUndefined c.isNot)
      "Cannot combine \"switch\" with \"is\" or \"not\""
    require (Datum.isUndefined c.onMatch) "Cannot combine \"switch\" with \"then\""
    return .conditional (some subject) (← switchBranches c.onMiss listed) true

/-- Appends branches chosen by a referenced value, or by testing the input. -/
def conditional (s : Schema) (condition : Term) (c : Condition) : Except Fault Schema :=
  match s.content with
  | .alternatives _ chain mode => do
    match mode with
    | some m => throw (.contract (Fault.contractText
        [.str "Cannot combine match mode", .str m.name, .str "with conditional rule"]))
    | none => pure ()
    require (chain != .closed) "Unreachable condition"
    let entry ← match condition with
      | .leaf (.schema _ test) => schemaCondition test c
      | .leaf (.reference r) => subjectCondition r c
      | .str key => do subjectCondition (← Reference.ofText key) c
      | t => throw (.contract (Fault.contractText [.str "Invalid condition:", Term.toValue t]))
    s.append entry
  | _ => .error (.noMethod "conditional")

/-! ## Merging -/

/-- The values of one set with those of another added and removed; a set that replaces others is
taken as it is. -/
def mergeSets (target added removed : Option ValueSet) : Except Fault (Option ValueSet) := do
  match added with
  | some a =>
    if a.replaces then return some a
    match target with
    | none => return some a
    | some t => return some ((← t.concat a).merge none removed)
  | none => return target.map fun t => t.merge none removed

/-- The rules of one node followed by those of another, under the specifications of the first. -/
def mergeRules (k : Kind) (own added : List RuleEntry) : List RuleEntry :=
  added.foldl (fun rules e => putRule { (k.rule? e.name).getD { name := e.name } with name := e.name }
    e rules) own

/-- The settings of one node with those of another on top. -/
def mergeCore (k : Kind) (own source : Core) : Except Fault Core := do
  let own ← own.renewed
  let allowed ← mergeSets own.allowed source.allowed source.denied
  let denied ← mergeSets own.denied source.denied source.allowed
  return {
    presence := source.presence <|> own.presence
    default := source.default <|> own.default
    failover := source.failover <|> own.failover
    error := source.error <|> own.error
    label := source.label <|> own.label
    cast := source.cast <|> own.cast
    result := source.result <|> own.result
    only := own.only || source.only
    insensitive := own.insensitive || source.insensitive
    sensitive := own.sensitive || source.sensitive
    unknown := source.unknown <|> own.unknown
    allowed, denied
    rules := mergeRules k own.rules source.rules
    externals := own.externals ++ source.externals
    prefs := match source.prefs with
      | none => own.prefs
      | some [] => own.prefs
      | some p => some (Datum.mergeEntries (own.prefs.getD []) p)
    cache := source.cache <|> own.cache }

/-- The values that both sets of converted values hold. -/
def mergeTerm (own source : Option ValueSet) : Except Fault (Option ValueSet) :=
  match own, source with
  | some a, some b => (a.concat b).map some
  | none, some b => .ok (some b)
  | a, none => .ok a

/-- The content of one node with that of another of its type added. -/
def mergeContent (own source : Content) (chain : ChainState) : Except Fault Content := do
  match own, source with
  | .boolean t f, .boolean t' f' => return .boolean (← mergeTerm t t') (← mergeTerm f f')
  | .array xs, .array ys => return .array (xs ++ ys)
  | .object none, .object ks => return .object ks
  | .object (some ks), .object (some ls) => return .object (some (ks ++ ls))
  | .alternatives es _ mode, .alternatives fs _ mode' =>
    return .alternatives (es ++ fs) chain (mode' <|> mode)
  | .alternatives es _ mode, _ => return .alternatives es chain mode
  | c, _ => return c

/-- The chain state after the entries of another list of alternatives. -/
def chainAfter (own source : Content) : Except Fault ChainState :=
  match own, source with
  | .alternatives _ chain _, .alternatives fs _ _ => fs.foldlM (fun s e => s.advance e.coverage) chain
  | .alternatives _ chain _, _ => .ok chain
  | _, _ => .ok .isOpen

/-- Merges a node of the same type, or one for any value, into a copy; it wins where both say
something. -/
def concat (s : Schema) (t : Term) : Except Fault Schema := do
  let some source := Term.schema? t
    | throw (if s.kind = .alternatives then .noMethod "terms" else .contract "Invalid schema object")
  let chain ← chainAfter s.content source.content
  ensure (s.kind = source.kind || source.kind = .any)
    [.str "Cannot merge type", .str s.kind.name, .str "with another type:", .str source.kind.name]
  let core ← mergeCore s.kind s.core source.core
  let content ← mergeContent s.content source.content chain
  let core ← core.renewed
  match content with
  | .alternatives es _ (some m) => requireAttempts m.name es
  | _ => pure ()
  return node core (source.empty? <|> s.empty?) content

end Schema

end Conform
