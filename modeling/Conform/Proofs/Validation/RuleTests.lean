import Conform.Proofs.Validation.Rules

/-!
# What the tests of rules do

Only two rules do more than judge the value: a function may do anything, and a warning is written down.
The others are a verdict, which depends on the frame through its reports alone.
-/

namespace Conform.Rule

variable {B : Bounds} {ε : Effects} {h : Hooks} {f f' : Frame}

/-- The verdict of a rule that neither calls a function nor warns. -/
def verdict (name : RuleName) (f : Frame) (v : Value) (args : List (String × Value)) :
    Except Fault Reply :=
  let limit := RuleEntry.arg "limit" args
  match name with
  | .custom | .warning => .ok (.value v)
  | .integer => do return if ← isInteger v then .value v else .reports [f.fail "number.integer" []]
  | .multiple => do
    let base := RuleEntry.arg "base" args
    return if ← isMultiple v base then .value v
      else .reports [f.fail "number.multiple" [(.str "multiple", base)]]
  | .pattern => testPattern f v args
  | .trim => testTrim f v args
  | .case => testCase f v args
  | .limit => testLimit f v args
  | .min | .max | .greater | .less | .length => do
    let admits := (comparison? name).getD fun _ => false
    let code := f.kind.name ++ "." ++ name.text
    let holds ← if f.kind = .number then compare admits v limit else compareLength admits v limit
    return limitReply f code v limit holds

/-- What a comparison of the value itself or of its length finds. -/
def measured (kind : Kind) (name : RuleName) (v limit : Value) : Except Fault Bool :=
  let admits := (comparison? name).getD fun _ => false
  if kind = .number then compare admits v limit else compareLength admits v limit

/-- What a function as a test is called for, with what is reported where it raises. -/
def call (h : Hooks) (fn : Fn) (f : Frame) (v : Value) : Eval Reply :=
  tryCatch ((fun w => .value (if w.isNull then v else w)) <$> h.custom fn f v) fun fault =>
    pure (.reports [f.fail "any.custom" [(.str "error", .leaf (.raised fault.toRaised))]])

/-- The report of a rule that only warns. -/
def warningOf (f : Frame) (args : List (String × Value)) : Report :=
  f.reportUnder f.site (RuleEntry.arg "code" args) f.current
    (match RuleEntry.arg "local" args with
    | .dict es => es
    | _ => [])

/-- The function that a rule calls. -/
def method? (args : List (String × Value)) : Option Fn :=
  match RuleEntry.arg "method" args with
  | .leaf (.fn fn) => some fn
  | _ => none

theorem method?_eq_some {args : List (String × Value)} {fn : Fn} (found : method? args = some fn) :
    RuleEntry.arg "method" args = .leaf (.fn fn) := by
  unfold method? at found
  split at found
  · rename_i same
    rw [same, Option.some.inj found]
  · contradiction

theorem test_custom (v : Value) (args : List (String × Value)) :
    test h .custom f v args = match method? args with
      | some fn => call h fn f v
      | none => throw (.illTyped "not a function") := by
  unfold test testCustom
  cases found : method? args with
  | some fn =>
      simp only [method?_eq_some found]
      exact Eval.catch_return _ _ _
  | none =>
      simp only
      split
      · rename_i same
        simp [method?, same] at found
      · rfl

theorem test_warning (v : Value) (args : List (String × Value)) :
    test h .warning f v args = Eval.warn (warningOf f args) >>= fun _ => pure (.value v) := rfl

theorem test_verdict {name : RuleName} (calls : name ≠ .custom) (warns : name ≠ .warning) (v : Value)
    (args : List (String × Value)) : test h name f v args = liftM (verdict name f v args) := by
  cases name with
  | custom => contradiction
  | warning => contradiction
  | min | max | greater | less | length =>
      simp only [test, verdict]
      split
      · cases compare _ v (RuleEntry.arg "limit" args) <;> rfl
      · cases compareLength _ v (RuleEntry.arg "limit" args) <;> rfl
  | integer =>
      simp only [test, verdict]
      cases isInteger v <;> rfl
  | multiple =>
      simp only [test, verdict]
      cases isMultiple v (RuleEntry.arg "base" args) <;> rfl
  | pattern => rfl
  | trim => rfl
  | case => rfl
  | limit => rfl

theorem verdict_measured {name : RuleName} (compares : (comparison? name).isSome) (f : Frame) (v : Value)
    (args : List (String × Value)) : verdict name f v args = do
      let holds ← measured f.kind name v (RuleEntry.arg "limit" args)
      return limitReply f (f.kind.name ++ "." ++ name.text) v (RuleEntry.arg "limit" args) holds := by
  cases name with
  | min | max | greater | less | length => by_cases isNumber : f.kind = .number <;> simp [verdict, measured, isNumber]
  | _ => cases compares

theorem verdict_eq (frames : B.Frames f f') (name : RuleName) (v : Value) (args : List (String × Value)) :
    verdict name f' v args = verdict name f v args := by
  unfold verdict testPattern testTrim testCase testLimit limitReply
  simp only [frames.fail_eq, frames.kind]

theorem warningOf_eq (frames : B.Frames f f') (args : List (String × Value)) :
    warningOf f' args = warningOf f args := by
  unfold warningOf
  rw [frames.current]
  exact frames.reportUnder_eq frames.site.path _ _ _

end Conform.Rule
