import Conform.Validation.Evaluate
import Conform.Proofs.Validation.Settled
import Conform.Proofs.Validation.RuleTests

/-!
# What a node was given

Past its check for emptiness a node goes on with the value that it has by then. What it was given at first is seen by
a function as a test, and comes back in a raw result and in a cache, but no other stage looks at it.
-/

namespace Conform

/-- A frame of the same node that was given another value. -/
def Frame.regiven (f : Frame) (g current : Value) : Frame := { f with given := g, current }

variable {h : Hooks} (f : Frame) (g c : Value)

/-! ## Rules -/

theorem Rule.test_regiven {name : RuleName} (calls : name ≠ .custom) (v : Value) (args : List (String × Value)) :
    Rule.test h name (f.regiven g f.current) v args = Rule.test h name f v args := by
  by_cases warns : name = .warning
  · subst warns
    rfl
  · rw [test_verdict calls warns, test_verdict calls warns]
    cases name <;> rfl

namespace Node

theorem resolveArgs_regiven (v : Value) (spec : RuleSpec) (refs : List (String × Reference))
    (args : List (String × Value)) :
    resolveArgs h (f.regiven g c) v spec refs args = resolveArgs h f v spec refs args := by
  induction refs generalizing args with
  | nil => rfl
  | cons a refs ih =>
      simp only [resolveArgs, ih]
      rfl

theorem reply_regiven {e : RuleEntry} (calls : e.name ≠ .custom) (v : Value) (spec : RuleSpec) :
    reply h (f.regiven g c) v spec e = reply h f v spec e := by
  have tests := fun args => Rule.test_regiven (h := h) { f with current := v } g calls v args
  have moved : { f.regiven g c with current := v } = Frame.regiven { f with current := v } g v := rfl
  simp only [reply, resolveArgs_regiven, moved, tests]

theorem applyRules_regiven {rules : List RuleEntry} (calls : ∀ e ∈ rules, e.name ≠ .custom) (v : Value)
    (errors : List Issue) : applyRules h (f.regiven g c) rules v errors = applyRules h f rules v errors := by
  induction rules generalizing v errors with
  | nil => rfl
  | cons e rules ih =>
      obtain ⟨here, rest⟩ := List.forall_mem_cons.mp calls
      simp only [applyRules, reply_regiven f g c here, ih rest]
      rfl

end Node

/-! ## Containers -/

theorem Items.checkFrom_regiven (schemas : List Evaluator) (done rest : List Value) (errors : List Issue) :
    checkFrom schemas (f.regiven g f.current) done rest errors = checkFrom schemas f done rest errors := by
  induction rest generalizing done errors with
  | nil => rfl
  | cons v rest ih =>
      simp only [checkFrom, ih]
      rfl

theorem Items.base_regiven (schemas : List Evaluator) (v : Value) :
    base schemas (f.regiven g f.current) v = base schemas f v := by
  unfold base
  cases v with
  | list xs =>
      simp only [checkFrom_regiven]
  | _ => rfl

theorem Keys.checkDeclared_regiven (cs : List KeyCheck) (es : Dict) (errors : List Issue) :
    checkDeclared (f.regiven g f.current) cs es errors = checkDeclared f cs es errors := by
  induction cs generalizing es errors with
  | nil => rfl
  | cons c cs ih =>
      simp only [checkDeclared, ih]
      rfl

theorem Keys.base_regiven (unknown : Option Value) (keys : Option (List KeyCheck)) (v : Value) :
    base unknown keys (f.regiven g f.current) v = base unknown keys f v := by
  unfold base
  cases v with
  | dict es =>
      cases keys with
      | none => rfl
      | some cs =>
          simp only [checkDeclared_regiven]
          rfl
  | _ => rfl

namespace Alternatives

theorem count_regiven (v : Value) (es : List AlternativeCheck) (acc : Nat × Value) :
    count (f.regiven g f.current) v es acc = count f v es acc := by
  induction es generalizing acc with
  | nil => rfl
  | cons e es ih =>
      cases e with
      | attempt e =>
          simp only [count, ih]
          rfl
      | conditional subject bs => rfl

theorem choose_regiven (subject : Value) (bs : List BranchCheck) :
    choose (f.regiven g f.current) subject bs = choose f subject bs := by
  induction bs with
  | nil => rfl
  | cons b bs ih =>
      simp only [choose, ih]
      rfl

theorem first_regiven (v : Value) (es : List AlternativeCheck) (issues : List Issue) :
    first h (f.regiven g f.current) v es issues = first h f v es issues := by
  induction es generalizing issues with
  | nil => rfl
  | cons e es ih =>
      cases e with
      | attempt e =>
          simp only [first, ih]
          rfl
      | conditional subject bs =>
          simp only [first, choose_regiven, ih]
          rfl

theorem base_regiven (mode : Option MatchMode) (es : List AlternativeCheck) (v : Value) :
    base h mode es (f.regiven g f.current) v = base h mode es f v := by
  unfold base
  cases mode with
  | none => simp only [first_regiven]
  | some m =>
      simp only [byMode, count_regiven]
      rfl

end Alternatives

theorem Schema.evalContent_regiven (core : Core) (content : Content) (v : Value) :
    evalContent h core content (f.regiven g f.current) v = evalContent h core content f v := by
  cases content with
  | array items => exact Items.base_regiven f g _ v
  | object keys => exact Keys.base_regiven f g _ _ v
  | alternatives es chain mode => exact Alternatives.base_regiven f g mode _ v
  | _ => rfl

/-! ## Nodes -/

namespace Node

/-- What a node does once it has checked for emptiness. -/
def onward (h : Hooks) (n : Node) (f : Frame) (v : Value) : Eval Result := do
  let (v, errors) ← checkPresence h n f v
  let (v, errors) ← failover h n.core f v errors
  let (v, errors) ← fill h n.core f v errors
  let v ← cast n.core f v
  queue n.core f
  deliver n.core f v errors

variable {n : Node} {f}

theorem settled_onward {w : Value} {es : List Issue} (converted : n.convert f f.given = .goOn w es) :
    settled h n f = n.emptied f w >>= onward h n f := by
  unfold settled body
  rw [converted]
  simp only [bind_assoc]
  rfl

/-! ### Without functions as tests, over a base check that does not see what was given -/

variable (f) (calls : ∀ e ∈ n.core.rules, e.name ≠ .custom)
  (base : ∀ f v, n.base (f.regiven g f.current) v = n.base f v)
include calls base

theorem checkBase_regiven (v : Value) (errors : List Issue) :
    checkBase h n (f.regiven g c) v errors = checkBase h n f v errors := by
  have based : n.base { f.regiven g c with current := v } v = n.base { f with current := v } v :=
    base { f with current := v } v
  simp only [checkBase, based, applyRules_regiven f g c calls]

theorem checkPresence_regiven (v : Value) :
    checkPresence h n (f.regiven g c) v = checkPresence h n f v := by
  have checked : ∀ v, check h n (f.regiven g c) v = check h n f v := by
    intro v
    simp only [check, checkBase_regiven f g c calls base]
    rfl
  simp only [checkPresence, checked]
  rfl

/-- A node without functions as tests that gives no raw result goes on in the same way, whatever it was given. -/
theorem onward_regiven (converts : n.core.result ≠ some .raw) (v : Value) :
    onward h n (f.regiven g c) v = onward h n f v := by
  have delivered : ∀ v errors, deliver n.core (f.regiven g c) v errors = deliver n.core f v errors := by
    intro v errors
    unfold deliver
    rcases result : n.core.result with _ | mode
    · rfl
    · cases mode with
      | raw => exact absurd result converts
      | strip => rfl
  simp only [onward, checkPresence_regiven f g c calls base, delivered]
  rfl

end Node

end Conform
