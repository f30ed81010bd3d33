import Conform.Validation.Entry
import Conform.Proofs.Run.Exec

/-!
# The synchronous pass as one evaluation

Validating is an evaluation on a fresh journal between two computations that only read: the check of the
options, and the answer made from the result and the journal.
-/

namespace Conform.Validation

/-- The preferences of a call without hooks. -/
def chosen (options : Dict) : Except Fault Preferences := do
  require (!Datum.hasKey (.str "warnings") options)
    "Cannot override warnings preference in synchronous validation"
  ({} : Preferences).merge options

theorem merge_of_chosen {options : Dict} {p : Preferences} (accepted : chosen options = .ok p) :
    ({} : Preferences).merge options = .ok p := by
  unfold chosen at accepted
  cases required : require (!Datum.hasKey (.str "warnings") options)
      "Cannot override warnings preference in synchronous validation" with
  | error f => simp [required, bind, Except.bind] at accepted
  | ok u => simpa [required, bind, Except.bind] using accepted

def conclude (v : Value) (result : Result) (j : Journal Pending Report) : Except Fault Answer := do
  let failure ← failureOf result.errors v
  require j.externals.isEmpty "Schema with external rules must use validate_async()"
  return ⟨result.value, failure, ← warningOf j.warnings⟩

def fresh (r : Run) : Run := r.onJournal fun _ => {}

variable (h : Hooks) (s : Schema) (v : Value) (options : Dict)

theorem exec_pass (p : Preferences) (r : Run) : (pass h s v p).exec r =
    match (s.eval h v {} p).exec (fresh r) with
    | (.error f, after) => (.error f, after)
    | (.ok result, after) => ((failureOf result.errors v).map fun failure => (result, failure), after) := by
  unfold pass
  rw [Eval.exec_bind, Eval.exec_modify, Eval.andThen_ok, Eval.exec_bind]
  change Eval.andThen _ ((s.eval h v {} p).exec (fresh r)) = _
  rcases (s.eval h v {} p).exec (fresh r) with ⟨f | result, after⟩
  · rfl
  · rw [Eval.andThen_ok, Eval.exec_bind, Eval.exec_lift]
    show _ = ((failureOf result.errors v).map fun failure => (result, failure), after)
    cases failureOf result.errors v <;> rfl

theorem validate_eq : validate h s v options = (do
    let p ← liftM (chosen options)
    modify fresh
    let result ← s.eval h v {} p
    let after ← get
    liftM (conclude v result after.journal)) := by
  unfold validate chosen pass conclude
  simp only [Eval.lift_bind, bind_assoc, pure_bind]
  congr 1; funext _
  congr 1; funext p
  congr 1; funext _
  congr 1; funext result
  -- The failure is made out before the journal is read, which makes no difference.
  cases failureOf result.errors v <;> rfl

theorem exec_validate (r : Run) : (validate h s v options).exec r =
    match chosen options with
    | .error f => (.error f, r)
    | .ok p => match (s.eval h v {} p).exec (fresh r) with
      | (.error f, after) => (.error f, after)
      | (.ok result, after) => (conclude v result after.journal, after) := by
  rw [validate_eq]
  cases chosen options with
  | error f => rfl
  | ok p =>
      simp only
      rw [Eval.lift_ok_bind, Eval.exec_bind, Eval.exec_modify, Eval.andThen_ok, Eval.exec_bind]
      rcases (s.eval h v {} p).exec (fresh r) with ⟨f | result, after⟩
      · rfl
      · rfl

/-- What follows an accepted pass: the hooks on the result, and an answer. -/
def afterwards (p : Preferences) (result : Result) (j : Journal Pending Report) : Eval Answer := do
  let root ← j.externals.foldlM (runHook h) result.value
  if p.warnings then return ⟨root, none, ← warningOf j.warnings⟩ else return ⟨root, none, none⟩

theorem exec_validateWithHooks {p : Preferences} {r after : Run} {result : Result}
    (merged : ({} : Preferences).merge options = .ok p)
    (ran : (s.eval h v {} p).exec (fresh r) = (.ok result, after)) (accepted : result.errors = []) :
    (validateWithHooks h s v options).exec r = (afterwards h p result after.journal).exec after := by
  have failure : failureOf result.errors v = .ok none := by
    rw [accepted]
    rfl
  have passed : (pass h s v p).exec r = (.ok (result, none), after) := by
    unfold pass
    rw [Eval.exec_bind, Eval.exec_modify, Eval.andThen_ok, Eval.exec_bind]
    change Eval.andThen _ ((s.eval h v {} p).exec (fresh r)) = _
    rw [ran, Eval.andThen_ok, failure]
    rfl
  unfold validateWithHooks
  rw [merged, Eval.lift_ok_bind, Eval.exec_bind, passed]
  rfl

end Conform.Validation
