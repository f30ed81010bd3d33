import Conform.Proofs.Validation.RuleTests

/-!
# Arguments of rules

The builders check what a rule is given, and what a reference gives is checked again before the test. With
checked arguments, on a value that the base check has let through, the test of a rule has an answer.
-/

namespace Conform

/-- The argument that the test of a rule works with. -/
def RuleName.needs : RuleName → String
  | .multiple => "base"
  | .limit => "n"
  | .pattern => "regex"
  | .warning => "code"
  | _ => "limit"

namespace Rule

/-- Arguments that the test of a rule can work with. -/
def Ready (name : RuleName) (args : List (String × Value)) : Prop :=
  match name with
  | .min | .max | .greater | .less | .length | .limit => (RuleEntry.arg name.needs args).number?.isSome
  | .multiple => Datum.isPositiveNumber (RuleEntry.arg name.needs args) = .ok true
  | .pattern => ∃ source, RuleEntry.arg name.needs args = .leaf (.pattern source) ∧ (Pattern.read? source).isSome
  | .warning => (RuleEntry.arg name.needs args).isText
  | _ => True

/-- An answer that leaves the value alone or reports failures of the node. -/
def Judges (f : Frame) (v : Value) : Reply → Prop
  | .value w => w = v
  | .reports rs => ∀ r ∈ rs, ∃ code locals, r = f.fail code locals ∧ ∀ e ∈ locals, e.1.isText

theorem Judges.failed (f : Frame) (v : Value) (code : String) (locals : Dict)
    (texts : ∀ e ∈ locals, e.1.isText) : Judges f v (.reports [f.fail code locals]) := by
  intro r member
  rw [List.mem_singleton.mp member]
  exact ⟨code, locals, rfl, texts⟩

theorem Judges.choice {f : Frame} {v : Value} {b : Bool} {code : String} {locals : Dict}
    (texts : ∀ e ∈ locals, e.1.isText) :
    Judges f v (if b then .value v else .reports [f.fail code locals]) := by
  cases b with
  | true => rfl
  | false => exact Judges.failed f v code locals texts

end Rule

namespace Datum

theorem isNumber_cases {v : Value} (number : isNumber v = .ok true) :
    (∃ n, v = .int n ∧ (Binary64.ofInt? n).isSome) ∨ ∃ x, v = .float x := by
  unfold isNumber at number
  split at number
  · rename_i n
    refine .inl ⟨n, rfl, ?_⟩
    by_cases fits : (Binary64.ofInt? n).isSome
    · exact fits
    · simp [fits] at number
  · exact .inr ⟨_, rfl⟩
  · cases number

theorem number?_of_isNumber {v : Value} (number : isNumber v = .ok true) : v.number?.isSome := by
  rcases isNumber_cases number with ⟨n, rfl, -⟩ | ⟨x, rfl⟩ <;> rfl

end Datum

namespace Rule

end Rule

/-! ## Arguments on their way to the test -/

namespace Datum

theorem number?_of_isCount {v : Value} (count : v.isCount) : v.number?.isSome := by
  cases v <;> first | rfl | cases count

theorem number?_of_isNonNegative {v : Value} (nonNegative : v.isNonNegative) : v.number?.isSome := by
  cases v <;> first | rfl | cases nonNegative

end Datum

namespace RuleEntry

theorem arg_cons (name k : String) (v : Value) (args : List (String × Value)) :
    arg name ((k, v) :: args) = if k = name then v else arg name args := by
  unfold arg
  rw [List.lookup_cons]
  by_cases same : k = name
  · simp [same]
  · have differs : (name == k) = false := beq_eq_false_iff_ne.mpr (Ne.symm same)
    simp [same, differs]

theorem setArg_cons (name k : String) (w v : Value) (args : List (String × Value)) :
    setArg name w ((k, v) :: args) = (if k = name then (name, w) else (k, v)) :: setArg name w args := by
  simp [setArg]

theorem arg_setArg_self {name : String} {w : Value} {args : List (String × Value)}
    (given : name ∈ args.map Prod.fst) : arg name (setArg name w args) = w := by
  induction args with
  | nil => simp at given
  | cons a args ih =>
      obtain ⟨k, v⟩ := a
      rw [setArg_cons]
      by_cases same : k = name
      · rw [if_pos same, arg_cons, if_pos rfl]
      · rw [if_neg same, arg_cons, if_neg same]
        exact ih (by simpa [Ne.symm same] using given)

theorem arg_setArg_other {name other : String} (different : other ≠ name) (w : Value) (args : List (String × Value)) :
    arg name (setArg other w args) = arg name args := by
  induction args with
  | nil => rfl
  | cons a args ih =>
      obtain ⟨k, v⟩ := a
      rw [setArg_cons, arg_cons]
      by_cases same : k = other
      · rw [if_pos same, arg_cons, if_neg different, if_neg (same ▸ different), ih]
      · rw [if_neg same, arg_cons, ih]

theorem setArg_names (name : String) (w : Value) (args : List (String × Value)) :
    (setArg name w args).map Prod.fst = args.map Prod.fst := by
  induction args with
  | nil => rfl
  | cons a args ih =>
      obtain ⟨k, v⟩ := a
      rw [setArg_cons, List.map_cons, List.map_cons, ih]
      by_cases same : k = name <;> simp [same]

/-- An entry as the builders make it: the type has the rule, and each argument is checked or left to a
reference where one may stand. -/
structure Formed (kind : Kind) (e : RuleEntry) : Prop where
  known : (kind.rule? e.name).isSome
  refs : ∀ a ∈ e.refs, ((e.spec kind).arg a.1).admitsRef ∧ a.1 ∈ e.args.map Prod.fst
  ready : e.name.needs ∈ e.refs.map Prod.fst ∨ Rule.Ready e.name e.args

end RuleEntry

/-- What is checked of an argument is what the test works with. -/
theorem Rule.ready_of_check {kind : Kind} {e : RuleEntry} {args : List (String × Value)} {w : Value}
    (known : (kind.rule? e.name).isSome)
    (readable : e.name = .pattern → ∀ source, w = .leaf (.pattern source) → (Pattern.read? source).isSome)
    (checked : ((e.spec kind).arg e.name.needs).check w = .ok true) (given : RuleEntry.arg e.name.needs args = w) :
    Rule.Ready e.name args := by
  subst given
  unfold RuleEntry.spec at checked
  generalize e.name = name at *
  cases name with
  | pattern =>
      have isPattern : (RuleEntry.arg "regex" args).isPattern := by
        cases kind <;> first
          | (cases known; done)
          | exact Except.ok.inj checked
      cases regex : RuleEntry.arg "regex" args with
      | leaf entity =>
          cases entity with
          | pattern source => exact ⟨source, regex, readable rfl source regex⟩
          | _ => simp [regex, Datum.isPattern] at isPattern
      | _ => simp [regex, Datum.isPattern] at isPattern
  | warning =>
      have text : (RuleEntry.arg "code" args).isText && (RuleEntry.arg "code" args).truthy := by
        cases kind <;> exact Except.ok.inj checked
      exact (Bool.and_eq_true _ _ ▸ text).1
  | _ =>
      cases kind <;> first
        | trivial
        | (cases known; done)
        | exact Datum.number?_of_isNumber checked
        | exact Datum.number?_of_isCount (Except.ok.inj checked)
        | exact Datum.number?_of_isNonNegative (Except.ok.inj checked)

namespace RuleEntry

/-- The arguments of an entry while some references still stand for them. -/
structure Awaits (e : RuleEntry) (refs : List (String × Reference)) (args : List (String × Value)) : Prop where
  left : ∀ a ∈ refs, a ∈ e.refs
  names : args.map Prod.fst = e.args.map Prod.fst
  ready : e.name.needs ∈ refs.map Prod.fst ∨ Rule.Ready e.name args
  given : ∀ name, name ∉ e.refs.map Prod.fst → arg name args = arg name e.args

theorem Formed.awaits {kind : Kind} {e : RuleEntry} (formed : e.Formed kind) : e.Awaits e.refs e.args :=
  ⟨fun _ member => member, rfl, formed.ready, fun _ _ => rfl⟩

theorem ready_congr {name : RuleName} {args args' : List (String × Value)}
    (same : arg name.needs args' = arg name.needs args) (ready : Rule.Ready name args) : Rule.Ready name args' := by
  unfold Rule.Ready at ready ⊢
  simpa only [same] using ready

/-- A reference that has given a checked argument is out of the way. -/
theorem Awaits.resolved {kind : Kind} {e : RuleEntry} (formed : e.Formed kind) {a : String × Reference}
    {rest : List (String × Reference)} {args : List (String × Value)} {w : Value} (awaits : e.Awaits (a :: rest) args)
    (checked : ((e.spec kind).arg a.1).check w = .ok true) : e.Awaits rest (setArg a.1 w args) := by
  obtain ⟨admits, named⟩ := formed.refs a (awaits.left a (by simp))
  have given : ∀ other, other ∉ e.refs.map Prod.fst → arg other (setArg a.1 w args) = arg other e.args := by
    intro other still
    have different : a.1 ≠ other := fun same => still (same ▸ List.mem_map_of_mem (awaits.left a (by simp)))
    exact (arg_setArg_other different w args).trans (awaits.given other still)
  refine ⟨fun b member => awaits.left b (by simp [member]), (setArg_names ..).trans awaits.names, ?_, given⟩
  by_cases needed : a.1 = e.name.needs
  · have other : e.name = .pattern → ∀ source, w = .leaf (.pattern source) → (Pattern.read? source).isSome := by
      intro pattern
      have known := formed.known
      rw [pattern] at known
      rw [needed, spec, pattern] at admits
      cases kind <;> first
        | (cases known; done)
        | cases admits
    refine .inr (Rule.ready_of_check formed.known other (needed ▸ checked) ?_)
    rw [← needed]
    exact arg_setArg_self (awaits.names ▸ named)
  · rcases awaits.ready with later | ready
    · exact .inl (by simpa [Ne.symm needed] using later)
    · exact .inr (ready_congr (arg_setArg_other needed w args) ready)

/-- The names of a warning are given with the rule. -/
theorem Awaits.warned {kind : Kind} {e : RuleEntry} (formed : e.Formed kind) (warns : e.name = .warning)
    {refs : List (String × Reference)} {args : List (String × Value)} (awaits : e.Awaits refs args) :
    arg "local" args = arg "local" e.args := by
  refine awaits.given "local" fun member => ?_
  obtain ⟨a, below, named⟩ := List.mem_map.mp member
  have admits := (formed.refs a below).1
  rw [named, spec, warns] at admits
  cases kind <;> cases admits

end RuleEntry

/-! ## Faults of a check -/

namespace ArgSpec

/-- A check fails on integers too large for a float alone. -/
def Sound (a : ArgSpec) : Prop :=
  ∀ v f, a.check (a.normalize v) = .error f → f = .tooLarge ∧ ∃ n, v = .int n ∧ Binary64.ofInt? n = none

end ArgSpec

end Conform
