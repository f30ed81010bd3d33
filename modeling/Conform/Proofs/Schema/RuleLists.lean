import Conform.Proofs.Schema.Laws

/-!
# Rule lists

A rule enters a list with each of its arguments checked or marked, and after that no builder touches the arguments:
they are replaced with the whole entry, amended beside them, or merged into a type that knows the rule as well.
-/

namespace Conform

/-- An entry of a rule with each argument checked, or marked by a reference to a single value. -/
structure RuleEntry.Enters (e : RuleEntry) (spec : RuleSpec) : Prop where
  names : e.args.map Prod.fst = spec.args.map ArgSpec.name
  checked : ∀ a ∈ spec.args, a.name ∉ e.refs.map Prod.fst →
    a.normalize (RuleEntry.arg a.name e.args) = RuleEntry.arg a.name e.args ∧
      a.check (RuleEntry.arg a.name e.args) = .ok true
  marked : ∀ x ∈ e.refs, x.2.spread = false ∧ ∃ a ∈ spec.args, a.name = x.1 ∧ a.admitsRef

/-- Every entry is one of a rule of the type, and what may stand once stands once at most. -/
structure Core.WellRuled (kind : Kind) (core : Core) : Prop where
  entries : ∀ e ∈ core.rules, ∃ spec, kind.rule? e.name = some spec ∧ e.Enters spec
  single : ∀ name spec, kind.rule? name = some spec → spec.multiple = false →
    core.rules.countP (fun e => e.name == name) ≤ 1

/-! ## One entry -/

theorem ArgSpec.normalize_cases (kind : Kind) :
    ∀ spec ∈ kind.rules, ∀ a ∈ spec.args, a.normalize = id ∨ a.normalize = Datum.lengthOfText := by
  cases kind <;>
    simp [Kind.rules, RuleSpec.common, RuleSpec.custom, RuleSpec.warning, RuleSpec.comparisons, RuleSpec.numberLimit,
      RuleSpec.multipleOf, RuleSpec.lengths, RuleSpec.countLimit, RuleSpec.pattern, RuleSpec.trim, RuleSpec.case,
      RuleSpec.limit]

theorem ArgSpec.normalize_again {kind : Kind} {spec : RuleSpec} (listed : spec ∈ kind.rules) {a : ArgSpec}
    (inside : a ∈ spec.args) (v : Value) : a.normalize (a.normalize v) = a.normalize v := by
  rcases ArgSpec.normalize_cases kind spec listed a inside with plain | length
  · rw [plain]
    rfl
  · rw [length]
    cases v <;> rfl

theorem Schema.checkArg_single (rule : RuleName) (a : ArgSpec) (given : List (String × Term)) :
    Delivers (fun p => ∀ x ∈ p.2, x.2.spread = false) (checkArg rule a given) := by
  unfold checkArg
  split
  · refine .ensure fun _ => .ensure fun single => .pure (List.forall_mem_singleton.mpr ?_)
    simpa using single
  · exact (Delivers.any _).bind fun _ _ => .ensure fun _ => .pure (List.forall_mem_nil _)

theorem Schema.ruleEntry_enters {kind : Kind} {name : RuleName} {spec : RuleSpec} (known : kind.rule? name = some spec)
    (given : List (String × Term)) : Delivers (fun e => e.name = name ∧ e.Enters spec) (ruleEntry spec given) := by
  have listed : spec ∈ kind.rules := List.mem_of_find?_eq_some known
  have named : spec.name = name := by simpa using List.find?_some known
  have distinct := RuleSpec.names_distinct kind spec listed
  have each : Delivers (fun checked => List.Forall₂ (Entered · given) spec.args checked ∧
      ∀ p ∈ checked, ∀ x ∈ p.2, x.2.spread = false) (spec.args.mapM fun a => checkArg spec.name a given) := fun checked same =>
    ⟨Delivers.mapM (fun a _ => checkArg_entered spec.name a given) checked same,
      Delivers.mapM_each (fun a _ => checkArg_single spec.name a given) checked same⟩
  refine each.bind fun checked ⟨entered, single⟩ => .pure ⟨named, Entered.names entered, ?_, fun x isRef => ⟨?_, ?_⟩⟩
  · intro a inside unmarked
    rcases Entered.each entered distinct a inside with marked | ⟨passed, is⟩
    · exact absurd marked unmarked
    · refine ⟨?_, passed⟩
      rw [is]
      exact ArgSpec.normalize_again listed inside _
  · obtain ⟨p, among, here⟩ := List.mem_flatMap.mp isRef
    exact single p among x here
  · exact Entered.refs entered x isRef

/-! ## The steps of the builders -/

namespace Core.Made

variable {kind : Kind} {core : Core}

theorem entries (made : core.Made kind) :
    ∀ e ∈ core.rules, ∃ spec, kind.rule? e.name = some spec ∧ e.Enters spec := by
  induction made with
  | bare => exact List.forall_mem_nil _
  | setting _ agrees ih => exact agrees.rules ▸ ih
  | allow _ runs ih => exact (Core.allow_keeps runs).1 ▸ ih
  | deny _ runs ih => exact (Core.deny_keeps runs).1 ▸ ih
  | prefs _ _ _ _ _ ih => exact ih
  | @rule kind c name spec given e _ known _ entry ih =>
      intro d member
      rcases Schema.mem_putRule member with old | rfl
      · exact ih d old
      · obtain ⟨named, enters⟩ := Schema.ruleEntry_enters known given d entry
        exact ⟨spec, named ▸ known, enters⟩
  | @amend kind c r _ last warn message ih =>
      intro d member
      rcases List.mem_append.mp member with before | amended
      · exact ih d (List.mem_of_mem_dropLast before)
      · obtain rfl := List.mem_singleton.mp amended
        obtain ⟨spec, known, enters⟩ := ih r (List.mem_of_getLast? last)
        exact ⟨spec, known, enters.names, enters.checked, enters.marked⟩
  | @merge kind other own source c _ _ fits runs first second =>
      intro d member
      rw [Schema.mergeCore_rules runs] at member
      rcases Schema.mem_mergeRules member with isOwn | isAdded
      · exact first d isOwn
      · obtain ⟨spec, known, enters⟩ := second d isAdded
        rcases fits with rfl | rfl
        · exact ⟨spec, known, enters⟩
        · exact ⟨spec, kind.rule?_of_any known, enters⟩

end Core.Made

theorem RuleEntry.Once.single {kind : Kind} {rules : List RuleEntry} (once : RuleEntry.Once kind rules) {name : RuleName}
    {spec : RuleSpec} (known : kind.rule? name = some spec) (single : spec.multiple = false) :
    rules.countP (fun e => e.name == name) ≤ 1 := by
  induction once with
  | nil => exact Nat.zero_le 1
  | @cons e rules apart _ ih =>
      rw [List.countP_cons]
      by_cases here : e.name = name
      · have none : rules.countP (fun d => d.name == name) = 0 := by
          rw [List.countP_eq_zero]
          intro d member same
          have several : (d.spec kind).multiple := apart d member (here.trans (beq_iff_eq.mp same).symm)
          rw [RuleEntry.spec, beq_iff_eq.mp same, known] at several
          exact Bool.false_ne_true (single.symm.trans several)
        simp [here, none]
      · simpa [here] using ih

/-- Whatever node the builders give, its rule list is well formed: the entries are of rules that its type knows, those
that may not stand twice stand once at most, each argument has passed its check in its normal form unless it is marked,
and what is marked is a reference to a single value where a reference may stand. -/
theorem rule_lists_wellFormed {s t : Schema} (built : s.Built) (below : s.Below t) : t.core.WellRuled t.kind := by
  have made := (built.made t below).1
  exact ⟨made.entries, fun name spec => made.once.single⟩

/-! ## A merge -/

def topReference : Reference := { serial := 1, key := "top", target := .ancestor 1, path := ["top"] }

def lateRule : RuleEntry := { name := .warning, args := [("code", .str "late"), ("local", .null)] }

def late : Schema := .node { rules := [lateRule] } none .any

/-- A number with an upper limit to be resolved, a lower limit that only warns, and the warning of another type. -/
def graded : Schema :=
  .node { rules := [
    { name := .max, args := [("limit", .leaf (.pointer topReference.toPointer))], refs := [("limit", topReference)] },
    { name := .min, args := [("limit", .int 3)], warn := .bool true }, lateRule] } none .number

theorem graded_built : graded.Built := by
  have before : late.Built := by
    have runs : Script.run [{ name := "any" }, { name := "warning", args := [.str "late"] }] = .ok late := rfl
    exact .of_run runs rfl (List.forall_mem_nil _)
  have runs : Script.run [{ name := "number" }, { name := "min", args := [.int 5] },
      { name := "max", args := [.leaf (.reference topReference)] }, { name := "min", args := [.int 3] },
      { name := "warn" }, { name := "concat", args := [.leaf (.schema 1 late)] }] = .ok graded := rfl
  refine .of_run runs rfl ?_
  show ∀ u ∈ [late], u.Built
  exact List.forall_mem_singleton.mpr before

/-- The lower limit that was given first is gone. -/
theorem graded_wellRuled :
    graded.Built ∧ graded.Below graded ∧ graded.core.WellRuled .number ∧
      graded.core.rules.countP (fun e => e.name == .min) = 1 :=
  ⟨graded_built, .self _, rule_lists_wellFormed graded_built (.self _), rfl⟩

end Conform
