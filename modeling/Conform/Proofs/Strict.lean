import Conform.Proofs.Schema.Laws
import Conform.Proofs.Strict.Containers
import Conform.Proofs.Validation.Accepted

/-!
# Validating what was converted

What conversion makes of data is valid without conversion, and is left as it is.
-/

namespace Conform

variable {h : Hooks} {told : Value → Dict → Prop} {f : Frame} {v w : Value} {p : Preferences}

/-! ## Schemas that only convert and check -/

def Content.isScalar : Content → Bool
  | .any | .boolean .. | .number | .string => true
  | _ => false

/-- Scalars with allowed scalars, and arrays and objects without allowed and denied values. The items of an array
have one schema at most, and the keys of an object are distinct. -/
inductive Schema.Direct : Schema → Prop
  | scalar {core : Core} {content : Content} (settings : core.Direct) (type : content.isScalar)
      (literals : ∀ s, core.allowed = some s → ∀ x ∈ s.literalValues, x.isScalar) : Direct (.node core none content)
  | array {core : Core} {items : List Schema} (settings : core.Direct)
      (unlisted : core.allowed = none ∧ core.denied = none) (single : items.length ≤ 1)
      (each : ∀ s ∈ items, Direct s) : Direct (.node core none (.array items))
  | object {core : Core} {keys : Option (List (Value × Schema))} (settings : core.Direct)
      (unlisted : core.allowed = none ∧ core.denied = none)
      (distinct : ∀ ks, keys = some ks → ks.Pairwise fun a b => Datum.sameKey a.1 b.1 = false)
      (each : ∀ ks, keys = some ks → ∀ e ∈ ks, Direct e.2) : Direct (.node core none (.object keys))

namespace Schema

variable {s : Schema}

theorem Direct.settings (direct : s.Direct) : s.core.Direct := by
  cases direct with
  | scalar settings | array settings | object settings => exact settings

theorem leaf_handsOn {core : Core} {content : Content} (type : content.isScalar) (f : Frame) (v : Value) :
    Warns told (fun o => (handed v o).2 = [] → v.isProper →
      ((node core none content).toNode h).HandsOn told f v (handed v o).1)
      (((node core none content).toNode h).base f v) := by
  have leaf : ∀ f v, ((node core none content).toNode h).base f v = liftM (content.leaf f v) := by
    intro f v
    cases content <;> first | rfl | cases type
  have direct : content.isDirect := by
    cases content <;> first | rfl | cases type
  rw [leaf]
  refine .lift fun o checked clear _ => ?_
  obtain ⟨rfl, text, again⟩ := Content.leaf_again direct checked clear
  exact .alone text fun f' _ => leaf f' v ▸ Gives.lift (again f')

theorem Direct.node (direct : s.Direct) (once : RuleEntry.Once s.content.kind s.core.rules)
    (parts : ∀ role t, s.Part role t → (t.eval h).Stable told) : (s.toNode h).Direct told := by
  have kept : ∀ t : Schema, t.Direct → t.strips = false := by
    intro t direct
    rw [strips, direct.settings.noResult]
    rfl
  cases direct with
  | @scalar core content settings type literals =>
      have direct : content.isDirect := by
        cases content <;> first | rfl | cases type
      exact ⟨settings, direct, rfl, once, literals, fun f v _ => leaf_handsOn type f v⟩
  | @array core items settings unlisted single each =>
      have stable : ∀ e ∈ evalEach h items, e.Stable told := by
        intro e member
        obtain ⟨t, below, rfl⟩ := mem_evalEach member
        exact parts (.item 0) t (.item 0 below)
      refine ⟨settings, rfl, rfl, once, fun s same => absurd (unlisted.1.symm.trans same) nofun, fun f v converts => ?_⟩
      refine Items.base_handsOn rfl rfl ?_ stable unlisted converts v
      rw [evalEach_eq, List.length_map]
      exact single
  | @object core keys settings unlisted distinct each =>
      refine ⟨settings, rfl, rfl, once, fun s same => absurd (unlisted.1.symm.trans same) nofun, fun f v converts => ?_⟩
      have declared : ∀ cs, evalKeys h keys = some cs →
          ∃ ks, keys = some ks ∧ cs = ks.map fun e => ⟨e.1, e.2.strips, e.2.eval h⟩ := by
        intro cs same
        cases keys with
        | none => cases same
        | some ks => exact ⟨ks, rfl, (Option.some.inj same).symm.trans (evalKeyList_eq ks)⟩
      refine Keys.base_handsOn rfl rfl (fun cs same => ?_) (fun cs same => ?_) unlisted converts v
      · obtain ⟨ks, rfl, rfl⟩ := declared cs same
        exact List.pairwise_map.mpr (distinct ks rfl)
      · obtain ⟨ks, rfl, rfl⟩ := declared cs same
        exact List.forall_mem_map.mpr fun e member => ⟨kept e.2 (each ks rfl e member), parts _ e.2 (.key member)⟩

/-- What a schema accepts with conversion it accepts again without, wherever it stands. -/
theorem Direct.stable (direct : s.Direct) (once : ∀ t, s.Below t → RuleEntry.Once t.content.kind t.core.rules) :
    (s.eval h).Stable told := by
  induction s using parts_induction with
  | step s ih =>
  rw [eval_eq]
  apply Node.evaluate_stable
  refine direct.node (once s (.self s)) fun role t part => ?_
  refine ih role t part ?_ fun u below => once u (part.below below)
  cases direct with
  | scalar settings type literals => cases part <;> cases type
  | array settings unlisted single each =>
      cases part with
      | item i member => exact each t member
  | object settings unlisted distinct each =>
      cases part with
      | key member => exact each _ rfl _ member

end Schema

/-! ## Two validations -/

namespace Validation

open Run

section

variable {s : Schema} {options strictly : Dict} {warning : Option Warning} {r r' : Run}

/-- A stable schema queues no hook, and where the warnings say what they may it accepts its result again. -/
theorem eval_again (stable : (s.eval h).Stable told) (converts : p.convert) {result : Result}
    (ran : (s.eval h v {} p).exec (fresh r) = (.ok result, r')) : r'.journal.externals = [] ∧
      (result.errors = [] → v.isProper → (∀ u ∈ r'.journal.warnings, u.Tells told) → ∀ r₀, ∃ r₁,
        (s.eval h result.value {} p.strict).exec (fresh r₀) = (.ok ⟨result.value, []⟩, r₁) ∧
          r₁.journal.externals = [] ∧ ∀ u ∈ r₁.journal.warnings, u.Tells told) := by
  obtain ⟨ws, rfl, rests⟩ := stable v {} p converts _ _ _ ran
  refine ⟨rfl, fun clean proper tell r₀ => ?_⟩
  obtain ⟨ws', ran', tell'⟩ := (rests tell clean proper).2 {} (fresh r₀)
  exact ⟨_, ran', rfl, tell'⟩

theorem validate_again (stable : ∀ told, (s.eval h).Stable told) (proper : v.isProper) (converts : p.convert)
    (accepted : chosen options = .ok p) (accepted' : chosen strictly = .ok p.strict)
    (ran : (validate h s v options).exec r = (.ok ⟨w, none, warning⟩, r')) (r₀ : Run) :
    ∃ warning' r₁, (validate h s w strictly).exec r₀ = (.ok ⟨w, none, warning'⟩, r₁) := by
  obtain ⟨evaluated, -, rendered⟩ := (validate_accepts accepted).mp ran
  obtain ⟨-, again⟩ := eval_again (stable fun t ls => Template.isShown t ls) converts evaluated
  obtain ⟨r₁, evaluated', hookless, shown⟩ := again rfl proper (warningOf_isOk.mp ⟨_, rendered⟩) r₀
  obtain ⟨warning', rendered'⟩ := warningOf_isOk.mpr shown
  exact ⟨warning', r₁, (validate_accepts accepted').mpr ⟨evaluated', hookless, rendered'⟩⟩

theorem validateWithHooks_again (stable : ∀ told, (s.eval h).Stable told) (proper : v.isProper) (converts : p.convert)
    (merged : ({} : Preferences).merge options = .ok p) (merged' : ({} : Preferences).merge strictly = .ok p.strict)
    (ran : (validateWithHooks h s v options).exec r = (.ok ⟨w, none, warning⟩, r')) (r₀ : Run) :
    ∃ warning' r₁, (validateWithHooks h s w strictly).exec r₀ = (.ok ⟨w, none, warning'⟩, r₁) := by
  have again := fun result after (evaluated : (s.eval h v {} p).exec (fresh r) = (.ok result, after)) =>
    eval_again (stable fun t ls => p.warnings → Template.isShown t ls) converts evaluated
  obtain ⟨evaluated, answered⟩ := (validateWithHooks_accepts merged fun result after ran => (again _ _ ran).1).mp ran
  have tell : ∀ u ∈ r'.journal.warnings, u.Tells fun t ls => p.warnings → Template.isShown t ls := by
    intro u member asked
    rw [if_pos asked] at answered
    exact warningOf_isOk.mp ⟨_, answered⟩ u member
  obtain ⟨r₁, evaluated', hookless, shown⟩ := (again _ _ evaluated).2 rfl proper tell r₀
  have answers : ∀ warning', (if p.warnings then warningOf r₁.journal.warnings = .ok warning' else warning' = none) →
      (validateWithHooks h s w strictly).exec r₀ = (.ok ⟨w, none, warning'⟩, r₁) := by
    intro warning' answered'
    refine (validateWithHooks_accepts merged' fun result after same => ?_).mpr ⟨evaluated', answered'⟩
    cases evaluated'.symm.trans same
    exact hookless
  by_cases asked : p.warnings
  · obtain ⟨warning', rendered'⟩ := warningOf_isOk.mpr fun u member => shown u member asked
    exact ⟨warning', r₁, answers warning' ((if_pos asked).mpr rendered')⟩
  · exact ⟨none, r₁, answers none ((if_neg asked).mpr rfl)⟩

end

end Validation

/-- A built schema that only converts and checks accepts, without conversion, what it has made with conversion, and
gives it back as it is. So does a validation by it, with hooks or without. -/
theorem converted_rests (h : Hooks) {s : Schema} (built : s.Built) (direct : s.Direct) {v : Value} (proper : v.isProper)
    {p : Preferences} (converts : p.convert) :
    (∀ site r w r', (s.eval h v site p).exec r = (.ok ⟨w, []⟩, r') →
      ∀ site' r₀, ∃ r₁, (s.eval h w site' p.strict).exec r₀ = (.ok ⟨w, []⟩, r₁)) ∧
    ∀ options strictly r w warning r',
      (Validation.chosen options = .ok p → Validation.chosen strictly = .ok p.strict →
        (Validation.validate h s v options).exec r = (.ok ⟨w, none, warning⟩, r') →
        ∀ r₀, ∃ warning' r₁, (Validation.validate h s w strictly).exec r₀ = (.ok ⟨w, none, warning'⟩, r₁)) ∧
      (({} : Preferences).merge options = .ok p → ({} : Preferences).merge strictly = .ok p.strict →
        (Validation.validateWithHooks h s v options).exec r = (.ok ⟨w, none, warning⟩, r') →
        ∀ r₀, ∃ warning' r₁, (Validation.validateWithHooks h s w strictly).exec r₀ = (.ok ⟨w, none, warning'⟩, r₁)) := by
  have stable : ∀ told, (s.eval h).Stable told := fun told =>
    direct.stable fun t below => (built.made t below).1.once
  refine ⟨fun site r w r' ran site' r₀ => ?_, fun options strictly r w warning r' => ⟨?_, ?_⟩⟩
  · obtain ⟨ws, -, rests⟩ := stable (fun _ _ => True) v site p converts _ _ _ ran
    obtain ⟨ws', ran', -⟩ := (rests (fun _ _ => trivial) rfl proper).2 site' r₀
    exact ⟨_, ran'⟩
  · exact fun accepted accepted' ran => Validation.validate_again stable proper converts accepted accepted' ran
  · exact fun merged merged' ran => Validation.validateWithHooks_again stable proper converts merged merged' ran

/-! ## An object of texts, numbers and a truth value -/

def markedName : Schema := .node {
  insensitive := true
  allowed := some { literals := [.literal (.str "N/A")] }
  rules := [{ name := .trim, args := [("enabled", .bool true)] }, { name := .case, args := [("direction", .str "lower")] }]
  } none .string

def atLeastZero : Schema := .node { rules := [{ name := .min, args := [("limit", .int 0)] }] } none .number

def markList : Schema := .node {} none (.array [atLeastZero])

def profile : Schema := .node {} none (.object (some [
  (.str "name", markedName), (.str "marks", markList), (.str "open", .boolean)]))

theorem profile_built : profile.Built := by
  have nameRuns : Script.run [{ name := "string" }, { name := "trim" }, { name := "case", args := [.str "lower"] },
      { name := "insensitive" }, { name := "allow", args := [.str "N/A"] }] = .ok markedName := rfl
  have zeroRuns : Script.run [{ name := "number" }, { name := "min", args := [.int 0] }] = .ok atLeastZero := rfl
  have listRuns : Script.run [{ name := "array" }, { name := "items", args := [.leaf (.schema 0 atLeastZero)] }] =
      .ok markList := rfl
  have openRuns : Script.run [{ name := "boolean" }] = .ok .boolean := rfl
  have runs : Script.run [{ name := "object", args := [.dict [(.str "name", .leaf (.schema 0 markedName)),
      (.str "marks", .leaf (.schema 1 markList)), (.str "open", .leaf (.schema 2 .boolean))]] }] = .ok profile := rfl
  have zero : atLeastZero.Built := .of_run zeroRuns rfl (List.forall_mem_nil _)
  refine .of_run runs rfl ?_
  show ∀ u ∈ [markedName, markList, Schema.boolean], u.Built
  simp only [List.forall_mem_cons]
  exact ⟨.of_run nameRuns rfl (List.forall_mem_nil _), .of_run listRuns rfl (List.forall_mem_singleton.mpr zero),
    .of_run openRuns rfl (List.forall_mem_nil _), List.forall_mem_nil _⟩

theorem profile_direct : profile.Direct := by
  have name : markedName.Direct := by
    refine .scalar (Core.isDirect.direct rfl) rfl ?_
    rintro _ ⟨⟩
    exact List.forall_mem_singleton.mpr rfl
  have marks : markList.Direct := by
    refine .array (Core.isDirect.direct rfl) ⟨rfl, rfl⟩ (Nat.le_refl 1) (List.forall_mem_singleton.mpr ?_)
    exact .scalar (Core.isDirect.direct rfl) rfl nofun
  have opens : Schema.boolean.Direct := .scalar (Core.isDirect.direct rfl) rfl nofun
  refine .object (Core.isDirect.direct rfl) ⟨rfl, rfl⟩ ?_ ?_
  · rintro _ ⟨⟩
    decide
  · rintro _ ⟨⟩
    simp only [List.forall_mem_cons]
    exact ⟨name, marks, opens, List.forall_mem_nil _⟩

def rawProfile : Value :=
  .dict [(.str "name", .str " n/a"), (.str "marks", .list [.str "1", .int 2]), (.str "open", .str "TRUE")]

def tidyProfile : Value :=
  .dict [(.str "name", .str "N/A"), (.str "marks", .list [.int 1, .int 2]), (.str "open", .bool true)]

def isTidy : Except Fault Answer → Bool
  | .ok ⟨.dict [(.str "name", .str "N/A"), (.str "marks", .list [.int 1, .int 2]), (.str "open", .bool true)], none,
      none⟩ => true
  | _ => false

theorem tidy_answer {x : Except Fault Answer × Run} (tidy : isTidy x.1) :
    ∃ r, x = (.ok ⟨tidyProfile, none, none⟩, r) := by
  obtain ⟨o, r⟩ := x
  unfold isTidy at tidy
  split at tidy
  · rename_i same
    obtain rfl := same
    exact ⟨r, rfl⟩
  · cases tidy

/-- A text in another case and with blanks, a spelled number and a spelled truth value are converted, and pass as
converted. -/
theorem profile_rests : profile.Built ∧ profile.Direct ∧
    ((Validation.validate Hooks.idle profile rawProfile []).exec {}).1 = .ok ⟨tidyProfile, none, none⟩ ∧
    ∃ warning, ((Validation.validate Hooks.idle profile tidyProfile [(.str "convert", .bool false)]).exec {}).1 =
      .ok ⟨tidyProfile, none, warning⟩ := by
  have strictly : Validation.chosen [(.str "convert", .bool false)] = .ok ({} : Preferences).strict := by
    have admits : Preferences.Admits (.str "convert", .bool false) := ⟨"convert", .flag, rfl, by decide, rfl, rfl⟩
    rw [Validation.chosen, Preferences.merge_of_admits (List.forall_mem_singleton.mpr admits)]
    rfl
  obtain ⟨r, ran⟩ := tidy_answer (x := (Validation.validate Hooks.idle profile rawProfile []).exec {}) (by
    decide +kernel)
  have rests := (converted_rests Hooks.idle profile_built profile_direct (v := rawProfile) rfl (p := {}) rfl).2 []
    [(.str "convert", .bool false)] {} tidyProfile none r
  obtain ⟨warning, r₁, again⟩ := rests.1 rfl strictly ran {}
  exact ⟨profile_built, profile_direct, congrArg Prod.fst ran, warning, congrArg Prod.fst again⟩

end Conform
