import Conform.Proofs.Run.Growth
import Conform.Proofs.Schema.Free

/-!
# Evaluations that only grow

An evaluation only adds to its run as long as the functions that it calls do, and it captures values at the
places of raw and stripped nodes alone. A probe marks the journal, evaluates a schema and goes back to the
mark, so it leaves the journal as it was, however many probes the schema makes itself.
-/

namespace Conform

/-- The functions of a node only add to the run that they are called in. -/
structure Core.CallsGrow (K : Path → Prop) (h : Hooks) (core : Core) : Prop where
  custom : (∃ e ∈ core.rules, e.name = .custom) → ∀ fn f v, Grows K (h.custom fn f v)
  fallback : ∀ fn, core.default = some (.call fn) ∨ core.failover = some (.call fn) →
    ∀ parent prefs, Grows K (h.fallback fn parent prefs)
  error : ∀ fn, core.error = some (.call fn) → ∀ errors, Grows K (h.override fn errors)

theorem Core.CallsGrow.mono {K L : Path → Prop} {h : Hooks} {core : Core} (calls : core.CallsGrow K h)
    (fewer : ∀ x, L x → K x) : core.CallsGrow L h where
  custom some fn f v := (calls.custom some fn f v).mono fewer
  fallback fn call parent prefs := (calls.fallback fn call parent prefs).mono fewer
  error fn call errors := (calls.error fn call errors).mono fewer

/-- An evaluator that only adds to its run. -/
def Evaluator.Grows (e : Evaluator) : Prop := ∀ v s p, Conform.Grows freely (e v s p)

/-- An evaluator that only adds to its run and captures nothing at the paths in `K`, where its site does not lead
there or it has no raw or stripped nodes. -/
def Evaluator.Keeps (K : Path → Prop) (marked : Prop) (e : Evaluator) : Prop :=
  ∀ v s p, (marked → SparesBelow K s.path) → Conform.Grows K (e v s p)

theorem Evaluator.Keeps.grows {marked : Prop} {e : Evaluator} (keeps : e.Keeps freely marked) : e.Grows :=
  fun v s p => keeps v s p fun _ => spares_freely s.path

theorem Evaluator.Grows.keeps {marked : Prop} {e : Evaluator} (grows : e.Grows) : e.Keeps freely marked :=
  fun v s p _ => grows v s p

variable {K : Path → Prop} {marked : Prop} {h : Hooks} {f : Frame} {core : Core}

namespace Eval

theorem warn_grows (r : Report) : Grows K (warn r) :=
  Grows.modify fun _ => ⟨List.prefix_refl _, List.prefix_append _ _, rfl, Nat.le_refl _, fun _ _ => rfl⟩

theorem copy_grows (v : Value) : Grows K (copy v) := by
  intro r
  have ran : (copy v).exec r = (v.copy r.copies, { r with copies := r.copies + 1 }) := by
    simp [copy, exec_bind]
  rw [ran]
  exact ⟨List.prefix_refl _, List.prefix_refl _, rfl, Nat.le_succ _, fun _ _ => rfl⟩

end Eval

namespace Node

/-! ## References, defaults and the finish -/

theorem resolve_grows (v : Value) (r : Reference) : Grows K (resolve h f v r) :=
  Grows.get.bind fun _ => Grows.lift _

theorem find_grows (insensitive : Bool) (v : Value) (s : ValueSet) : Grows K (find h f insensitive v s) :=
  Grows.get.bind fun _ => Grows.lift _

theorem fallback_grows {code : String} {s : Option Fallback}
    (calls : ∀ fn, s = some (.call fn) → ∀ parent prefs, Grows K (h.fallback fn parent prefs)) :
    Grows K (fallback h f code s) := by
  rw [fallback_eq]
  split
  · exact Grows.pure _
  · rcases s with _ | v | r | fn | _
    · exact Grows.pure _
    · refine Grows.bind ?_ fun _ => Grows.pure _
      split
      · exact Eval.copy_grows v
      · exact Grows.pure v
    · exact (resolve_grows _ r).bind fun _ => Grows.pure _
    · refine Grows.bind ?_ fun parent => ?_
      · split
        · exact (Eval.copy_grows _).map
        · exact Grows.pure none
      · exact Grows.tryCatch (calls fn rfl _ _).map fun _ => Grows.pure _
    · exact Grows.pure _

theorem overridden_grows {s : Option ErrorOverride} {errors : List Issue}
    (calls : ∀ fn, s = some (.call fn) → ∀ errors, Grows K (h.override fn errors)) :
    Grows K (overridden h s errors) := by
  rcases s with _ | e | fn
  · exact Grows.pure _
  · exact Grows.pure _
  · refine (calls fn rfl errors).bind fun v => ?_
    cases v <;> exact Grows.pure _

theorem failover_grows (calls : core.CallsGrow K h) (v : Value) (errors : List Issue) :
    Grows K (failover h core f v errors) := by
  unfold failover
  split
  · exact Grows.pure _
  · refine (fallback_grows fun fn same => calls.fallback fn (.inr same)).bind fun found => ?_
    simp only
    split
    · exact Grows.pure _
    · exact (overridden_grows calls.error).bind fun _ => Grows.pure _

theorem fill_grows (calls : core.CallsGrow K h) (v : Value) (errors : List Issue) :
    Grows K (fill h core f v errors) := by
  unfold fill
  split
  · exact Grows.pure _
  · exact (fallback_grows fun fn same => calls.fallback fn (.inl same)).bind fun _ => Grows.pure _

theorem queue_grows : Grows K (queue core f) := by
  have queued : ∀ (fns : List Fn) (label : String) (j : Journal Pending Report),
      j.externals <+: (fns.foldl (fun j fn => j.queue ⟨fn, f.site.path, label⟩) j).externals ∧
      (fns.foldl (fun j fn => j.queue ⟨fn, f.site.path, label⟩) j).warnings = j.warnings ∧
      (fns.foldl (fun j fn => j.queue ⟨fn, f.site.path, label⟩) j).marks = j.marks ∧
      (fns.foldl (fun j fn => j.queue ⟨fn, f.site.path, label⟩) j).shadow = j.shadow := by
    intro fns label
    induction fns with
    | nil => exact fun j => ⟨List.prefix_refl _, rfl, rfl, rfl⟩
    | cons fn fns ih =>
        intro j
        obtain ⟨hooks, others⟩ := ih (j.queue ⟨fn, f.site.path, label⟩)
        exact ⟨(List.prefix_append _ _).trans hooks, others⟩
  unfold queue
  split
  · refine Grows.modify fun r => ?_
    obtain ⟨hooks, warnings, marks, shadow⟩ := queued core.externals
      (nodeLabel f.label f.site.path f.prefs.errorLabel) r.journal
    refine ⟨hooks, ?_, marks, Nat.le_refl _, fun x _ => ?_⟩
    · exact ⟨[], by rw [Run.journal_onJournal, warnings, List.append_nil]⟩
    · rw [Run.captured, Run.captured, Run.journal_onJournal, shadow]
  · exact Grows.pure _

theorem deliver_grows (marks : core.result.isSome → Spares K f.site.path) (v : Value) (errors : List Issue) :
    Grows K (deliver core f v errors) := by
  unfold deliver
  cases result : core.result with
  | none => exact Grows.pure _
  | some mode =>
      have spares := marks (by simp [result])
      exact (Grows.modify fun r => spares.capture v r).bind fun _ => Grows.pure _

/-! ## Rules -/

theorem resolveArgs_grows (v : Value) (spec : RuleSpec) (refs : List (String × Reference))
    (args : List (String × Value)) : Grows K (resolveArgs h f v spec refs args) := by
  induction refs generalizing args with
  | nil => exact Grows.pure _
  | cons a rest ih =>
      refine (resolve_grows v a.2).bind fun found => ?_
      refine (Grows.lift _).bind fun accepted => ?_
      split
      · exact ih _
      · exact Grows.pure _

theorem test_grows (name : RuleName) (calls : name = .custom → ∀ fn f v, Grows K (h.custom fn f v)) (v : Value)
    (args : List (String × Value)) : Grows K (Rule.test h name f v args) := by
  by_cases custom : name = .custom
  · rw [custom, Rule.test_custom]
    cases Rule.method? args with
    | none => exact Grows.throw _
    | some fn => exact Grows.tryCatch (calls custom fn f v).map fun _ => Grows.pure _
  · by_cases warning : name = .warning
    · rw [warning, Rule.test_warning]
      exact (Eval.warn_grows _).bind fun _ => Grows.pure _
    · rw [Rule.test_verdict custom warning]
      exact Grows.lift _

theorem warnAll_grows (rs : List Report) : Grows K (rs.forM Eval.warn) := by
  induction rs with
  | nil => exact Grows.pure _
  | cons r rs ih => exact (Eval.warn_grows r).bind fun _ => ih

theorem applyRules_grows {rules : List RuleEntry}
    (calls : (∃ e ∈ rules, e.name = .custom) → ∀ fn f v, Grows K (h.custom fn f v)) (v : Value)
    (errors : List Issue) : Grows K (applyRules h f rules v errors) := by
  induction rules generalizing v errors with
  | nil => exact Grows.pure _
  | cons e rest ih =>
      have others := ih fun ⟨q, member, custom⟩ => calls ⟨q, by simp [member], custom⟩
      have replied : ∀ v spec, Grows K (reply h f v spec e) := by
        intro v spec
        refine (resolveArgs_grows v spec _ _).bind fun o => ?_
        cases o with
        | error r => exact Grows.pure _
        | ok args =>
            exact (test_grows e.name (fun custom => calls ⟨e, by simp, custom⟩) v args).bind fun _ => Grows.pure _
      rw [applyRules]
      simp only
      split
      · exact others _ _
      · refine (replied v _).bind fun answer => ?_
        cases answer with
        | value w => exact others _ _
        | reports rs =>
            simp only
            split
            · exact (warnAll_grows _).bind fun _ => others _ _
            · split
              · exact Grows.pure _
              · exact others _ _

/-! ## Checks -/

theorem checkAllowed_grows (v : Value) : Grows K (checkAllowed h core f v) := by
  unfold checkAllowed
  cases core.allowed with
  | none => exact Grows.pure _
  | some s =>
      refine (find_grows _ v s).bind fun o => ?_
      cases o with
      | some x => exact Grows.pure _
      | none =>
          simp only
          split <;> exact Grows.pure _

theorem checkDenied_grows (v : Value) (errors : List Issue) : Grows K (checkDenied h core f v errors) := by
  unfold checkDenied
  cases core.denied with
  | none => exact Grows.pure _
  | some s =>
      refine (find_grows _ v s).bind fun o => ?_
      cases o <;> exact Grows.pure _

theorem accepts_traceless {e : Evaluator} (grows : e.Grows) (v : Value) (s : Site) (p : Preferences) (r : Run) :
    ((accepts e v s p).exec r).2.journal = r.journal := by
  have traceless := (grows v s p.forMatching).traceless r
  unfold accepts
  rw [Eval.exec_bind]
  rcases ran : (Eval.withoutTrace (e v s p.forMatching)).exec r with ⟨_ | result, after⟩
  all_goals
    rw [ran] at traceless
    exact traceless

theorem accepts_grows {e : Evaluator} (grows : e.Grows) (v : Value) (s : Site) (p : Preferences) :
    Grows K (accepts e v s p) := (grows v s p.forMatching).withoutTrace.bind fun _ => Grows.pure _

variable {n : Node}

/-- A node whose functions, base check and further schemas only add to the run. -/
structure Keeps (K : Path → Prop) (marked : Prop) (h : Hooks) (n : Node) : Prop where
  calls : n.core.CallsGrow K h
  marks : n.core.result.isSome → marked
  empty : ∀ e, n.empty = some e → e.Grows
  base : ∀ f v, (marked → SparesBelow K f.site.path) → Grows K (n.base f v)

theorem emptied_grows (empty : ∀ e, n.empty = some e → e.Grows) (v : Value) : Grows K (emptied n f v) := by
  unfold emptied
  cases given : n.empty with
  | none => exact Grows.pure _
  | some e => exact (accepts_grows (empty e given) _ _ _).bind fun _ => Grows.pure _

/-- What a node makes of the outcome of its base check. -/
def judged (h : Hooks) (core : Core) (f : Frame) (v : Value) (errors : List Issue) :
    Option Outcome → Eval (Value × List Issue)
  | some ⟨w, e :: es⟩ => pure (w, errors ++ e :: es)
  | some ⟨w, []⟩ => applyRules h f core.rules w errors
  | none => applyRules h f core.rules v errors

theorem checkBase_eq (v : Value) (errors : List Issue) :
    checkBase h n f v errors = n.base { f with current := v } v >>= judged h n.core f v errors := rfl

theorem judged_grows (calls : core.CallsGrow K h) (v : Value) (errors : List Issue) (o : Option Outcome) :
    Grows K (judged h core f v errors o) := by
  rcases o with _ | ⟨w, _ | ⟨e, es⟩⟩
  · exact applyRules_grows calls.custom _ _
  · exact applyRules_grows calls.custom _ _
  · exact Grows.pure _

theorem checkBase_grows (keeps : n.Keeps K marked h) (spares : marked → SparesBelow K f.site.path) (v : Value)
    (errors : List Issue) : Grows K (checkBase h n f v errors) := by
  rw [checkBase_eq]
  exact (keeps.base { f with current := v } v spares).bind fun o => judged_grows keeps.calls v errors o

theorem check_grows (keeps : n.Keeps K marked h) (spares : marked → SparesBelow K f.site.path) (v : Value) :
    Grows K (check h n f v) := by
  unfold check
  refine (checkAllowed_grows v).bind fun verdict => ?_
  cases verdict with
  | finished w errors => exact Grows.pure _
  | goOn w errors =>
      refine (checkDenied_grows w errors).bind fun verdict => ?_
      cases verdict with
      | finished u errors => exact Grows.pure _
      | goOn u errors => exact checkBase_grows keeps spares u errors

theorem body_grows (keeps : n.Keeps K marked h) (spares : marked → SparesBelow K f.site.path) :
    Grows K (body h n f) := by
  unfold body
  cases n.convert f f.given with
  | finished v es => exact Grows.pure _
  | goOn v es =>
      refine (emptied_grows keeps.empty v).bind fun w => ?_
      unfold checkPresence
      split
      · split
        · exact Grows.pure _
        · exact Grows.pure _
        · split
          · exact check_grows keeps spares _
          · exact Grows.pure _
        · exact check_grows keeps spares w
      · split
        · exact Grows.pure _
        · exact check_grows keeps spares w

/-- What a node does with the value and the issues of its body. -/
def finishing (h : Hooks) (core : Core) (f : Frame) (v : Value) (errors : List Issue) : Eval Result := do
  let (v, errors) ← failover h core f v errors
  let (v, errors) ← fill h core f v errors
  let v ← cast core f v
  queue core f
  deliver core f v errors

theorem settled_eq : settled h n f = body h n f >>= fun s => finishing h n.core f s.1 s.2 := rfl

theorem finishing_grows (calls : core.CallsGrow K h) (marks : core.result.isSome → Spares K f.site.path) (v : Value)
    (errors : List Issue) : Grows K (finishing h core f v errors) := by
  refine (failover_grows calls v errors).bind fun s => ?_
  refine (fill_grows calls s.1 s.2).bind fun s => ?_
  refine (Grows.lift _).bind fun v => ?_
  exact queue_grows.bind fun _ => deliver_grows marks v s.2

theorem settled_grows (keeps : n.Keeps K marked h) (spares : marked → SparesBelow K f.site.path) :
    Grows K (settled h n f) := by
  rw [settled_eq]
  exact (body_grows keeps spares).bind fun s =>
    finishing_grows keeps.calls (fun result => (spares (keeps.marks result)).here) s.1 s.2

theorem putCache_extends (t : Nat) (c : Cache Result) (r : Run) : r.Extends K (r.putCache t c) :=
  ⟨List.prefix_refl _, List.prefix_refl _, rfl, Nat.le_refl _, fun _ _ => rfl⟩

theorem consult_grows : Grows K (n.consult f) := by
  unfold consult
  rcases n.core.cache with _ | ⟨slot⟩ | _
  · exact Grows.pure _
  · simp only
    split
    · intro r
      rw [Eval.exec_cached?]
      cases slot.table with
      | none => exact .refl r
      | some t => exact putCache_extends _ _ r
    · exact Grows.pure _
  · simp only
    split
    · exact Grows.throw _
    · exact Grows.pure _

theorem retain_grows (result : Result) : Grows K (n.retain f result) := by
  unfold retain
  rcases n.core.cache with _ | ⟨slot⟩ | _
  · exact Grows.pure _
  · simp only
    split
    · intro r
      rw [Eval.exec_keep]
      cases slot.table with
      | none => exact .refl r
      | some t => exact putCache_extends _ _ r
    · exact Grows.pure _
  · simp only
    split
    · exact Grows.throw _
    · exact Grows.pure _

theorem through_grows {x : Eval Result} (grows : Grows K x) : Grows K (n.through f x) := by
  refine consult_grows.bind fun o => ?_
  cases o with
  | some r => exact Grows.pure _
  | none => exact grows.bind fun r => (retain_grows r).bind fun _ => Grows.pure _

theorem evaluate_keeps (keeps : n.Keeps K marked h) : Evaluator.Keeps K marked (n.evaluate h) := by
  intro v s p spares
  rw [evaluate_eq]
  exact (Grows.lift _).bind fun q => through_grows (settled_grows keeps spares)

end Node

/-! ## Containers -/

namespace Items

variable {es : List Evaluator}

theorem firstAccepted_grows (each : ∀ e ∈ es, e.Keeps K marked) (v : Value) {s : Site}
    (spares : marked → SparesBelow K s.path) (p : Preferences) : Grows K (firstAccepted v s p es) := by
  induction es with
  | nil => exact Grows.pure _
  | cons e es ih =>
      refine (each e (by simp) v s p spares).bind fun r => ?_
      split
      · exact Grows.pure _
      · exact ih fun d member => each d (by simp [member])

theorem checkItem_grows (each : ∀ e ∈ es, e.Keeps K marked) {s : Site} (spares : marked → SparesBelow K s.path)
    (i : Nat) (v : Value) : Grows K (checkItem es f s i v) := by
  unfold checkItem
  split
  · rename_i e
    exact each e (by simp) v s f.prefs spares
  · refine (firstAccepted_grows each v spares f.prefs).bind fun o => ?_
    cases o <;> exact Grows.pure _

theorem checkFrom_grows (each : ∀ e ∈ es, e.Keeps K marked) (spares : marked → SparesBelow K f.site.path)
    (done xs : List Value) (errors : List Issue) : Grows K (checkFrom es f done xs errors) := by
  induction xs generalizing done errors with
  | nil => exact Grows.pure _
  | cons v rest ih =>
      refine (checkItem_grows each (fun some => (spares some).child _) _ v).bind fun r => ?_
      split
      · exact ih _ _
      · split
        · exact Grows.pure _
        · exact ih _ _

theorem base_grows (each : ∀ e ∈ es, e.Keeps K marked) (f : Frame) (v : Value)
    (spares : marked → SparesBelow K f.site.path) : Grows K (base es f v) := by
  unfold base
  cases v with
  | list xs =>
      simp only
      split
      · exact Grows.pure _
      · exact (checkFrom_grows each spares [] xs []).bind fun _ => Grows.pure _
  | _ => exact Grows.pure _

end Items

namespace Keys

theorem checkDeclared_grows {cs : List KeyCheck} (each : ∀ c ∈ cs, c.eval.Keeps K marked)
    (spares : marked → SparesBelow K f.site.path) (es : Dict) (errors : List Issue) :
    Grows K (checkDeclared f cs es errors) := by
  induction cs generalizing es errors with
  | nil => exact Grows.pure _
  | cons c cs ih =>
      have others := fun es errors => ih (fun d member => each d (by simp [member])) es errors
      refine (each c (by simp) _ _ _ fun some => (spares some).child _).bind fun r => ?_
      split
      · exact others _ _
      · split
        · exact Grows.pure _
        · exact others _ _

theorem base_grows {unknown : Option Value} {keys : Option (List KeyCheck)}
    (each : ∀ cs, keys = some cs → ∀ c ∈ cs, c.eval.Keeps K marked) (f : Frame) (v : Value)
    (spares : marked → SparesBelow K f.site.path) : Grows K (base unknown keys f v) := by
  unfold base
  split
  · rename_i es cs
    refine (checkDeclared_grows (each cs rfl) spares es []).bind fun o => ?_
    simp only
    split <;> exact Grows.pure _
  · exact Grows.pure _
  · exact Grows.pure _

end Keys

namespace Alternatives

/-- The evaluators of an entry only add to their run. Those of tests leave no trace. -/
def EntryKeeps (K : Path → Prop) (marked : Prop) : AlternativeCheck → Prop
  | .attempt e => e.Keeps K marked
  | .conditional _ bs => ∀ b ∈ bs, b.test.Grows ∧
      (∀ e, b.onMatch = some e → e.Keeps K marked) ∧ ∀ e, b.onMiss = some e → e.Keeps K marked

variable {es : List AlternativeCheck}

theorem count_grows (each : ∀ e ∈ es, EntryKeeps K marked e) (spares : marked → SparesBelow K f.site.path)
    (v : Value) (acc : Nat × Value) : Grows K (count f v es acc) := by
  induction es generalizing acc with
  | nil => exact Grows.pure _
  | cons e es ih =>
      cases e with
      | attempt e =>
          exact (each (.attempt e) (by simp) v _ _ spares).bind fun r =>
            ih (fun d member => each d (by simp [member])) _
      | conditional => exact Grows.throw _

/-- A branch that is chosen has an evaluator that only adds to its run. -/
theorem choose_grows {bs : List BranchCheck} (each : EntryKeeps K marked (.conditional none bs)) (subject : Value)
    {β : Type} {g : Option Evaluator → Eval β} (none_ : Grows K (g none))
    (some_ : ∀ e : Evaluator, e.Keeps K marked → Grows K (g (some e))) : Grows K (choose f subject bs >>= g) := by
  induction bs with
  | nil => exact none_
  | cons b bs ih =>
      obtain ⟨test, onMatch, onMiss⟩ := each b (by simp)
      rw [choose, bind_assoc]
      refine (Node.accepts_grows test _ _ _).bind fun passes => ?_
      have chosen : ∀ e, (if passes then b.onMatch else b.onMiss) = some e → e.Keeps K marked := by
        cases passes with
        | true => exact onMatch
        | false => exact onMiss
      cases way : (if passes then b.onMatch else b.onMiss) with
      | none => exact ih fun d member => each d (by simp [member])
      | some e => exact some_ e (chosen e way)

theorem first_grows (each : ∀ e ∈ es, EntryKeeps K marked e) (spares : marked → SparesBelow K f.site.path)
    (v : Value) (issues : List Issue) : Grows K (first h f v es issues) := by
  induction es generalizing issues with
  | nil => exact (Grows.lift _).bind fun _ => Grows.pure _
  | cons e es ih =>
      have others := fun issues => ih (fun d member => each d (by simp [member])) issues
      cases e with
      | attempt e =>
          refine (each (.attempt e) (by simp) v _ _ spares).bind fun r => ?_
          split
          · exact Grows.pure _
          · exact others _
      | conditional subject bs =>
          have asked : Grows K (subjectOf h f v subject) := by
            cases subject with
            | none => exact Grows.pure _
            | some r => exact Node.resolve_grows v r
          refine asked.bind fun x => ?_
          refine choose_grows (each (.conditional subject bs) (by simp)) x (others _) fun e keeps => ?_
          exact (keeps v _ _ spares).bind fun _ => Grows.pure _

theorem base_grows {mode : Option MatchMode} (each : ∀ e ∈ es, EntryKeeps K marked e) (f : Frame) (v : Value)
    (spares : marked → SparesBelow K f.site.path) : Grows K (base h mode es f v) := by
  unfold base
  cases mode with
  | none => exact (first_grows each spares v []).bind fun _ => Grows.pure _
  | some m =>
      refine Grows.bind ?_ fun _ => Grows.pure _
      refine (count_grows each spares v _).bind fun o => ?_
      simp only
      split
      · exact Grows.pure _
      · cases m <;> exact Grows.pure _

end Alternatives

/-! ## Schemas -/

namespace Schema

variable {empty : Option Schema} {content : Content}

/-- A base check only adds to its run if the schemas below it do. -/
theorem evalContent_grows
    (parts : ∀ role t, (node core empty content).Part role t → (t.eval h).Grows ∧ (t.eval h).Keeps K marked)
    (f : Frame) (v : Value) (spares : marked → SparesBelow K f.site.path) :
    Grows K (evalContent h core content f v) := by
  cases content with
  | any => exact Grows.pure _
  | boolean => exact Grows.pure _
  | number => exact Grows.lift _
  | string => exact Grows.pure _
  | probe => exact Grows.pure _
  | array items =>
      refine Items.base_grows (fun e member => ?_) f v spares
      obtain ⟨s, below, rfl⟩ := mem_evalEach member
      exact (parts (.item 0) s (.item 0 below)).2
  | object keys =>
      refine Keys.base_grows (fun cs same c member => ?_) f v spares
      cases keys with
      | none => cases same
      | some ks =>
          obtain rfl := Option.some.inj same
          obtain ⟨e, below, rfl⟩ := mem_evalKeyList member
          exact (parts (.key e.1) e.2 (.key below)).2
  | alternatives es chain mode =>
      refine Alternatives.base_grows (fun a member => ?_) f v spares
      rcases mem_evalAlternatives member with ⟨s, below, rfl⟩ | ⟨subject, bs, fromSwitch, entry, rfl⟩
      · exact (parts .entry s (.attempt below)).2
      · intro c chosen
        obtain ⟨test, yes, no, branch, rfl⟩ := mem_evalBranches chosen
        refine ⟨(parts .test test (.test entry branch)).1, fun e same => ?_, fun e same => ?_⟩
        · obtain ⟨s, rfl, rfl⟩ := evalOption_eq_some same
          exact (parts .entry s (.onMatch entry branch)).2
        · obtain ⟨s, rfl, rfl⟩ := evalOption_eq_some same
          exact (parts .entry s (.onMiss entry branch)).2

/-- An evaluation only adds to its run, if the functions of the schema do, and keeps what is captured at paths
that its site does not lead to. -/
theorem eval_keeps (s : Schema) (calls : ∀ t, s.Below t → t.core.CallsGrow K h)
    (marks : ∀ t, s.Below t → t.core.result.isSome → marked) : (s.eval h).Keeps K marked := by
  induction s using parts_induction generalizing K with
  | step s ih =>
  have parts : ∀ role t, s.Part role t → (t.eval h).Grows ∧ (t.eval h).Keeps K marked := by
    intro role t part
    have callsBelow : ∀ u, t.Below u → u.core.CallsGrow K h := fun u below => calls u (part.below below)
    have marksBelow : ∀ u, t.Below u → u.core.result.isSome → marked := fun u below => marks u (part.below below)
    exact ⟨(ih role t part (fun u below => (callsBelow u below).mono fun _ => False.elim) marksBelow).grows,
      ih role t part callsBelow marksBelow⟩
  obtain ⟨core, empty, content⟩ := s
  rw [eval_eq]
  refine Node.evaluate_keeps ⟨calls _ (.self _), marks _ (.self _), fun e same => ?_, evalContent_grows parts⟩
  obtain ⟨t, rfl, rfl⟩ := evalOption_eq_some same
  exact (parts .empty t .empty).1

theorem eval_grows (s : Schema) (calls : ∀ t, s.Below t → t.core.CallsGrow freely h) : (s.eval h).Grows :=
  (eval_keeps s calls fun _ _ _ => trivial).grows

end Schema

/-- Functions that only add to the run that they are called in. -/
structure Hooks.Growing (K : Path → Prop) (h : Hooks) : Prop where
  custom : ∀ fn f v, Grows K (h.custom fn f v)
  fallback : ∀ fn parent prefs, Grows K (h.fallback fn parent prefs)
  override : ∀ fn errors, Grows K (h.override fn errors)

theorem Hooks.Growing.callsGrow (growing : h.Growing K) (core : Core) : core.CallsGrow K h :=
  ⟨fun _ => growing.custom, fun fn _ => growing.fallback fn, fun fn _ => growing.override fn⟩

theorem idle_growing : Hooks.idle.Growing K :=
  ⟨fun _ _ v => Grows.pure v, fun _ _ _ => Grows.pure _, fun _ _ => Grows.pure _⟩

end Conform
