import Conform.Proofs.Early.Concur
import Conform.Proofs.Schema.Nodes
import Conform.Proofs.Validation.RuleTests

/-!
# Nodes that concur

A node without references, functions and caches decides alike in a run that aborts early and in one that may go
on, if its base check does: before its first issue both runs do the same, and afterwards both reject.
-/

namespace Conform

theorem Core.Plain.callsGrow {core : Core} {h : Hooks} (plain : core.Plain) : core.CallsGrow freely h where
  custom := fun ⟨e, member, custom⟩ => absurd custom (plain.custom e member)
  fallback fn call := absurd call (plain.fallback fn)
  error fn call := absurd call (plain.error fn)

/-- Settings without references, functions and caches, whose literals are older than any copy that a run makes. -/
structure Core.Even (k : Nat) (core : Core) : Prop extends core.Plain where
  refs : core.refs = []
  literals : ∀ s, core.allowed = some s ∨ core.denied = some s → ∀ v ∈ s.literalValues, v.isOld k

namespace Core.Even

variable {k : Nat} {core : Core}

theorem fallback_ref (even : core.Even k) (r : Reference) :
    ¬ (core.default = some (.ref r) ∨ core.failover = some (.ref r)) := by
  intro same
  have : r ∈ core.refs := by
    rcases same with same | same <;> simp [Core.refs, Fallback.refs, same]
  rw [even.refs] at this
  cases this

end Core.Even

variable {k : Nat} {flat : Prop} {same : Bool} {h : Hooks} {f f' : Frame} {core : Core} {v w : Value}
  {es es' : List Issue}

/-! ## Reports -/

namespace Issue

@[simp] theorem mark_fail (f : Frame) (code : String) (locals : Dict) :
    mark k (.report (f.fail code locals)) = some (.str code, f.site.path.map (Datum.map (Entity.capped k))) := rfl

@[simp] theorem mark_reportOf (f : Frame) (code : String) (v : Value) (locals : Dict) :
    mark k (.report (f.report code v locals)) = some (.str code, f.site.path.map (Datum.map (Entity.capped k))) := rfl

@[simp] theorem mark_reportAt (f : Frame) (s : Site) (code : String) (v : Value) (locals : Dict) :
    mark k (.report (f.reportAt s code v locals)) = some (.str code, s.path.map (Datum.map (Entity.capped k))) := rfl

@[simp] theorem mark_withMessage (m : Value) (r : Report) :
    mark k (.report (r.withMessage m)) = mark k (.report r) := by
  unfold ReportOf.withMessage
  split
  · rfl
  · split <;> rfl
  · rfl

end Issue

theorem Frame.Beside.failure (beside : Frame.Beside k same f f') (code : String) (u x : Value) (a b : Dict) :
    Concur k flat same v [.report (f.report code u a)] w [.report (f'.report code x b)] :=
  .reject (by simp) (by simp) fun _ => .of_eq (by simp [beside.path])

/-! ## Conversion -/

namespace Datum.Like

theorem trimmed (like : Like k v w) (core : Core) : Like k (Conform.trimmed core v) (Conform.trimmed core w) := by
  cases like.likeness with
  | same v => rfl
  | _ => simpa only [Conform.trimmed] using like

end Datum.Like

namespace Node

/-- What a step decides in two runs. -/
inductive Verdicts (k : Nat) (flat : Prop) (same : Bool) : Verdict → Verdict → Prop
  | goOn {v w : Value} {es es' : List Issue} (like : Datum.Like k v w) (level : Level k flat same es es') :
      Verdicts k flat same (.goOn v es) (.goOn w es')
  | finished {v w : Value} {es es' : List Issue} (concur : Concur k flat same v es w es') :
      Verdicts k flat same (.finished v es) (.finished w es')
  | stopped {v w : Value} {es es' : List Issue} (mode : same = false) (left : es ≠ []) (right : es' ≠ [])
      (begins_ : flat → Begins k false es es') : Verdicts k flat same (.finished v es) (.goOn w es')

/-- Outcomes of a step that may leave the value alone. -/
abbrev Steps (k : Nat) (flat : Prop) (same : Bool) : Option Outcome → Option Outcome → Prop :=
  Option.Rel fun o o' => Concur k flat same o.value o.errors o'.value o'.errors

theorem convertStep_verdicts (beside : Frame.Beside k same f f') {step step' : Value → Option Outcome}
    (like : Datum.Like k v w) (steps : Steps k flat true (step v) (step' w)) :
    Verdicts k flat true (convertStep f step v) (convertStep f' step' w) := by
  unfold convertStep
  rw [like.isUndefined_eq, beside.prefs.convert]
  split
  · exact .goOn like .clean
  · generalize step v = o at steps ⊢
    generalize step' w = o' at steps ⊢
    cases steps with
    | none => exact .goOn like .clean
    | @some o o' concur =>
        obtain ⟨u, ds⟩ := o
        obtain ⟨x, ds'⟩ := o'
        cases concur with
        | accept like => exact .goOn like .clean
        | reject left right begins_ =>
            cases ds with
            | nil => contradiction
            | cons d ds =>
                cases ds' with
                | nil => contradiction
                | cons d' ds' => exact .finished (.reject left right begins_)

theorem prepare_steps (beside : Frame.Beside k same f f') (like : Datum.Like k v w) (kind : Kind) :
    Steps k flat true (prepare kind f v) (prepare kind f' w) := by
  cases like.likeness with
  | same v =>
      unfold prepare
      split
      · split
        · exact .some (.reject (by simp [Outcome.failed]) (by simp [Outcome.failed])
            fun _ => .of_eq (by simp [Outcome.failed, beside.path]))
        · exact .some (.accept rfl)
        · exact .none
      · exact .none
  | _ => cases kind <;> exact .none

theorem coerce_steps (beside : Frame.Beside k same f f') (like : Datum.Like k v w) (core : Core) (content : Content) :
    Steps k flat true (coerce core content f v) (coerce core content f' w) := by
  have converted : ∀ o : Option Value, Steps k flat true (o.map fun w => ⟨w, []⟩) (o.map fun w => ⟨w, []⟩) := by
    intro o
    cases o with
    | none => exact .none
    | some w => exact .some (.accept rfl)
  cases like.likeness with
  | same v =>
      cases content with
      | number | string | boolean => exact converted _
      | probe =>
          change Steps k flat true (coerceProbe f v) (coerceProbe f' v)
          unfold coerceProbe
          split
          · split
            · exact .some (.reject (by simp [Outcome.failed]) (by simp [Outcome.failed])
                fun _ => .of_eq (by simp [Outcome.failed, beside.path]))
            · exact .none
          · exact .some (.accept rfl)
          · exact .none
      | _ => exact .none
  | _ => cases content <;> exact .none

theorem convert_verdicts (n : Node) (beside : Frame.Beside k same f f') (like : Datum.Like k v w)
    (kind : f.kind = f'.kind) : Verdicts k flat true (n.convert f v) (n.convert f' w) := by
  unfold convert
  have prepared : Verdicts k flat true (convertStep f (prepare f.kind f) v) (convertStep f' (prepare f'.kind f') w) := by
    rw [kind]
    exact convertStep_verdicts beside like (prepare_steps beside like _)
  revert prepared
  cases convertStep f (prepare f.kind f) v <;> cases convertStep f' (prepare f'.kind f') w <;> intro prepared <;>
    cases prepared
  · rename_i like _
    exact convertStep_verdicts beside like (coerce_steps beside like _ _)
  · rename_i mode _ _ _
    cases mode
  · exact .finished ‹_›

end Node

/-! ## Rules -/

namespace Datum.Like

theorem number?_eq (like : Like k v w) : w.number? = v.number? := by
  rw [← number?_map (Entity.capped k) v, like, number?_map]

theorem length?_eq (like : Like k v w) : w.length? = v.length? := by
  cases like.likeness with
  | same v => rfl
  | list each | tuple each | set each | dict each => exact congrArg some (by simpa using congrArg List.length each.symm)
  | @leaf a b capped =>
      change Entity.size? b = Entity.size? a
      rw [← Entity.size?_capped (k := k), ← capped, Entity.size?_capped]

end Datum.Like

namespace Reply

/-- Answers that leave the value alone, or report the same on both sides. -/
inductive Alike (k : Nat) : Reply → Reply → Prop
  | value {v w : Value} (like : Datum.Like k v w) : Alike k (.value v) (.value w)
  | reports {rs rs' : List Report} (left : rs ≠ []) (right : rs' ≠ [])
      (marks : rs.map (fun r => Issue.mark k (.report r)) = rs'.map fun r => Issue.mark k (.report r)) :
      Alike k (.reports rs) (.reports rs')

/-- A datum that is a report. -/
def report? : Value → Option Report
  | .leaf (.report r) => some r
  | _ => none

theorem report?_map (v : Value) : report? (v.map (Entity.capped k)) = report? v := by
  cases v with
  | leaf a => cases a <;> rfl
  | _ => rfl

theorem reports?_list (x : Value) (xs : List Value) : reports? (.list (x :: xs)) = (x :: xs).mapM report? := by
  have same : (fun v : Value => match v with
      | .leaf (.report r) => some r
      | _ => none) = report? := by
    funext v
    unfold report?
    rfl
  rw [← same]
  rfl

theorem mapM_report?_map (xs : List Value) :
    (xs.map (Datum.map (Entity.capped k))).mapM report? = xs.mapM report? := by
  induction xs with
  | nil => rfl
  | cons x xs ih => rw [List.map_cons, List.mapM_cons, List.mapM_cons, report?_map, ih]

theorem reports?_eq (like : Datum.Like k v w) : reports? w = reports? v := by
  cases like.likeness with
  | same v => rfl
  | @list xs ys each =>
      cases xs with
      | nil =>
          obtain rfl : ys = [] := List.map_eq_nil_iff.mp each.symm
          rfl
      | cons x xs =>
          cases ys with
          | nil => cases each
          | cons y ys => rw [reports?_list, reports?_list, ← mapM_report?_map (k := k), ← each, mapM_report?_map]
  | @leaf a b capped =>
      cases a <;> cases b <;> simp_all [Entity.capped, reports?]
  | _ => rfl

theorem reports?_ne_nil {rs : List Report} (found : reports? v = some rs) : rs ≠ [] := by
  unfold reports? at found
  split at found
  · cases found
    exact List.cons_ne_nil _ _
  · rw [List.mapM_cons] at found
    rintro rfl
    simp [bind, Option.bind_eq_some_iff] at found
  · cases found

theorem Alike.normal {a b : Reply} (alike : Alike k a b) : Alike k a.normal b.normal := by
  cases alike with
  | @value v w like =>
      simp only [Reply.normal, reports?_eq like]
      cases found : reports? v with
      | none => exact .value like
      | some rs => exact .reports (reports?_ne_nil found) (reports?_ne_nil found) rfl
  | reports left right marks => exact .reports left right marks

theorem Alike.one (beside : Frame.Beside k same f f') (code : String) (a b : Dict) :
    Alike k (.reports [f.fail code a]) (.reports [f'.fail code b]) :=
  .reports (by simp) (by simp) (by simp [beside.path])

theorem Alike.choice (beside : Frame.Beside k same f f') (like : Datum.Like k v w) (code : String) (a b : Dict)
    (holds : Bool) : Alike k (if holds then .value v else .reports [f.fail code a])
      (if holds then .value w else .reports [f'.fail code b]) := by
  cases holds with
  | true => exact .value like
  | false => exact .one beside code a b

end Reply

namespace Rule

theorem compare_eq (like : Datum.Like k v w) (admits : Ordering → Bool) (limit : Value) :
    compare admits w limit = compare admits v limit := by
  unfold compare
  rw [like.number?_eq]

theorem compareLength_eq (like : Datum.Like k v w) (admits : Ordering → Bool) (limit : Value) :
    compareLength admits w limit = compareLength admits v limit := by
  unfold compareLength
  rw [like.length?_eq]

theorem isInteger_eq (like : Datum.Like k v w) : isInteger w = isInteger v := by
  cases like.likeness <;> rfl

theorem isMultiple_eq (like : Datum.Like k v w) (base : Value) : isMultiple w base = isMultiple v base := by
  cases like.likeness <;> rfl

variable {a b : Reply}

/-- Both sides of a verdict that waits for one answer. -/
theorem decided {x : Except Fault Bool} {g g' : Bool → Except Fault Reply}
    (each : ∀ holds a b, g holds = .ok a → g' holds = .ok b → Reply.Alike k a b) (left : x >>= g = .ok a)
    (right : x >>= g' = .ok b) : Reply.Alike k a b := by
  cases x with
  | error f => cases left
  | ok holds => exact each holds a b left right

theorem testPattern_alike (beside : Frame.Beside k same f f') (like : Datum.Like k v w) (args : List (String × Value))
    (left : testPattern f v args = .ok a) (right : testPattern f' w args = .ok b) : Reply.Alike k a b := by
  unfold testPattern at left right
  split at left
  · split at left
    · split at left
      · obtain rfl : w = .str _ := by
          cases like.likeness
          rfl
        rename_i source regex _ p read _ s
        simp only [regex, read] at left right
        split at left
        · rename_i found
          rw [if_pos found] at right
          cases left
          cases right
          exact .value like
        · rename_i missed
          rw [if_neg missed] at right
          split at left
          · rename_i named
            rw [if_pos named] at right
            cases left
            cases right
            exact .one beside _ _ _
          · rename_i unnamed
            rw [if_neg unnamed] at right
            cases left
            cases right
            exact .one beside _ _ _
      · cases left
    · cases left
  · cases left

theorem testTrim_alike (beside : Frame.Beside k same f f') (like : Datum.Like k v w) (args : List (String × Value))
    (left : testTrim f v args = .ok a) (right : testTrim f' w args = .ok b) : Reply.Alike k a b := by
  unfold testTrim at left right
  by_cases idle : (!(RuleEntry.arg "enabled" args).truthy) = true
  · rw [if_pos idle] at left right
    cases left
    cases right
    exact .value like
  · rw [if_neg idle] at left right
    have judged : ∀ t : Bool, (pure (if t then .value v else .reports [f.fail "string.trim" []]) : Except Fault Reply) = .ok a →
        (pure (if t then .value w else .reports [f'.fail "string.trim" []]) : Except Fault Reply) = .ok b →
        Reply.Alike k a b := by
      intro t left right
      cases left
      cases right
      exact .choice beside like "string.trim" [] [] t
    cases like.likeness with
    | same v =>
        split at left
        all_goals first
          | exact judged _ left right
          | cases left
    | @leaf c d capped =>
        -- A schema as a value has no copies in it, and other things cannot be trimmed.
        cases c with
        | outline =>
            cases d <;> first
              | exact judged _ left right
              | cases capped
        | _ => cases left
    | _ => cases left

theorem testCase_alike (beside : Frame.Beside k same f f') (like : Datum.Like k v w) (args : List (String × Value))
    (left : testCase f v args = .ok a) (right : testCase f' w args = .ok b) : Reply.Alike k a b := by
  have judged : ∀ (holds : Bool) (code : String), a = (if holds then .value v else .reports [f.fail code []]) →
      b = (if holds then .value w else .reports [f'.fail code []]) → Reply.Alike k a b := by
    rintro holds code rfl rfl
    exact .choice beside like code [] [] holds
  cases like.likeness with
  | same v =>
      unfold testCase at left right
      cases v with
      | str | bytes =>
          simp only [pure_bind] at left right
          split at left
          · rename_i lower
            rw [lower] at right
            exact judged _ _ (Except.ok.inj left).symm (Except.ok.inj right).symm
          · rename_i upper
            split at right
            · rename_i lower
              exact absurd lower upper
            · exact judged _ _ (Except.ok.inj left).symm (Except.ok.inj right).symm
      | _ => cases left
  | _ => cases left

theorem testLimit_alike (beside : Frame.Beside k same f f') (like : Datum.Like k v w) (args : List (String × Value))
    (left : testLimit f v args = .ok a) (right : testLimit f' w args = .ok b) : Reply.Alike k a b := by
  cases like.likeness with
  | same v =>
      cases v with
      | str s =>
          refine decided (fun holds a b left right => ?_) left right
          cases holds with
          | true =>
              cases left
              cases right
              exact .reports (by simp) (by simp) (by simp [beside.path])
          | false =>
              cases left
              cases right
              exact .value rfl
      | _ =>
          cases left
          cases right
          exact .value rfl
  | _ =>
      cases left
      cases right
      exact .value like

/-- A verdict leaves values that are alike alone, or refuses both under the same code. -/
theorem verdict_alike (beside : Frame.Beside k same f f') (like : Datum.Like k v w) (name : RuleName)
    (args : List (String × Value)) (left : verdict name f v args = .ok a) (right : verdict name f' w args = .ok b) :
    Reply.Alike k a b := by
  have chosen : ∀ (x : Except Fault Bool) (code : String) (locals : Dict),
      (x >>= fun holds => (pure (if holds then .value v else .reports [f.fail code locals]) : Except Fault Reply)) = .ok a →
      (x >>= fun holds => (pure (if holds then .value w else .reports [f'.fail code locals]) : Except Fault Reply)) = .ok b →
      Reply.Alike k a b := by
    intro x code locals left right
    refine decided (fun holds a b left right => ?_) left right
    cases left
    cases right
    exact .choice beside like code locals locals holds
  cases name with
  | custom | warning =>
      cases left
      cases right
      exact .value like
  | integer =>
      simp only [verdict, isInteger_eq like] at left right
      exact chosen _ _ _ left right
  | multiple =>
      simp only [verdict, isMultiple_eq like] at left right
      exact chosen _ _ _ left right
  | pattern => exact testPattern_alike beside like args left right
  | trim => exact testTrim_alike beside like args left right
  | case => exact testCase_alike beside like args left right
  | limit => exact testLimit_alike beside like args left right
  | min | max | greater | less | length =>
      simp only [verdict, beside.kind, compare_eq like, compareLength_eq like, limitReply] at left right
      split at left
      · rename_i isNumber
        rw [if_pos isNumber] at right
        exact chosen _ _ _ left right
      · rename_i isOther
        rw [if_neg isOther] at right
        exact chosen _ _ _ left right

end Rule

namespace Node

theorem reply_paired (beside : Frame.Beside k same f f') (like : Datum.Like k v w) (spec : RuleSpec) {e : RuleEntry}
    (refs : e.refs = []) (calls : e.name ≠ .custom) :
    Paired k (Reply.Alike k) (reply h f v spec e) (reply h f' w spec e) := by
  have opened : ∀ f v, reply h f v spec e =
      Rule.test h e.name { f with current := v } v e.args >>= fun r => pure r.normal := by
    intro f v
    unfold reply
    rw [refs]
    rfl
  rw [opened, opened]
  have inner := beside.withCurrent v w
  refine Paired.bind (R := Reply.Alike k) ?_ fun a b alike => .pure alike.normal
  by_cases warns : e.name = .warning
  · rw [warns, Rule.test_warning, Rule.test_warning]
    have written : Paired k (fun _ _ => True) (Eval.warn (Rule.warningOf { f with current := v } e.args))
        (Eval.warn (Rule.warningOf { f' with current := w } e.args)) :=
      .apart (Eval.warn_grows _) (Eval.warn_grows _) .any .any fun _ _ _ _ => trivial
    exact written.bind fun _ _ _ => .pure (.value like)
  · rw [Rule.test_verdict calls warns, Rule.test_verdict calls warns]
    exact .lift fun a b left right => Rule.verdict_alike inner like e.name e.args left right

theorem applyRules_yields (rules : List RuleEntry) (patient : f.prefs.abortEarly = false) (v : Value)
    (errors : List Issue) : Yields (fun s => errors <+: s.2) (applyRules h f rules v errors) := by
  induction rules generalizing v errors with
  | nil => exact .pure (List.prefix_refl _)
  | cons e rest ih =>
      rw [applyRules]
      simp only
      split
      · exact ih v errors
      · refine Yields.bind .any fun answer _ => ?_
        cases answer with
        | value u => exact ih u errors
        | reports rs =>
            simp only [patient, Bool.false_eq_true, if_false]
            split
            · exact Yields.bind .any fun _ _ => ih v errors
            · exact (ih v _).mono fun s longer => (List.prefix_append _ _).trans longer

/-- Failures of one rule end the run of a side that aborts early; the other side keeps them and goes on. -/
theorem failure_paired {rest : List RuleEntry} {ds ds' : List Issue} (calls : ∀ e ∈ rest, e.name ≠ .custom)
    (beside : Frame.Beside k same f f') (level : Level k flat same es es') (left : ds ≠ []) (right : ds' ≠ [])
    (failed : Begins k true ds ds')
    (others : ∀ {es es'}, Level k flat same es es' → Paired k (fun s s' => Concur k flat same s.1 s.2 s'.1 s'.2)
      (applyRules h f rest v es) (applyRules h f' rest w es')) :
    Paired k (fun s s' => Concur k flat same s.1 s.2 s'.1 s'.2)
      (if f.prefs.abortEarly then pure (v, ds) else applyRules h f rest v (es ++ ds))
      (if f'.prefs.abortEarly then pure (w, ds') else applyRules h f' rest w (es' ++ ds')) := by
  -- Where only the left side aborts, the right one keeps the failure and adds to it.
  rcases beside.prefs.modes with ⟨rfl, alike⟩ | ⟨rfl, early, patient⟩
  · rw [alike]
    split
    · exact .pure (.reject left right fun _ => failed)
    · exact others (level.append left right fun _ => failed)
  · obtain ⟨rfl, rfl⟩ := level.none
    simp only [early, patient, if_true, Bool.false_eq_true, if_false, List.nil_append]
    have silent : (∃ d ∈ rest, d.name = .custom) → ∀ fn f v, Grows freely (h.custom fn f v) := by
      rintro ⟨d, member, custom⟩
      exact absurd custom (calls d member)
    have started : Begins k false ds ds' := failed.weaken fun whole => absurd whole (by decide)
    refine .apart (P := fun s => s = (v, ds)) (Grows.pure _) (applyRules_grows silent _ _) (.pure rfl)
      (applyRules_yields rest patient w _) fun s s' stopped longer => ?_
    subst stopped
    exact .reject left (fun none => right (List.prefix_nil.mp (none ▸ longer)))
      fun _ => started.before longer

theorem applyRules_paired {rules : List RuleEntry} (refs : ∀ e ∈ rules, e.refs = [])
    (calls : ∀ e ∈ rules, e.name ≠ .custom) (beside : Frame.Beside k same f f') (like : Datum.Like k v w)
    (level : Level k flat same es es') :
    Paired k (fun s s' => Concur k flat same s.1 s.2 s'.1 s'.2) (applyRules h f rules v es)
      (applyRules h f' rules w es') := by
  induction rules generalizing v w es es' with
  | nil => exact .pure (level.concur like)
  | cons e rest ih =>
      have others : ∀ {v w es es'}, Datum.Like k v w → Level k flat same es es' → Paired k
          (fun s s' => Concur k flat same s.1 s.2 s'.1 s'.2) (applyRules h f rest v es) (applyRules h f' rest w es') :=
        fun like level => ih (fun d member => refs d (by simp [member])) (fun d member => calls d (by simp [member]))
          like level
      rw [applyRules, applyRules, beside.kind, beside.prefs.convert]
      simp only
      split
      · exact others like level
      · refine (reply_paired beside like _ (refs e (by simp)) (calls e (by simp))).bind fun a b alike => ?_
        cases alike with
        | value like => exact others like level
        | @reports rs rs' left right marks =>
            simp only
            split
            · have written : Paired k (fun _ _ => True)
                  ((rs.map (ReportOf.withMessage e.message)).forM Eval.warn)
                  ((rs'.map (ReportOf.withMessage e.message)).forM Eval.warn) :=
                .apart (warnAll_grows _) (warnAll_grows _) .any .any fun _ _ _ _ => trivial
              exact written.bind fun _ _ _ => others like level
            · have failed : Begins k true ((rs.map (ReportOf.withMessage e.message)).map Issue.report)
                  ((rs'.map (ReportOf.withMessage e.message)).map Issue.report) := by
                simp only [Begins, if_true, List.map_map, Function.comp_def, Issue.mark_withMessage]
                exact marks
              have left : (rs.map (ReportOf.withMessage e.message)).map Issue.report ≠ [] := by simpa using left
              have right : (rs'.map (ReportOf.withMessage e.message)).map Issue.report ≠ [] := by simpa using right
              exact failure_paired (fun d member => calls d (by simp [member])) beside level left right failed
                fun level => others like level

end Node

/-! ## Allowed and denied values -/

namespace Datum.Like

theorem sameEntry_eq (like : Like k v w) {literal : Value} (old : literal.isOld k) (insensitive : Bool) :
    sameEntry insensitive literal w = sameEntry insensitive literal v := by
  have equal := (like.deepEqual_eq old).symm
  cases like.likeness with
  | same v => rfl
  | _ =>
      have general : ∀ u : Value, u.isText = false → sameEntry insensitive literal u = deepEqual literal u := by
        intro u textless
        unfold sameEntry
        split
        · cases textless
        · rfl
      rw [general _ rfl, general _ rfl]
      exact equal

theorem findLiteral?_eq (like : Like k v w) {s : ValueSet} (old : ∀ u ∈ s.literalValues, u.isOld k)
    (insensitive : Bool) : s.findLiteral? insensitive w = s.findLiteral? insensitive v := by
  unfold ValueSet.findLiteral?
  revert old
  generalize s.literalValues = us
  intro old
  induction us with
  | nil => rfl
  | cons u us ih =>
      rw [List.find?_cons, List.find?_cons, like.sameEntry_eq (old u (by simp)),
        ih fun x member => old x (by simp [member])]

end Datum.Like

namespace Node

theorem find_eq {s : ValueSet} (refs : s.refs = []) (insensitive : Bool) (v : Value) :
    find h f insensitive v s = pure ((s.findLiteral? insensitive v).map fun u => ⟨u, none⟩) := by
  apply Eval.ext
  intro r
  unfold find
  rw [Eval.exec_bind, Eval.exec_get, Eval.andThen_ok]
  unfold ValueSet.lookup
  rw [refs]
  cases s.findLiteral? insensitive v <;> rfl

theorem checkAllowed_paired (even : core.Even k) (beside : Frame.Beside k same f f') (like : Datum.Like k v w) :
    Paired k (Verdicts k flat same) (checkAllowed h core f v) (checkAllowed h core f' w) := by
  unfold checkAllowed
  cases allowed : core.allowed with
  | none => exact .pure (.goOn like .clean)
  | some s =>
      simp only [find_eq (Core.set_refs even.refs (.inl allowed)), pure_bind,
        like.findLiteral?_eq (even.literals s (.inl allowed)), beside.prefs.convert]
      cases s.findLiteral? core.insensitive v with
      | some u =>
          refine .pure (.finished (.accept ?_))
          split
          · rfl
          · exact like
      | none =>
          simp only [Option.map_none]
          split
          · have failed : Begins k true
                [.report (f.report "any.only" v [(.str "valids", .list (s.values true))])]
                [.report (f'.report "any.only" w [(.str "valids", .list (s.values true))])] :=
              .of_eq (by simp [beside.path])
            rcases beside.prefs.modes with ⟨rfl, alike⟩ | ⟨rfl, early, patient⟩
            · rw [alike]
              split
              · exact .pure (.finished (.reject (by simp) (by simp) fun _ => failed))
              · exact .pure (.goOn like (.failing rfl (by simp) (by simp) fun _ => failed))
            · rw [early, patient]
              exact .pure (.stopped rfl (by simp) (by simp) fun _ => failed.weaken nofun)
          · exact .pure (.goOn like .clean)

theorem checkDenied_paired (even : core.Even k) (beside : Frame.Beside k same f f') (like : Datum.Like k v w)
    (level : Level k flat same es es') :
    Paired k (Verdicts k flat same) (checkDenied h core f v es) (checkDenied h core f' w es') := by
  unfold checkDenied
  cases denied : core.denied with
  | none => exact .pure (.goOn like level)
  | some s =>
      simp only [find_eq (Core.set_refs even.refs (.inr denied)), pure_bind,
        like.findLiteral?_eq (even.literals s (.inr denied))]
      cases s.findLiteral? core.insensitive v with
      | none => exact .pure (.goOn like level)
      | some u =>
          have failed : Begins k true
              [.report (f.report "any.invalid" v [(.str "invalids", .list (s.values true))])]
              [.report (f'.report "any.invalid" w [(.str "invalids", .list (s.values true))])] :=
            .of_eq (by simp [beside.path])
          rcases beside.prefs.modes with ⟨rfl, alike⟩ | ⟨rfl, early, patient⟩
          · simp only [Option.map_some, alike]
            split
            · exact .pure (.finished (.reject (by simp) (by simp) fun _ => failed))
            · exact .pure (.goOn like (level.append (by simp) (by simp) fun _ => failed))
          · obtain ⟨rfl, rfl⟩ := level.none
            simp only [Option.map_some, early, patient]
            exact .pure (.stopped rfl (by simp) (by simp) fun _ => failed.weaken nofun)

/-! ## The base check -/

end Node

/-- A base check whose outcomes in two runs concur. -/
def BaseCheck.Concurs (k : Nat) (flat : Prop) (base : BaseCheck) : Prop :=
  ∀ same f f', Frame.Beside k same f f' → ∀ v w, Datum.Like k v w →
    Paired k (Node.Steps k flat same) (base f v) (base f' w)

/-- A node whose parts concur in two runs. -/
structure Node.Concurs (k : Nat) (flat : Prop) (h : Hooks) (n : Node) : Prop where
  even : n.core.Even k
  empty : ∀ e, n.empty = some e → e.Concurs k flat ∧ e.Grows
  base : n.base.Concurs k flat
  grows : ∀ f v, Grows freely (n.base f v)

namespace Node

variable {n : Node}

theorem Concurs.calls (concurs : n.Concurs k flat h) : n.core.CallsGrow freely h := concurs.even.callsGrow

theorem Concurs.keeps (concurs : n.Concurs k flat h) : n.Keeps freely True h :=
  ⟨concurs.calls, fun _ => trivial, fun e same => (concurs.empty e same).2, fun f v _ => concurs.grows f v⟩

theorem checkBase_paired (concurs : n.Concurs k flat h) (beside : Frame.Beside k same f f')
    (like : Datum.Like k v w) (level : Level k flat same es es') :
    Paired k (fun s s' => Concur k flat same s.1 s.2 s'.1 s'.2) (checkBase h n f v es) (checkBase h n f' w es') := by
  have rules : ∀ {v w}, Datum.Like k v w → Paired k (fun s s' => Concur k flat same s.1 s.2 s'.1 s'.2)
      (applyRules h f n.core.rules v es) (applyRules h f' n.core.rules w es') := fun like =>
    applyRules_paired (fun _ => Core.rule_refs concurs.even.refs) concurs.even.custom beside like level
  unfold checkBase
  refine (concurs.base same _ _ (beside.withCurrent v w) v w like).bind fun o o' steps => ?_
  cases steps with
  | none => exact rules like
  | @some o o' concur =>
      obtain ⟨u, ds⟩ := o
      obtain ⟨x, ds'⟩ := o'
      cases concur with
      | accept like => exact rules like
      | reject left right begins_ =>
          obtain ⟨d, ds, rfl⟩ := List.exists_cons_of_ne_nil left
          obtain ⟨d', ds', rfl⟩ := List.exists_cons_of_ne_nil right
          exact .pure (level.fails left right begins_)

/-- What a node does with a value that is not among those allowed. -/
def proceed (h : Hooks) (n : Node) (f : Frame) (v : Value) (errors : List Issue) : Eval (Value × List Issue) := do
  match ← checkDenied h n.core f v errors with
  | .finished v errors => return (v, errors)
  | .goOn v errors => checkBase h n f v errors

/-- A side that stopped, beside one that goes on and keeps the issues that it has. -/
theorem stopped_paired {x : Eval (Value × List Issue)} (left : es ≠ []) (right : es' ≠ [])
    (begins_ : flat → Begins k false es es') (grows : Grows freely x) (longer : Yields (fun s => es' <+: s.2) x) :
    Paired k (fun s s' => Concur k flat false s.1 s.2 s'.1 s'.2) (pure (v, es)) x := by
  refine .apart (P := fun s => s = (v, es)) (Grows.pure _) grows (.pure rfl) longer fun s s' stopped longer => ?_
  subst stopped
  exact .reject left (fun none => right (List.prefix_nil.mp (none ▸ longer))) fun whole => (begins_ whole).before longer

theorem checkBase_yields (patient : f.prefs.abortEarly = false) (v : Value) (errors : List Issue) :
    Yields (fun s => errors <+: s.2) (checkBase h n f v errors) := by
  unfold checkBase
  refine Yields.bind .any fun o _ => ?_
  rcases o with _ | ⟨u, _ | ⟨d, ds⟩⟩
  · exact applyRules_yields _ patient _ _
  · exact applyRules_yields _ patient _ _
  · exact .pure (List.prefix_append _ _)

theorem proceed_yields (patient : f.prefs.abortEarly = false) (v : Value) (errors : List Issue) :
    Yields (fun s => errors <+: s.2) (proceed h n f v errors) := by
  have checked : Yields (fun verdict => ∃ w es, verdict = .goOn w es ∧ errors <+: es)
      (checkDenied h n.core f v errors) := by
    unfold checkDenied
    split
    · exact .pure ⟨v, errors, rfl, List.prefix_refl _⟩
    · refine Yields.bind .any fun o _ => ?_
      cases o with
      | none => exact .pure ⟨v, errors, rfl, List.prefix_refl _⟩
      | some u =>
          simp only [patient, Bool.false_eq_true, if_false]
          exact .pure ⟨v, _, rfl, List.prefix_append _ _⟩
  refine checked.bind fun verdict goesOn => ?_
  obtain ⟨w, es, rfl, longer⟩ := goesOn
  exact (checkBase_yields patient w es).mono fun s more => longer.trans more

theorem proceed_grows (concurs : n.Concurs k flat h) (v : Value) (errors : List Issue) :
    Grows freely (proceed h n f v errors) := by
  refine (checkDenied_grows v errors).bind fun verdict => ?_
  cases verdict with
  | finished => exact Grows.pure _
  | goOn w es => exact checkBase_grows concurs.keeps (fun _ => spares_freely _) w es

theorem check_proceed (v : Value) : check h n f v = checkAllowed h n.core f v >>= fun
    | .finished v es => pure (v, es)
    | .goOn v es => proceed h n f v es := rfl

theorem proceed_paired (concurs : n.Concurs k flat h) (beside : Frame.Beside k same f f') (like : Datum.Like k v w)
    (level : Level k flat same es es') :
    Paired k (fun s s' => Concur k flat same s.1 s.2 s'.1 s'.2) (proceed h n f v es) (proceed h n f' w es') := by
  refine (checkDenied_paired concurs.even beside like level).bind fun a b verdicts => ?_
  cases verdicts with
  | goOn like level => exact checkBase_paired concurs beside like level
  | finished concur => exact .pure concur
  | @stopped _ w _ es' mode left right begins_ =>
      subst mode
      have patient := beside.prefs.unlike.2
      exact stopped_paired left right begins_ (checkBase_grows concurs.keeps (fun _ => spares_freely _) w es')
        (checkBase_yields patient w es')

theorem check_paired (concurs : n.Concurs k flat h) (beside : Frame.Beside k same f f') (like : Datum.Like k v w) :
    Paired k (fun s s' => Concur k flat same s.1 s.2 s'.1 s'.2) (check h n f v) (check h n f' w) := by
  rw [check_proceed, check_proceed]
  have allowed : Paired k (Verdicts k flat same) (checkAllowed h n.core f v) (checkAllowed h n.core f' w) :=
    checkAllowed_paired concurs.even beside like
  refine allowed.bind fun a b verdicts => ?_
  cases verdicts with
  | goOn like level => exact proceed_paired concurs beside like level
  | finished concur => exact .pure concur
  | @stopped _ w _ es' mode left right begins_ =>
      subst mode
      have patient := beside.prefs.unlike.2
      exact stopped_paired left right begins_ (proceed_grows concurs w es') (proceed_yields patient w es')

/-! ## Absence -/

theorem accepts_paired {e : Evaluator} (concurs : e.Concurs k flat) (like : Datum.Like k v w) {s s' : Site}
    (path : Path.Like k s.path s'.path) {p p' : Preferences} (matching : p'.forMatching = p.forMatching) :
    Paired k (fun a b => b = a) (accepts e v s p) (accepts e w s' p') := by
  unfold accepts
  rw [matching]
  refine (concurs true _ _ (.same _) v w like s s' path).withoutTrace.bind fun a b concur => ?_
  exact .pure concur.accepts.symm

theorem emptied_paired (concurs : n.Concurs k flat h) (beside : Frame.Beside k same f f') (like : Datum.Like k v w) :
    Paired k (Datum.Like k) (emptied n f v) (emptied n f' w) := by
  unfold emptied
  cases empty : n.empty with
  | none => exact .pure like
  | some e =>
      refine (accepts_paired (concurs.empty e empty).1 (like.trimmed n.core) beside.path rfl).bind fun a b agree => ?_
      subst agree
      refine .pure ?_
      split
      · rfl
      · exact like

theorem checkPresence_paired (concurs : n.Concurs k flat h) (beside : Frame.Beside k same f f')
    (like : Datum.Like k v w) :
    Paired k (fun s s' => Concur k flat same s.1 s.2 s'.1 s'.2) (checkPresence h n f v) (checkPresence h n f' w) := by
  have asked : n.presence f' = n.presence f := by
    unfold presence
    rw [beside.prefs.presence]
  unfold checkPresence
  rw [like.isUndefined_eq, asked]
  split
  · split
    · exact .pure (.accept like)
    · exact .pure (beside.failure _ _ _ _ _)
    · split
      · exact check_paired concurs beside rfl
      · exact .pure (.accept like)
    · exact check_paired concurs beside like
  · split
    · exact .pure (beside.failure _ _ _ _ _)
    · exact check_paired concurs beside like

theorem body_paired (concurs : n.Concurs k flat h) (beside : Frame.Beside k same f f') :
    Paired k (fun s s' => Concur k flat same s.1 s.2 s'.1 s'.2) (body h n f) (body h n f') := by
  have converted : Verdicts k flat true (n.convert f f.given) (n.convert f' f'.given) :=
    convert_verdicts n beside beside.given beside.kind.symm
  unfold body
  generalize n.convert f f.given = a at converted ⊢
  generalize n.convert f' f'.given = b at converted ⊢
  cases converted with
  | goOn like level =>
      exact (emptied_paired concurs beside like).bind fun v w like => checkPresence_paired concurs beside like
  | finished concur => exact .pure (concur.weaken fun _ => rfl)
  | stopped mode => cases mode

end Node

/-! ## The finish -/

theorem Eval.copy_paired (v : Value) : Paired k (Datum.Like k) (Eval.copy v) (Eval.copy v) := by
  have ran : ∀ r, (Eval.copy v).exec r = (v.copy r.copies, { r with copies := r.copies + 1 }) := by
    intro r
    simp [Eval.copy, Eval.exec_bind]
  intro r r' enough enough' a b s s' left right
  rw [ran] at left right
  obtain ⟨copied, rfl⟩ := Prod.mk.inj left
  obtain ⟨copied', rfl⟩ := Prod.mk.inj right
  exact ⟨.copy enough enough' copied copied', Nat.le_succ_of_le enough, Nat.le_succ_of_le enough'⟩

namespace Node

theorem fallback_yields {source : Option Fallback} (calls : ∀ fn, source ≠ some (.call fn)) (code : String) :
    Yields (fun s => s.2 = []) (fallback h f code source) := by
  rw [fallback_eq]
  split
  · exact .pure rfl
  · rcases source with _ | v | r | fn | _
    · exact .pure rfl
    · exact Yields.bind .any fun _ _ => .pure rfl
    · exact Yields.bind .any fun _ _ => .pure rfl
    · exact absurd rfl (calls fn)
    · exact .pure rfl

theorem fallback_paired (beside : Frame.Beside k same f f') {source : Option Fallback}
    (calls : ∀ fn, source ≠ some (.call fn)) (refs : ∀ r, source ≠ some (.ref r)) (code : String) :
    Paired k (fun s s' => Datum.Like k s.1 s'.1 ∧ s.2 = [] ∧ s'.2 = []) (fallback h f code source)
      (fallback h f' code source) := by
  rw [fallback_eq, fallback_eq, beside.prefs.noDefaults]
  split
  · exact .pure ⟨rfl, rfl, rfl⟩
  · rcases source with _ | v | r | fn | _
    · exact .pure ⟨rfl, rfl, rfl⟩
    · refine Paired.bind (R := Datum.Like k) ?_ fun a b like => .pure ⟨like, rfl, rfl⟩
      split
      · exact Eval.copy_paired v
      · exact .pure rfl
    · exact absurd rfl (refs r)
    · exact absurd rfl (calls fn)
    · exact .pure ⟨rfl, rfl, rfl⟩

/-- An override that is no function puts one issue in place of any others. -/
theorem overridden_paired {source : Option ErrorOverride} (calls : ∀ fn, source ≠ some (.call fn)) (left : es ≠ [])
    (right : es' ≠ []) (begins_ : flat → Begins k same es es') :
    Paired k (fun ds ds' => Concur k flat same v ds w ds') (overridden h source es) (overridden h source es') := by
  rcases source with _ | e | fn
  · exact .pure (.reject left right begins_)
  · exact .pure (.reject (by simp) (by simp) fun _ => .of_eq rfl)
  · exact absurd rfl (calls fn)

theorem failover_paired (even : core.Even k) (beside : Frame.Beside k same f f')
    (concur : Concur k flat same v es w es') :
    Paired k (fun s s' => Concur k flat same s.1 s.2 s'.1 s'.2) (failover h core f v es)
      (failover h core f' w es') := by
  cases concur with
  | accept like => exact .pure (.accept like)
  | reject left right begins_ =>
      unfold failover
      rw [List.isEmpty_eq_false_iff.mpr left, List.isEmpty_eq_false_iff.mpr right]
      simp only [Bool.false_eq_true, if_false]
      refine (fallback_paired beside (fun fn same => even.fallback fn (.inr same))
        (fun r same => even.fallback_ref r (.inr same)) "any.failover").bind fun s s' found => ?_
      obtain ⟨u, more⟩ := s
      obtain ⟨x, more'⟩ := s'
      obtain ⟨like, rfl, rfl⟩ : Datum.Like k u x ∧ more = [] ∧ more' = [] := found
      simp only [like.isUndefined_eq, List.append_nil]
      split
      · exact .pure (.accept like)
      · exact (overridden_paired even.error left right begins_).bind fun ds ds' concur => .pure concur

/-- What a node does after its failover. -/
def complete (h : Hooks) (n : Node) (f : Frame) (v : Value) (errors : List Issue) : Eval Result := do
  let (v, errors) ← fill h n.core f v errors
  let v ← cast n.core f v
  queue n.core f
  deliver n.core f v errors

theorem settled_complete (n : Node) (f : Frame) : settled h n f = body h n f >>= fun s =>
    failover h n.core f s.1 s.2 >>= fun s => complete h n f s.1 s.2 := rfl

variable {n : Node}

theorem complete_grows (calls : n.core.CallsGrow freely h) (v : Value) (errors : List Issue) :
    Grows freely (complete h n f v errors) :=
  (fill_grows calls v errors).bind fun s => (Grows.lift _).bind fun u => queue_grows.bind fun _ =>
    deliver_grows (fun _ => (spares_freely _).here) u s.2

theorem complete_yields (even : n.core.Even k) (v : Value) (errors : List Issue) :
    Yields (fun r => r.errors = errors) (complete h n f v errors) := by
  have filled : Yields (fun s => s.2 = errors) (fill h n.core f v errors) := by
    unfold fill
    split
    · exact .pure rfl
    · refine (fallback_yields (fun fn same => even.fallback fn (.inl same)) _).bind fun s none => .pure ?_
      rw [none, List.append_nil]
  refine filled.bind fun s kept => Yields.bind .any fun u _ => Yields.bind .any fun _ _ => ?_
  unfold deliver
  cases n.core.result with
  | none => exact .pure kept
  | some mode => exact Yields.bind .any fun _ _ => .pure kept

theorem castValue_like (like : Datum.Like k v w) (kind : Kind) (form : Cast) {a b : Value}
    (left : castValue kind form v = .ok a) (right : castValue kind form w = .ok b) : Datum.Like k a b := by
  cases like.likeness with
  | same v =>
      rw [left] at right
      cases right
      rfl
  | _ =>
      cases kind <;> cases form <;> cases left <;> cases right <;> exact like

theorem cast_like (kind : f'.kind = f.kind) (like : Datum.Like k v w) {a b : Value} (left : cast core f v = .ok a)
    (right : cast core f' w = .ok b) : Datum.Like k a b := by
  unfold cast at left right
  rw [kind, like.isUndefined_eq] at right
  cases form : core.cast with
  | none =>
      simp only [form] at left right
      cases left
      cases right
      exact like
  | some c =>
      simp only [form] at left right
      split at left
      · rename_i absent
        rw [if_pos absent] at right
        cases left
        cases right
        exact like
      · rename_i present
        rw [if_neg present] at right
        exact castValue_like like f.kind c left right

theorem queue_paired (core : Core) (f f' : Frame) : Paired k (fun _ _ => True) (queue core f) (queue core f') :=
  .apart queue_grows queue_grows .any .any fun _ _ _ _ => trivial

theorem deliver_paired (beside : Frame.Beside k same f f') (like : Datum.Like k v w) :
    Paired k (fun a b => Concur k flat same a.value a.errors b.value b.errors) (deliver core f v [])
      (deliver core f' w []) := by
  unfold deliver
  cases core.result with
  | none => exact .pure (.accept like)
  | some mode =>
      have captured : Paired k (fun _ _ => True) (modify (Run.onJournal (Journal.capture f.site.path v)))
          (modify (Run.onJournal (Journal.capture f'.site.path w)) : Eval PUnit) := by
        intro r r' enough enough' a b s s' left right
        cases left
        cases right
        exact ⟨trivial, enough, enough'⟩
      refine captured.bind fun _ _ _ => .pure (.accept ?_)
      cases mode with
      | raw => exact beside.given
      | strip => rfl

theorem complete_paired (even : n.core.Even k) (beside : Frame.Beside k same f f') (like : Datum.Like k v w) :
    Paired k (fun a b => Concur k flat same a.value a.errors b.value b.errors) (complete h n f v [])
      (complete h n f' w []) := by
  have filled : Paired k (fun s s' => Datum.Like k s.1 s'.1 ∧ s.2 = [] ∧ s'.2 = []) (fill h n.core f v [])
      (fill h n.core f' w []) := by
    unfold fill
    rw [like.isUndefined_eq]
    split
    · exact .pure ⟨like, rfl, rfl⟩
    · exact (fallback_paired beside (fun fn same => even.fallback fn (.inl same))
        (fun r same => even.fallback_ref r (.inl same)) "any.default").bind fun s s' found =>
          .pure ⟨found.1, found.2.1, found.2.2⟩
  refine filled.bind fun s s' found => ?_
  obtain ⟨u, more⟩ := s
  obtain ⟨x, more'⟩ := s'
  obtain ⟨like, rfl, rfl⟩ : Datum.Like k u x ∧ more = [] ∧ more' = [] := found
  have casts : Paired k (Datum.Like k) (liftM (cast n.core f u) : Eval Value) (liftM (cast n.core f' x)) :=
    .lift fun a b left right => cast_like beside.kind like left right
  exact casts.bind fun a b like => (queue_paired n.core f f').bind fun _ _ _ => deliver_paired beside like

theorem settled_paired (concurs : n.Concurs k flat h) (beside : Frame.Beside k same f f') :
    Paired k (fun a b => Concur k flat same a.value a.errors b.value b.errors) (settled h n f) (settled h n f') := by
  rw [settled_complete, settled_complete]
  refine (body_paired concurs beside).bind fun s s' checked => ?_
  refine (failover_paired concurs.even beside checked).bind fun s s' concur => ?_
  obtain ⟨u, ds⟩ := s
  obtain ⟨x, ds'⟩ := s'
  cases concur with
  | accept like => exact complete_paired concurs.even beside like
  | reject left right begins_ =>
      refine .apart (complete_grows concurs.calls u ds) (complete_grows concurs.calls x ds')
        (complete_yields concurs.even u ds) (complete_yields concurs.even x ds') fun a b kept kept' => ?_
      rw [kept, kept']
      exact .reject left right begins_

theorem evaluate_concurs (concurs : n.Concurs k flat h) : Evaluator.Concurs k flat (n.evaluate h) := by
  intro same p p' sooner v w like s s' path
  have merged : Paired k (fun q q' => ∃ now, (same = true → now = true) ∧ Preferences.Sooner now q q')
      (liftM (n.merged p) : Eval Preferences) (liftM (n.merged p')) := by
    refine .lift fun q q' left right => ?_
    unfold Node.merged at left right
    cases override : n.core.prefs with
    | none =>
        simp only [override] at left right
        cases left
        cases right
        exact ⟨same, id, sooner⟩
    | some o =>
        simp only [override] at left right
        exact sooner.merge left right
  rw [evaluate_eq, evaluate_eq]
  refine merged.bind fun q q' now => ?_
  obtain ⟨now, kept, prefs⟩ := now
  rw [through_idle _ _ _ (.inl concurs.even.cache), through_idle _ _ _ (.inl concurs.even.cache)]
  have beside : Frame.Beside k now (n.frame v s q) (n.frame w s' q') := ⟨rfl, path, prefs, like⟩
  exact (settled_paired concurs beside).mono fun a b concur => concur.weaken kept

end Node

end Conform
