import Conform.Proofs.Early.Nodes
import Conform.Proofs.Located.Reports
import Conform.Proofs.Run.Brings
import Conform.Proofs.Spellings

/-!
# Nodes that report at their place

A node without functions of the caller reports at its own path, apart from what its base check reports, and what it
comes to holds no report. Where it only warns, the same is noted as a warning.
-/

namespace Conform

/-! ## Orderly schemas -/

/-- Whether nothing adjusts what a reference finds, and no value of its table holds a report. -/
def Reference.isOrderly (r : Reference) : Bool :=
  r.adjust.isNone && r.table.all fun pairs => pairs.all fun e => e.2.isReportFree

def ValueSet.isReportFree (set : ValueSet) : Bool := set.literalValues.all Datum.isReportFree

def Fallback.isReportFree : Option Fallback → Bool
  | some (.static v) => v.isReportFree
  | _ => true

/-- Whether settings name no function of the caller, no cache, no deep default and no report. -/
def Core.isOrderly (core : Core) : Bool :=
  core.isPlain && !Node.isDeep core.default && core.allowed.all ValueSet.isReportFree
    && core.denied.all ValueSet.isReportFree && Fallback.isReportFree core.default && Fallback.isReportFree core.failover

/-- Whether the keys of an object are pairwise different, no set in one of them lists a member twice and none holds a
report. -/
def Content.isOrderly : Content → Bool
  | .object (some ks) =>
    Content.hasDistinctKeys (.object (some ks)) && ks.all fun e => e.1.isProper && e.1.isReportFree
  | _ => true

/-- Whether no node of a schema names a function of the caller, a cache, a deep default or a report, and no object
declares a key twice. -/
def Schema.isOrderly (s : Schema) : Bool :=
  s.all fun core content => core.isOrderly && content.isOrderly && (core.refs ++ content.subjects).all Reference.isOrderly

/-- No warning of a node bears the code of the failures that tell others. -/
def Core.WarnsApart (core : Core) : Prop :=
  ∀ e ∈ core.rules, e.name = .warning → RuleEntry.arg "code" e.args ≠ nestingCode

/-- What a check of a whole schema says of a node. -/
structure Schema.Orderly (s : Schema) : Prop where
  plain : s.core.Plain
  undeep : Node.isDeep s.core.default = false
  sets : ∀ set, s.core.allowed = some set ∨ s.core.denied = some set → ∀ v ∈ set.literalValues, v.isReportFree
  fallbacks : ∀ v, s.core.default = some (.static v) ∨ s.core.failover = some (.static v) → v.isReportFree
  refs : ∀ r ∈ s.ownRefs, r.isOrderly
  content : s.content.isOrderly

theorem Schema.orderly_below {s t : Schema} (orderly : s.isOrderly) (below : s.Below t) : t.Orderly := by
  have here := all_below orderly below
  simp only [Core.isOrderly, Bool.and_eq_true, List.all_eq_true, Option.all_eq_true, Bool.not_eq_true'] at here
  obtain ⟨⟨⟨⟨⟨⟨⟨plain, undeep⟩, allowed⟩, denied⟩, default⟩, failover⟩, content⟩, refs⟩ := here
  have static : ∀ {o : Option Fallback}, Fallback.isReportFree o → ∀ v, o = some (.static v) → v.isReportFree := by
    rintro _ checked v rfl
    exact checked
  exact ⟨Core.isPlain.plain plain, undeep, fun set is => List.all_eq_true.mp (is.elim (allowed set) (denied set)),
    fun v is => is.elim (static default v) (static failover v), refs, content⟩

/-! ## What a node reads -/

namespace Bounds

variable {h : Hooks} {r : Reference} {t : Schema}

theorem reportFree_finish (orderly : r.isOrderly) {v : Value} (value : v.isReportFree) :
    reportFree.Meets (fun w => w.isReportFree) (r.finish h.adjust v) := by
  simp only [Reference.isOrderly, Bool.and_eq_true, Option.isNone_iff_eq_none, Option.all_eq_true] at orderly
  obtain ⟨plain, tables⟩ := orderly
  unfold Reference.finish
  rw [plain]
  cases table : r.table with
  | none => exact value
  | some pairs =>
      change (Reference.mapped pairs v).isReportFree
      unfold Reference.mapped
      split
      · rename_i e found
        exact List.all_eq_true.mp (tables pairs table) e (List.mem_of_find?_eq_some found)
      · exact value

theorem reportFree_reach {v : Value} (value : v.isReportFree) (p : Path) :
    reportFree.Meets (fun w => w.isReportFree) (reach v p) :=
  reportFree_meets fun _ found => isReportFree_reach value found

theorem reportFree_origin {v w : Value} {site : Site} (value : v.isReportFree) (siteIn : reportFree.SiteIn site)
    (found : r.origin? v site = some w) : w.isReportFree := by
  unfold Reference.origin? at found
  split at found
  · cases found
  · obtain rfl := Option.some.inj found
    cases last : site.ancestors.getLast? with
    | none => exact value
    | some a => exact siteIn.ancestors a (List.mem_of_getLast? last)
  · exact Option.some.inj found ▸ value
  · exact siteIn.ancestors w (List.mem_of_getElem? found)

theorem reportFree_lookup {shadow : Shadow} {p : Path} {v : Value} (held : shadow.Holds fun w => w.isReportFree)
    (found : shadow.lookup p = .ok v) : v.isReportFree := by
  unfold Shadow.lookup at found
  split at found
  · exact Except.ok.inj found ▸ held.get p rfl
  · cases found

theorem reportFree_resolves (orderly : r.isOrderly) : reportFree.ResolvesIn h r where
  same := trivial
  met shadow context v site held contextIn value siteIn := by
    unfold Reference.resolve
    cases target : r.target with
    | context =>
        refine meets_bind (reportFree_reach ?_ _) fun found free => reportFree_finish orderly free
        cases context with
        | none => rfl
        | some es => exact contextIn es rfl
    | root | ancestor n =>
        simp only
        cases origin : r.origin? v site with
        | none => rfl
        | some w =>
            have settled : ∀ captured : Value, captured.isReportFree → reportFree.Meets (fun w => w.isReportFree)
                (if captured.isUndefined then reach w r.pathValues >>= r.finish h.adjust
                  else pure captured >>= r.finish h.adjust) := by
              intro captured free
              split
              · exact meets_bind (reportFree_reach (reportFree_origin value siteIn origin) _) fun found free =>
                  reportFree_finish orderly free
              · exact reportFree_finish orderly free
            cases shadow with
            | none => exact settled .undefined rfl
            | some sh =>
                cases absolute : r.absolute site with
                | error f => exact trivial
                | ok p =>
                    cases lookup : sh.lookup p with
                    | error f =>
                        simp only [lookup, bind, Except.bind]
                        exact trivial
                    | ok captured =>
                        simp only [lookup, bind, Except.bind]
                        exact settled captured (reportFree_lookup (held sh rfl) lookup)

theorem reportFree_set (orderly : t.Orderly) {set : ValueSet} (is : t.core.allowed = some set ∨ t.core.denied = some set) :
    reportFree.SetIn h set where
  literals := orderly.sets set is
  refs r member := by
    refine reportFree_resolves (orderly.refs r ?_)
    simp only [Schema.ownRefs, Core.refs, Core.setRefs, List.mem_append]
    rcases is with allowed | denied
    · exact .inl (.inl (.inl (.inl (.inr (by simp [allowed, member])))))
    · exact .inl (.inl (.inl (.inr (by simp [denied, member]))))

theorem reportFree_fallback (orderly : t.Orderly) {source : Option Fallback}
    (is : t.core.default = source ∨ t.core.failover = source) : reportFree.FallbackIn .capturing h source := by
  rcases source with _ | v | r | fn | _
  · exact trivial
  · have free := orderly.fallbacks v is
    exact ⟨free, fun _ => ⟨fun n => reportFree_meets fun w copy => Datum.isReportFree_copy free copy,
      fun m n same => by rw [same trivial]⟩⟩
  · refine reportFree_resolves (orderly.refs r ?_)
    simp only [Schema.ownRefs, Core.refs, List.mem_append]
    rcases is with default | failover
    · exact .inl (.inl (.inr (by simp [default, Fallback.refs])))
    · exact .inl (.inr (by simp [failover, Fallback.refs]))
  · exact absurd is (orderly.plain.fallback fn)
  · exact trivial

end Bounds

namespace Node

variable {h : Hooks} {t : Schema} {f : Frame} {P : Path → Prop} {quiet : Prop} {v : Value} {errors : List Issue}

/-! ## The end of a node -/

/-- A value without reports, with issues that are located. -/
def StateLocated (P : Path → Prop) (s : Value × List Issue) : Prop := s.1.isReportFree ∧ ∀ i ∈ s.2, i.Located P

theorem fallback_located (orderly : t.Orderly) (frames : Bounds.reportFree.Frames f f) (code : String)
    {source : Option Fallback} (is : t.core.default = source ∨ t.core.failover = source) :
    Brings (ReportOf.Noted P quiet) (fun s => s.1.isReportFree ∧ s.2 = []) (fallback h f code source) := by
  intro r s after free ran
  have alike := frames.fallback (h := h) Bounds.reportFree_lawful code (Bounds.reportFree_fallback orderly is)
  obtain ⟨becomes, value, -⟩ := Brings.ofAlike (W := ReportOf.Noted P quiet) alike r s after free ran
  refine ⟨becomes, value, ?_⟩
  rw [fallback_eq] at ran
  split at ran
  · cases ran
    rfl
  · rcases source with _ | v | q | fn | _
    · cases ran
      rfl
    · obtain ⟨w, between, -, ran⟩ := Eval.bind_ok ran
      cases ran
      rfl
    · obtain ⟨w, between, -, ran⟩ := Eval.bind_ok ran
      cases ran
      rfl
    · exact absurd is (orderly.plain.fallback fn)
    · cases ran
      rfl

theorem overridden_located {source : Option ErrorOverride} (calls : ∀ fn, source ≠ some (.call fn))
    (located : ∀ i ∈ errors, i.Located P) :
    Brings (ReportOf.Noted P quiet) (fun is => ∀ i ∈ is, i.Located P) (overridden h source errors) := by
  rcases source with _ | e | fn
  · exact .pure located
  · exact .pure (List.forall_mem_singleton.mpr trivial)
  · exact absurd rfl (calls fn)

theorem failover_located (orderly : t.Orderly) (frames : Bounds.reportFree.Frames f f)
    (state : StateLocated P (v, errors)) :
    Brings (ReportOf.Noted P quiet) (StateLocated P) (failover h t.core f v errors) := by
  unfold failover
  split
  · exact .pure ⟨state.1, List.forall_mem_nil _⟩
  · refine (fallback_located orderly frames "any.failover" (.inr rfl)).bind fun found isFree => ?_
    obtain ⟨w, more⟩ := found
    obtain ⟨free, rfl⟩ := isFree
    simp only
    split
    · exact .pure ⟨free, List.forall_mem_nil _⟩
    · rw [List.append_nil]
      exact (overridden_located orderly.plain.error state.2).bind fun is located => .pure ⟨state.1, located⟩

theorem fill_located (orderly : t.Orderly) (frames : Bounds.reportFree.Frames f f) (state : StateLocated P (v, errors)) :
    Brings (ReportOf.Noted P quiet) (StateLocated P) (fill h t.core f v errors) := by
  unfold fill
  split
  · exact .pure state
  · refine (fallback_located orderly frames "any.default" (.inl rfl)).bind fun found isFree => ?_
    obtain ⟨w, more⟩ := found
    obtain ⟨free, rfl⟩ := isFree
    simp only [List.append_nil]
    exact .pure ⟨free, state.2⟩

/-- A result without reports in its value, with issues that are located. -/
def ResultLocated (P : Path → Prop) (r : Result) : Prop := StateLocated P (r.value, r.errors)

theorem deliver_located (core : Core) (frames : Bounds.reportFree.Frames f f) (state : StateLocated P (v, errors)) :
    Brings (ReportOf.Noted P quiet) (ResultLocated P) (deliver core f v errors) := by
  intro r result s free ran
  have stateIn : Bounds.reportFree.StateIn (v, errors) := ⟨state.1, Bounds.reportFree_issues errors⟩
  have alike : Alike .reportFree .capturing Bounds.reportFree.ResultIn (deliver core f v errors) (deliver core f v errors) :=
    frames.deliver (fun _ => trivial) Bounds.reportFree_lawful stateIn
  obtain ⟨becomes, value, -⟩ := Brings.ofAlike (W := ReportOf.Noted P quiet) alike r result s free ran
  refine ⟨becomes, value, ?_⟩
  unfold deliver at ran
  split at ran
  · cases ran
    exact state.2
  · cases ran
    exact state.2

theorem finishing_located (orderly : t.Orderly) (frames : Bounds.reportFree.Frames f f)
    (state : StateLocated P (v, errors)) :
    Brings (ReportOf.Noted P quiet) (ResultLocated P) (finishing h t.core f v errors) := by
  have cast_free : ∀ {w u : Value}, w.isReportFree → cast t.core f w = .ok u → u.isReportFree := by
    intro w u free ran
    unfold cast at ran
    split at ran
    · exact Except.ok.inj ran ▸ free
    · split at ran
      · exact Except.ok.inj ran ▸ free
      · exact isReportFree_cast free ran
  have queued : Brings (ReportOf.Noted P quiet) (fun _ => True) (queue t.core f) := by
    refine .ofAlike (frames.queue fun _ fn member => ?_)
    rw [orderly.plain.externals] at member
    cases member
  refine (failover_located orderly frames state).bind fun s failed => ?_
  refine (fill_located orderly frames failed).bind fun s filled => ?_
  refine (Brings.lift fun u ran => cast_free filled.1 ran).bind fun u free => ?_
  refine queued.bind fun _ _ => deliver_located t.core frames ⟨free, filled.2⟩

/-! ## Rules -/

theorem resolveArgs_located (orderly : t.Orderly) (frames : Bounds.reportFree.Frames f f) (place : P f.site.path)
    (value : v.isReportFree) (spec : RuleSpec) {refs : List (String × Reference)} (known : ∀ a ∈ refs, a.2 ∈ t.ownRefs)
    (args : List (String × Value)) :
    Brings (ReportOf.Noted P quiet) (fun o => (∀ r, o = .error r → r.Single P) ∧
      ∀ resolved, o = .ok resolved → ∀ name, name ∉ refs.map Prod.fst → RuleEntry.arg name resolved = RuleEntry.arg name args)
      (resolveArgs h f v spec refs args) := by
  induction refs generalizing args with
  | nil =>
      refine .pure ⟨fun r failed => ?_, fun resolved same name _ => ?_⟩
      · cases failed
      · rw [Except.ok.inj same]
  | cons a rest ih =>
      obtain ⟨here, later⟩ := List.forall_mem_cons.mp known
      rw [resolveArgs]
      have found := frames.resolve (h := h) (ε := .capturing) Bounds.reportFree_lawful
        (Bounds.reportFree_resolves (orderly.refs a.2 here)) value
      refine (Brings.ofAlike found).bind fun w _ => ?_
      refine (Brings.lift (Q := fun _ => True) fun _ _ => trivial).bind fun accepted _ => ?_
      split
      · refine (ih later _).mono fun o answered => ⟨answered.1, fun resolved same name others => ?_⟩
        rw [List.map_cons, List.mem_cons, not_or] at others
        rw [answered.2 resolved same name others.2]
        exact RuleEntry.arg_setArg_other (Ne.symm others.1) _ args
      · refine .pure ⟨fun r failed => ?_, fun resolved same => ?_⟩
        · obtain rfl := Except.error.inj failed
          exact f.reportAt_single place (by decide) w _
        · cases same

theorem warning_code {kind : Kind} {e : RuleEntry} (formed : e.Formed kind) (warns : e.name = .warning) :
    "code" ∉ e.refs.map Prod.fst := by
  intro member
  obtain ⟨a, below, named⟩ := List.mem_map.mp member
  have admits := (formed.refs a below).1
  rw [named, RuleEntry.spec, warns] at admits
  cases kind <;> cases admits

theorem reply_located (orderly : t.Orderly) (formed : t.Formed)
    (apart : quiet → t.core.WarnsApart)
    (frames : Bounds.reportFree.Frames f f) (place : P f.site.path) (value : v.isReportFree) (spec : RuleSpec)
    {e : RuleEntry} (member : e ∈ t.core.rules) :
    Brings (ReportOf.Noted P quiet) (Reply.Single P v) (reply h f v spec e) := by
  have known : ∀ a ∈ e.refs, a.2 ∈ t.ownRefs := by
    intro a inside
    simp only [Schema.ownRefs, Core.refs, List.mem_append, List.mem_flatMap, List.mem_map]
    exact .inl (.inl (.inl (.inl (.inl ⟨e, member, a, inside, rfl⟩))))
  refine (resolveArgs_located orderly frames place value spec known e.args).bind fun o answered => ?_
  cases o with
  | error r => exact .pure (.reports (List.forall_mem_singleton.mpr (answered.1 r rfl)))
  | ok args =>
      refine Brings.bind (Q := Reply.Single P v) ?_ fun a single => .pure ?_
      · by_cases warns : e.name = .warning
        · have code := answered.2 args rfl "code" (warning_code (formed.core.rules e member) warns)
          rw [warns, Rule.test_warning]
          refine (Brings.warn ⟨place, fun isQuiet => ReportOf.Single.located ⟨place, ?_⟩⟩).bind fun _ _ => .pure .value
          show RuleEntry.arg "code" args ≠ nestingCode
          rw [code]
          exact apart isQuiet e member warns
        · rw [Rule.test_verdict (orderly.plain.custom e member) warns]
          exact .lift fun a ran => Rule.verdict_single (f := { f with current := v }) place ran
      · cases single with
        | value =>
            rw [Reply.normal_free value]
            exact .value
        | reports each => exact .reports each

/-- Rules leave a value as it is. What they report stands at the node, and so does what they warn of. -/
theorem applyRules_located (orderly : t.Orderly) (formed : t.Formed)
    (apart : quiet → t.core.WarnsApart)
    (frames : Bounds.reportFree.Frames f f) (place : P f.site.path) {rules : List RuleEntry} (subset : rules ⊆ t.core.rules)
    (state : StateLocated P (v, errors)) :
    Brings (ReportOf.Noted P quiet) (StateLocated P) (applyRules h f rules v errors) := by
  induction rules generalizing errors with
  | nil => exact .pure state
  | cons e rest ih =>
      have others : ∀ {errors : List Issue}, StateLocated P (v, errors) →
          Brings (ReportOf.Noted P quiet) (StateLocated P) (applyRules h f rest v errors) :=
        ih fun d member => subset (List.mem_cons_of_mem e member)
      rw [applyRules]
      split
      · exact others state
      · have answered := reply_located (h := h) orderly formed apart frames place state.1
          ((f.kind.rule? e.name).getD { name := e.name }) (subset (List.mem_cons_self ..))
        refine answered.bind fun a single => ?_
        cases single with
        | value => exact others state
        | @reports rs each =>
            have single : ∀ r ∈ rs.map (ReportOf.withMessage e.message), r.Single P := by
              intro r member
              obtain ⟨q, inside, rfl⟩ := List.mem_map.mp member
              exact (each q inside).withMessage e.message
            have located : ∀ i ∈ (rs.map (ReportOf.withMessage e.message)).map Issue.report, i.Located P := by
              intro i member
              obtain ⟨q, inside, rfl⟩ := List.mem_map.mp member
              exact (single q inside).located
            simp only
            split
            · exact (Brings.warnAll fun r member => (single r member).noted quiet).bind fun _ _ => others state
            · split
              · exact .pure ⟨state.1, located⟩
              · exact others ⟨state.1, List.forall_mem_append.mpr ⟨state.2, located⟩⟩

/-! ## The way to the base check -/

/-- A decision with a value without reports and with issues that are located. -/
def VerdictLocated (P : Path → Prop) : Verdict → Prop
  | .goOn v errors => StateLocated P (v, errors)
  | .finished v errors => StateLocated P (v, errors)

theorem prepare_located {kind : Kind} (place : P f.site.path) {o : Outcome} (prepared : prepare kind f v = some o) :
    StateLocated P (o.value, o.errors) := by
  refine ⟨isReportFree_prepare prepared, ?_⟩
  unfold prepare at prepared
  split at prepared
  · split at prepared
    · cases prepared
      exact Issue.located_single (f.fail_single place (by decide) _)
    · cases prepared
      exact List.forall_mem_nil _
    · cases prepared
  · cases prepared

theorem coerce_located {core : Core} {content : Content} (place : P f.site.path) {o : Outcome}
    (coerced : coerce core content f v = some o) : StateLocated P (o.value, o.errors) := by
  have plain : ∀ {w : Option Value}, w.map (fun w => ({ value := w } : Outcome)) = some o → ∀ i ∈ o.errors, i.Located P := by
    intro w is
    obtain ⟨u, -, rfl⟩ := Option.map_eq_some_iff.mp is
    exact List.forall_mem_nil _
  refine ⟨isReportFree_coerce coerced, ?_⟩
  unfold coerce at coerced
  split at coerced
  · exact plain coerced
  · exact plain coerced
  · exact plain coerced
  · unfold coerceProbe at coerced
    split at coerced
    · split at coerced
      · cases coerced
        refine List.forall_mem_cons.mpr ⟨(f.fail_single place (by decide) _).located, ?_⟩
        exact Issue.located_single (f.fail_single place (by decide) _)
      · cases coerced
    · cases coerced
      exact List.forall_mem_nil _
    · cases coerced
  · cases coerced

theorem convertStep_located {step : Value → Option Outcome} (value : v.isReportFree)
    (each : ∀ o, step v = some o → StateLocated P (o.value, o.errors)) : VerdictLocated P (convertStep f step v) := by
  unfold convertStep
  split
  · exact ⟨value, List.forall_mem_nil _⟩
  · split
    · exact ⟨value, List.forall_mem_nil _⟩
    · exact ⟨(each _ ‹_›).1, List.forall_mem_nil _⟩
    · exact each _ ‹_›

theorem convert_located {n : Node} (place : P f.site.path) (value : v.isReportFree) : VerdictLocated P (n.convert f v) := by
  have prepared : VerdictLocated P (convertStep f (prepare f.kind f) v) :=
    convertStep_located value fun o => prepare_located place
  unfold convert
  split
  · rename_i finished
    rwa [finished] at prepared
  · rename_i w _ goesOn
    rw [goesOn] at prepared
    exact convertStep_located prepared.1 fun o => coerce_located place

theorem find_located (orderly : t.Orderly) (frames : Bounds.reportFree.Frames f f) {set : ValueSet}
    (is : t.core.allowed = some set ∨ t.core.denied = some set) (insensitive : Bool) (value : v.isReportFree) :
    Brings (ReportOf.Noted P quiet) (fun o => ∀ found, o = some found → found.value.isReportFree)
      (find h f insensitive v set) :=
  .ofAlike (frames.find Bounds.reportFree_lawful (Bounds.reportFree_set orderly is) insensitive value)

theorem vetted_located (orderly : t.Orderly) (frames : Bounds.reportFree.Frames f f) (place : P f.site.path)
    (value : v.isReportFree) :
    Brings (ReportOf.Noted P quiet) (VerdictLocated P) (vetted h (t.toNode h) f v) := by
  have allowed : Brings (ReportOf.Noted P quiet) (VerdictLocated P) (checkAllowed h t.core f v) := by
    unfold checkAllowed
    split
    · exact .pure ⟨value, List.forall_mem_nil _⟩
    · refine (find_located orderly frames (.inl ‹_›) t.core.insensitive value).bind fun o free => ?_
      have issue : ∀ vs, ∀ i ∈ [Issue.report (f.report "any.only" v [(.str "valids", vs)])], i.Located P := fun vs =>
        Issue.located_single (f.reportAt_single place (by decide) v _)
      cases o with
      | some found =>
          refine .pure ⟨?_, List.forall_mem_nil _⟩
          split
          · exact free found rfl
          · exact value
      | none =>
          simp only
          split
          · refine .pure ?_
            split
            · exact ⟨value, issue _⟩
            · exact ⟨value, issue _⟩
          · exact .pure ⟨value, List.forall_mem_nil _⟩
  have denied : ∀ w es, StateLocated P (w, es) →
      Brings (ReportOf.Noted P quiet) (VerdictLocated P) (checkDenied h t.core f w es) := by
    intro w es state
    unfold checkDenied
    split
    · exact .pure state
    · refine (find_located orderly frames (.inr ‹_›) t.core.insensitive state.1).bind fun o _ => ?_
      have issue : ∀ vs, ∀ i ∈ [Issue.report (f.report "any.invalid" w [(.str "invalids", vs)])], i.Located P := fun vs =>
        Issue.located_single (f.reportAt_single place (by decide) w _)
      cases o with
      | none => exact .pure state
      | some found =>
          simp only
          refine .pure ?_
          split
          · exact ⟨state.1, issue _⟩
          · exact ⟨state.1, List.forall_mem_append.mpr ⟨state.2, issue _⟩⟩
  refine allowed.bind fun verdict located => ?_
  cases verdict with
  | finished w es => exact .pure located
  | goOn w es => exact denied w es located

theorem emptied_located {n : Node} (grows : ∀ e, n.empty = some e → e.Grows) (value : v.isReportFree) :
    Brings (ReportOf.Noted P quiet) (fun w => w.isReportFree) (emptied n f v) := by
  unfold emptied
  split
  · exact .pure value
  · have asked : Brings (ReportOf.Noted P quiet) (fun _ => True) (accepts _ (trimmed n.core v) f.site {}) :=
      (Brings.withoutTrace (grows _ ‹_› _ _ _)).bind fun _ _ => .pure trivial
    refine asked.bind fun accepted _ => .pure ?_
    split
    · rfl
    · exact value

theorem approach_located (orderly : t.Orderly) (grows : ∀ e, (t.toNode h).empty = some e → e.Grows)
    (frames : Bounds.reportFree.Frames f f) (place : P f.site.path) :
    Brings (ReportOf.Noted P quiet) (VerdictLocated P) (approach h (t.toNode h) f) := by
  have converted := convert_located (n := t.toNode h) place frames.value
  have report : ∀ {code : String}, code ≠ "alternatives.match" → ∀ w, ∀ i ∈ [Issue.report (f.report code w [])], i.Located P :=
    fun single w => Issue.located_single (f.reportAt_single place single w [])
  unfold approach
  split
  · rename_i finished
    rw [finished] at converted
    exact .pure converted
  · rename_i goesOn
    rw [goesOn] at converted
    refine (emptied_located grows converted.1).bind fun w free => ?_
    have nothing : StateLocated P (w, []) := ⟨free, List.forall_mem_nil _⟩
    have vets : Brings (ReportOf.Noted P quiet) (VerdictLocated P) (vetted h (t.toNode h) f w) :=
      vetted_located orderly frames place free
    unfold approachPresence
    split
    · split
      · exact .pure nothing
      · exact .pure ⟨free, report (by decide) w⟩
      · have undeep : isDeep (t.toNode h).core.default = false := orderly.undeep
        rw [undeep]
        exact .pure nothing
      · exact vets
    · split
      · exact .pure ⟨free, report (by decide) w⟩
      · exact vets

/-! ## Whole nodes -/

/-- An outcome without reports in its value, with issues that are located, or nothing. -/
def OutcomeLocated (P : Path → Prop) (o : Option Outcome) : Prop := ∀ u, o = some u → StateLocated P (u.value, u.errors)

/-- A node reports what its base check reports of the value that comes to it, and otherwise at its own path. -/
theorem settled_located (orderly : t.Orderly) (formed : t.Formed) (grows : ∀ e, (t.toNode h).empty = some e → e.Grows)
    (apart : quiet → t.core.WarnsApart)
    (frames : Bounds.reportFree.Frames f f) (place : P f.site.path)
    (base : ∀ w : Value, w.isReportFree → (w = .undefined ∨ ∃ is, (t.toNode h).convert f f.given = .goOn w is) →
      Brings (ReportOf.Noted P quiet) (OutcomeLocated P) ((t.toNode h).base { f with current := w } w)) :
    Brings (ReportOf.Noted P quiet) (ResultLocated P) (settled h (t.toNode h) f) := by
  rw [settled_eq, body_eq]
  refine Brings.bind (Q := StateLocated P) ?_ fun s located => finishing_located orderly frames located
  -- The run before the base check is kept in hand: it tells which value the base check gets.
  have approaches : Brings (ReportOf.Noted P quiet) (VerdictLocated P) (approach h (t.toNode h) f) :=
    approach_located orderly grows frames place
  refine approaches.ran.bind fun verdict came => ?_
  obtain ⟨located, r, r', ran⟩ := came
  cases verdict with
  | finished w es => exact .pure located
  | goOn w es =>
      simp only
      rw [checkBase_eq]
      refine (base w located.1 (approach_value orderly.undeep ran)).bind fun o outcome => ?_
      have rules : ∀ {u : Value}, u.isReportFree →
          Brings (ReportOf.Noted P quiet) (StateLocated P) (applyRules h f t.core.rules u es) := fun free =>
        applyRules_located orderly formed apart frames place (List.Subset.refl _) ⟨free, located.2⟩
      rcases o with _ | ⟨u, _ | ⟨i, is⟩⟩
      · exact rules located.1
      · exact rules (outcome _ rfl).1
      · exact .pure ⟨(outcome _ rfl).1, List.forall_mem_append.mpr ⟨located.2, (outcome _ rfl).2⟩⟩

end Node

end Conform
