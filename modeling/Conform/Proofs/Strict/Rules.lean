import Conform.Proofs.Calm
import Conform.Proofs.Early.Nodes
import Conform.Proofs.Run.Warned
import Conform.Proofs.Schema.Laws
import Conform.Proofs.Text.Case

/-!
# Rules without conversion

A rule judges a value alike whether values are converted or not, and the rules done by conversion hold of the texts
that conversion makes. So the rules that a converted value passes are passed again.
-/

namespace Conform

def Preferences.strict (p : Preferences) : Preferences := { p with convert := false }

/-- Frames of one node, of which the second checks strictly where the first converts. -/
structure Frame.Recheck (f f' : Frame) : Prop where
  kind : f'.kind = f.kind
  prefs : f'.prefs = f.prefs.strict

variable {h : Hooks} {told : Value → Dict → Prop} {f f' : Frame} {v : Value} {kind : Kind}

theorem Frame.Recheck.withCurrent (recheck : f.Recheck f') (u w : Value) :
    Frame.Recheck { f with current := u } { f' with current := w } := ⟨recheck.kind, recheck.prefs⟩

theorem Frame.recheck (f : Frame) : f.Recheck { f with prefs := f.prefs.strict } := ⟨rfl, rfl⟩

/-! ## Reports -/

namespace ReportOf

/-- Reports with the same message, for nodes that may stand at different places. -/
structure Shares (r r' : Report) : Prop where
  code : r'.code = r.code
  template : r'.template = r.template
  locals : r'.locals = r.locals

theorem Shares.refl (r : Report) : Shares r r := ⟨rfl, rfl, rfl⟩

theorem Shares.tells {r r' : Report} (shares : Shares r r') (tells : r.Tells told) : r'.Tells told := by
  unfold Tells at tells ⊢
  rwa [shares.template, shares.locals]

theorem Shares.withMessage {r r' : Report} (shares : Shares r r') (m : Value) :
    Shares (r.withMessage m) (r'.withMessage m) := by
  unfold ReportOf.withMessage
  rw [shares.code]
  split
  · exact ⟨rfl, rfl, shares.locals⟩
  · split
    · exact ⟨rfl, rfl, shares.locals⟩
    · exact shares
  · exact shares

theorem Shares.all_tell {rs rs' : List Report} {m : Value} (shares : List.Forall₂ Shares rs rs')
    (tell : ∀ w ∈ rs.map (ReportOf.withMessage m), w.Tells told) : ∀ r ∈ rs', (r.withMessage m).Tells told := by
  induction shares with
  | nil => exact List.forall_mem_nil _
  | cons head _ ih =>
      rw [List.map_cons, List.forall_mem_cons] at tell
      exact List.forall_mem_cons.mpr ⟨(head.withMessage m).tells tell.1, ih tell.2⟩

end ReportOf

theorem Frame.Recheck.shares (recheck : f.Recheck f') (s s' : Site) (code u w : Value) (locals : Dict) :
    ReportOf.Shares (f.reportUnder s code u locals) (f'.reportUnder s' code w locals) := by
  refine ⟨rfl, ?_, rfl⟩
  unfold Frame.reportUnder Conform.report
  rw [recheck.prefs]
  rfl

/-! ## Verdicts -/

namespace Rule

/-- What is decided of a value, the same in all frames of a kind: it is left alone, or refused under certain codes. -/
def Decides (kind : Kind) (v : Value) (x : Frame → Except Fault Reply) : Prop :=
  ∃ (judged : Except Fault Bool) (ls : List (String × Dict)), ls ≠ [] ∧ ∀ f : Frame, f.kind = kind →
    x f = judged.map fun holds => if holds then .value v else .reports (ls.map fun l => f.fail l.1 l.2)

namespace Decides

theorem choice (judged : Except Fault Bool) (code : String) (locals : Dict) :
    Decides kind v fun f => do return if ← judged then .value v else .reports [f.fail code locals] := by
  refine ⟨judged, [(code, locals)], List.cons_ne_nil _ _, fun f _ => ?_⟩
  cases judged <;> rfl

theorem decided (holds : Bool) (code : String) (locals : Dict) :
    Decides kind v fun f => pure (if holds then .value v else .reports [f.fail code locals]) :=
  choice (.ok holds) code locals

theorem value : Decides kind v fun _ => pure (.value v) :=
  ⟨.ok true, [("", [])], List.cons_ne_nil _ _, fun _ _ => rfl⟩

theorem error (fault : Fault) : Decides kind v fun _ => .error fault :=
  ⟨.error fault, [("", [])], List.cons_ne_nil _ _, fun _ _ => rfl⟩

theorem congr {x y : Frame → Except Fault Reply} (decides : Decides kind v x)
    (same : ∀ f : Frame, f.kind = kind → y f = x f) : Decides kind v y := by
  obtain ⟨judged, ls, some, each⟩ := decides
  exact ⟨judged, ls, some, fun f isKind => (same f isKind).trans (each f isKind)⟩

end Decides

theorem testPattern_decides (args : List (String × Value)) : Decides kind v fun f => testPattern f v args := by
  unfold testPattern
  split
  · rename_i source _
    cases Pattern.read? source with
    | none => exact .error _
    | some p =>
        simp only
        split
        · rename_i s
          by_cases matched : p.search s != (RuleEntry.arg "invert" args).truthy
          · simp only [matched, if_true]
            exact .value
          · simp only [matched, Bool.false_eq_true, if_false]
            by_cases named : (RuleEntry.arg "name" args).truthy
            · simp only [named, if_true]
              exact .decided false _ _
            · simp only [named, Bool.false_eq_true, if_false]
              exact .decided false _ _
        · exact .error _
  · exact .error _

theorem testTrim_decides (args : List (String × Value)) : Decides kind v fun f => testTrim f v args := by
  unfold testTrim
  by_cases enabled : (RuleEntry.arg "enabled" args).truthy
  · simp only [enabled, Bool.not_true, Bool.false_eq_true, if_false, pure_bind]
    split
    · exact .decided _ _ _
    · exact .decided _ _ _
    · exact .decided false _ _
    · exact .error _
  · simp only [enabled, Bool.not_false, if_true]
    exact .value

theorem testCase_decides (args : List (String × Value)) : Decides kind v fun f => testCase f v args := by
  unfold testCase
  simp only [pure_bind]
  split
  · split
    · exact .decided _ _ _
    · exact .decided _ _ _
  · split
    · exact .decided _ _ _
    · exact .decided _ _ _
  · exact .error _

theorem testLimit_decides (args : List (String × Value)) : Decides kind v fun f => testLimit f v args := by
  unfold testLimit
  simp only
  split
  · rename_i s
    cases compare (· == .gt) (.int s.length) (RuleEntry.arg "n" args) with
    | error fault => exact .error fault
    | ok longer =>
        refine ⟨.ok !longer, [("probe.limit", [(.str "n", RuleEntry.arg "n" args)]), ("probe.limit2", [])],
          List.cons_ne_nil _ _, fun f _ => ?_⟩
        cases longer <;> rfl
  · exact .value

theorem comparison_decides {name : RuleName} (compares : (comparison? name).isSome) (args : List (String × Value)) :
    Decides kind v fun f => verdict name f v args := by
  have decides : Decides kind v fun f => do
      return if ← measured kind name v (RuleEntry.arg "limit" args) then .value v
      else .reports [f.fail (kind.name ++ "." ++ name.text) [(.str "limit", RuleEntry.arg "limit" args)]] := .choice _ _ _
  refine decides.congr fun f isKind => ?_
  rw [verdict_measured compares, isKind]
  rfl

theorem verdict_decides (name : RuleName) (args : List (String × Value)) :
    Decides kind v fun f => verdict name f v args := by
  cases name with
  | custom | warning => exact .value
  | integer => exact .choice _ _ _
  | multiple => exact .choice _ _ _
  | pattern => exact testPattern_decides args
  | trim => exact testTrim_decides args
  | case => exact testCase_decides args
  | limit => exact testLimit_decides args
  | min | max | greater | less | length => exact comparison_decides rfl args

end Rule

/-! ## Answers -/

/-- Answers that leave the value alone, or report the same. -/
inductive Reply.Same (v : Value) : Reply → Reply → Prop
  | value : Same v (.value v) (.value v)
  | reports {rs rs' : List Report} (some : rs ≠ []) (shares : List.Forall₂ ReportOf.Shares rs rs') :
      Same v (.reports rs) (.reports rs')

theorem Reply.Same.normal {a b : Reply} (same : Same v a b) : Same v a.normal b.normal := by
  cases same with
  | value =>
      simp only [Reply.normal]
      cases found : reports? v with
      | none => exact .value
      | some rs => exact .reports (reports?_ne_nil found) (List.forall₂_same.mpr fun r _ => .refl r)
  | reports some shares => exact .reports some shares

theorem Rule.Decides.again {x : Frame → Except Fault Reply} (decides : Rule.Decides kind v x) (isKind : f.kind = kind)
    (recheck : f.Recheck f') {a : Reply} (ran : x f = .ok a) : ∃ b, x f' = .ok b ∧ Reply.Same v a b := by
  obtain ⟨judged, ls, some, each⟩ := decides
  rw [each f isKind] at ran
  rw [each f' (recheck.kind.trans isKind)]
  cases judged with
  | error fault => cases ran
  | ok holds =>
      obtain rfl := Except.ok.inj ran
      refine ⟨_, rfl, ?_⟩
      cases holds with
      | true => exact .value
      | false =>
          refine .reports (by simpa using some) ?_
          simp only [List.forall₂_map_left_iff, List.forall₂_map_right_iff]
          exact List.forall₂_same.mpr fun l _ => recheck.shares _ _ _ _ _ _

namespace Node

variable {e : RuleEntry}

theorem reply_literal (refs : e.refs = []) (f : Frame) (v : Value) (spec : RuleSpec) :
    reply h f v spec e = Rule.test h e.name { f with current := v } v e.args >>= fun a => pure a.normal := by
  unfold reply
  rw [refs, resolveArgs, pure_bind]

theorem reply_again (refs : e.refs = []) (calls : e.name ≠ .custom) (f : Frame) (v : Value) (spec : RuleSpec) :
    Warns told (fun a => ∀ f', f.Recheck f' → ∃ b, Gives told b (reply h f' v spec e) ∧ Reply.Same v a b)
      (reply h f v spec e) := by
  have answered : Warns told (fun a => ∀ f', f.Recheck f' →
      ∃ b, Gives told b (Rule.test h e.name { f' with current := v } v e.args) ∧ Reply.Same v a b)
      (Rule.test h e.name { f with current := v } v e.args) := by
    by_cases warns : e.name = .warning
    · rw [warns, Rule.test_warning]
      refine (Warns.warn _).bind fun _ => Warns.pure fun tell f' recheck => ⟨.value v, ?_, .value⟩
      rw [Rule.test_warning]
      refine (Gives.warn ?_).bind .pure
      exact ((recheck.withCurrent v v).shares f.site f'.site _ v v _).tells tell
    · rw [Rule.test_verdict calls warns]
      refine Warns.lift fun a ran f' recheck => ?_
      obtain ⟨b, ran', same⟩ := (Rule.verdict_decides e.name e.args).again rfl (recheck.withCurrent v v) ran
      rw [Rule.test_verdict calls warns]
      exact ⟨b, .lift ran', same⟩
  rw [reply_literal refs]
  refine answered.bind fun a => Warns.pure fun again f' recheck => ?_
  obtain ⟨b, gives, same⟩ := again f' recheck
  rw [reply_literal refs]
  exact ⟨b.normal, gives.bind .pure, same.normal⟩

/-! ## Runs of rules -/

/-- A rule passes a value in the strict checks that repeat those of a frame: it leaves the value alone, or only warns. -/
def Passes (h : Hooks) (told : Value → Dict → Prop) (f : Frame) (v : Value) (e : RuleEntry) : Prop :=
  ∀ f', f.Recheck f' → Gives told (.value v) (reply h f' v (e.spec f.kind) e) ∨
    ∃ rs, Gives told (.reports rs) (reply h f' v (e.spec f.kind) e) ∧ e.warn.truthy ∧
      ∀ r ∈ rs, (r.withMessage e.message).Tells told

/-- Where no rule fails the value stays, and the rules that were tested pass it again. -/
theorem applyRules_warns {rules : List RuleEntry} (refs : ∀ e ∈ rules, e.refs = [])
    (calls : ∀ e ∈ rules, e.name ≠ .custom) (v : Value) (errors : List Issue) :
    Warns told (fun s => s.2 = [] → errors = [] ∧ s.1 = v ∧
      ∀ e ∈ rules, (e.spec f.kind).byConversion = false → Passes h told f v e) (applyRules h f rules v errors) := by
  induction rules generalizing v errors with
  | nil => exact .pure fun none => ⟨none, rfl, List.forall_mem_nil _⟩
  | cons e rest ih =>
      have others := ih (fun d member => refs d (by simp [member])) fun d member => calls d (by simp [member])
      rw [applyRules]
      change Warns told _ (if (e.spec f.kind).byConversion && f.prefs.convert then _ else
        reply h f v (e.spec f.kind) e >>= _)
      split
      · rename_i skipped
        refine (others v errors).mono fun s passed none => ?_
        obtain ⟨clear, same, each⟩ := passed none
        refine ⟨clear, same, List.forall_mem_cons.mpr ⟨fun tested => ?_, each⟩⟩
        simp [tested] at skipped
      · refine (reply_again (refs e (by simp)) (calls e (by simp)) f v _).bind fun a => ?_
        cases a with
        | value w =>
            refine (others w errors).mono fun s passed again none => ?_
            obtain ⟨clear, same, each⟩ := passed none
            -- The answer is the same value in some other frame, so the rule gave back its own.
            have alone : w = v := by
              obtain ⟨b, -, same⟩ := again _ f.recheck
              cases same
              rfl
            subst alone
            refine ⟨clear, same, List.forall_mem_cons.mpr ⟨fun _ f' recheck => ?_, each⟩⟩
            obtain ⟨b, gives, same⟩ := again f' recheck
            cases same
            exact .inl gives
        | reports rs =>
            have some : (∀ f', f.Recheck f' → ∃ b, Gives told b (reply h f' v (e.spec f.kind) e) ∧
                Reply.Same v (.reports rs) b) → (rs.map (ReportOf.withMessage e.message)).map Issue.report ≠ [] := by
              intro again
              obtain ⟨b, -, same⟩ := again _ f.recheck
              cases same with
              | reports some _ => simpa using some
            simp only
            split
            · rename_i warns
              refine (Warns.warnAll _).bind fun _ => (others v errors).mono fun s passed tell again none => ?_
              obtain ⟨clear, same, each⟩ := passed none
              refine ⟨clear, same, List.forall_mem_cons.mpr ⟨fun _ f' recheck => ?_, each⟩⟩
              obtain ⟨b, gives, same⟩ := again f' recheck
              cases same with
              | reports _ shares => exact .inr ⟨_, gives, warns, ReportOf.Shares.all_tell shares tell⟩
            · split
              · exact .pure fun again none => absurd none (some again)
              · exact (others v _).mono fun s passed again none =>
                  absurd (List.append_eq_nil_iff.mp (passed none).1).2 (some again)

theorem applyRules_gives {rules : List RuleEntry} (recheck : f.Recheck f') (passes : ∀ e ∈ rules, Passes h told f v e) :
    Gives told (v, []) (applyRules h f' rules v []) := by
  induction rules with
  | nil => exact .pure
  | cons e rest ih =>
      obtain ⟨here, later⟩ := List.forall_mem_cons.mp passes
      have others := ih later
      have unskipped : ((e.spec f'.kind).byConversion && f'.prefs.convert) = false := by
        rw [recheck.prefs]
        exact Bool.and_false _
      rw [applyRules]
      change Gives told _ (if (e.spec f'.kind).byConversion && f'.prefs.convert then _ else
        reply h f' v (e.spec f'.kind) e >>= _)
      rw [unskipped, recheck.kind]
      rcases here f' recheck with gives | ⟨rs, gives, warns, tell⟩
      · exact gives.bind others
      · refine gives.bind ?_
        simp only [warns, if_true]
        refine (Gives.warnAll fun w member => ?_).bind others
        obtain ⟨r, isReport, rfl⟩ := List.mem_map.mp member
        exact tell r isReport

end Node

/-! ## Rules done by conversion -/

theorem RuleEntry.converted {e : RuleEntry} (converts : (e.spec kind).byConversion) :
    kind = .string ∧ (e.name = .trim ∨ e.name = .case) := by
  unfold RuleEntry.spec at converts
  revert converts
  generalize e.name = name
  cases kind <;> cases name <;> decide

theorem coerceText_trimmed {core : Core} {e : RuleEntry} (found : core.rule? .trim = some e)
    (enabled : (RuleEntry.arg "enabled" e.args).truthy) (s : String) :
    Text.trimBlanks (coerceText core s) = coerceText core s := by
  unfold coerceText
  rw [found]
  simp only [enabled, if_true]
  exact Text.trimBlanks_trimBlanks _

theorem coerceText_unmoved {core : Core} {e : RuleEntry} (found : core.rule? .case = some e) {s : String}
    {shifts : List Text.Shift} {expansions : List (Nat × List Nat)}
    (cased : Text.Unmoved shifts expansions (match RuleEntry.arg "direction" e.args with
      | .str "lower" => Text.lower s
      | _ => Text.upper s)) : Text.Unmoved shifts expansions (coerceText core s) := by
  unfold coerceText
  rw [found]
  simp only
  split
  · exact cased
  · split
    · exact cased.trimBlanks
    · exact cased

theorem coerceText_lower {core : Core} {e : RuleEntry} (found : core.rule? .case = some e)
    (lower : RuleEntry.arg "direction" e.args = .str "lower") (s : String) :
    Text.lower (coerceText core s) = coerceText core s := by
  apply Text.Unmoved.lower_eq
  apply coerceText_unmoved found
  rw [lower]
  exact Text.lower_unmoved s

theorem coerceText_upper {core : Core} {e : RuleEntry} (found : core.rule? .case = some e)
    (upper : RuleEntry.arg "direction" e.args ≠ .str "lower") (s : String) :
    Text.upper (coerceText core s) = coerceText core s := by
  apply Text.Unmoved.upper_eq
  apply coerceText_unmoved found
  split
  · contradiction
  · exact Text.upper_unmoved s

theorem testTrim_coerceText {core : Core} {e : RuleEntry} (found : core.rule? .trim = some e) (s : String) :
    Rule.testTrim f (.str (coerceText core s)) e.args = .ok (.value (.str (coerceText core s))) := by
  unfold Rule.testTrim
  by_cases enabled : (RuleEntry.arg "enabled" e.args).truthy
  · simp [enabled, coerceText_trimmed found enabled, pure, Except.pure, bind, Except.bind]
  · simp [enabled, pure, Except.pure]

theorem testCase_coerceText {core : Core} {e : RuleEntry} (found : core.rule? .case = some e) (s : String) :
    Rule.testCase f (.str (coerceText core s)) e.args = .ok (.value (.str (coerceText core s))) := by
  unfold Rule.testCase
  split
  · rename_i lower
    simp [coerceText_lower found lower, pure, Except.pure, bind, Except.bind]
  · rename_i upper
    simp [coerceText_upper found upper, pure, Except.pure, bind, Except.bind]

/-- What a text node makes of a text passes the rules that its conversion stands for. -/
theorem coerceText_passes {core : Core} (once : RuleEntry.Once f.kind core.rules) {e : RuleEntry}
    (member : e ∈ core.rules) (refs : e.refs = []) (converts : (e.spec f.kind).byConversion) (s : String) :
    Node.Passes h told f (.str (coerceText core s)) e := by
  intro f' recheck
  obtain ⟨isText, named⟩ := RuleEntry.converted converts
  have single : (e.spec f.kind).multiple = false := by
    rw [isText]
    unfold RuleEntry.spec
    rcases named with same | same <;> rw [same] <;> rfl
  have found := once.rule? member single
  left
  rw [Node.reply_literal refs]
  refine Gives.bind (a := .value (.str (coerceText core s))) ?_ .pure
  rcases named with same | same
  · rw [same] at found ⊢
    exact Gives.lift (testTrim_coerceText found s)
  · rw [same] at found ⊢
    exact Gives.lift (testCase_coerceText found s)

end Conform
