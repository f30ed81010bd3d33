import Conform.Proofs.Contexts
import Conform.Proofs.Located.Containers
import Conform.Proofs.Schema.Built
import Conform.Proofs.Schema.Keeping
import Conform.Proofs.Validation.Entry
import Conform.Proofs.Validation.Scalars

/-!
# Details that locate the input

Whatever is told of wrong data is told of a place of the input: of the whole, of a key of a dictionary that is found
there, or of an item of a list. Working copies are converted, stripped and compacted while they are checked, but a node
below them is led to by what was given.
-/

namespace Conform

open Datum

variable {quiet : Prop} {h : Hooks}

/-! ## Nodes of each type -/

namespace Node

variable {n : Node} {f : Frame} {v w : Value}

theorem came_whole (came : w = .undefined ∨ ∃ is, n.convert f f.given = .goOn w is)
    (prepares : prepare f.kind f f.given = none) (coerces : coerce n.core n.content f f.given = none) :
    w = .undefined ∨ w = f.given := by
  rcases came with absent | ⟨is, converted⟩
  · exact .inl absent
  · rw [convert_idle prepares coerces] at converted
    exact .inr (Verdict.goOn.inj converted).1.symm

/-- What is located in an absent value or in the input is located in the input. -/
theorem located_in_given {x : Eval (Option Outcome)} (came : w = .undefined ∨ w = f.given)
    (located : Brings (ReportOf.Noted (LocatesFrom f.site.path w) quiet) (OutcomeLocated (LocatesFrom f.site.path w)) x) :
    Brings (ReportOf.Noted (LocatesFrom f.site.path f.given) quiet) (OutcomeLocated (LocatesFrom f.site.path f.given)) x := by
  have wider : ∀ x, LocatesFrom f.site.path w x → LocatesFrom f.site.path f.given x := by
    rcases came with rfl | rfl
    · exact fun x below => below.absent f.given
    · exact fun x => id
  exact (located.widen fun _ noted => noted.mono wider).mono fun o outcome u same =>
    ⟨(outcome u same).1, fun i member => ((outcome u same).2 i member).mono wider⟩

end Node

theorem Content.leaf_located {P : Path → Prop} {f : Frame} (place : P f.site.path) {w : Value} (free : w.isReportFree)
    {content : Content} {o : Option Outcome} (checked : content.leaf f w = .ok o) : Node.OutcomeLocated P o := by
  rcases leaf_refused checked with rfl | ⟨code, rfl, single⟩
  · exact fun u same => by cases same
  · intro u same
    obtain rfl := Option.some.inj same
    exact ⟨free, Issue.located_single (f.fail_single place single [])⟩

namespace Schema

variable {core : Core} {empty : Option Schema} {content : Content}

theorem evalKeyList_located {ks : List (Value × Schema)} (orderly : (Content.object (some ks)).isOrderly)
    (formed : (Content.object (some ks)).Formed) (parts : ∀ e ∈ ks, (e.2.eval h).Locates quiet) :
    (∀ c ∈ evalKeyList h ks, Keys.CheckLocates quiet c) ∧
      (evalKeyList h ks).Pairwise fun c d => sameKey c.key d.key = false := by
  simp only [Content.isOrderly, Bool.and_eq_true, List.all_eq_true] at orderly
  refine ⟨fun c member => ?_, ?_⟩
  · obtain ⟨e, below, rfl⟩ := mem_evalKeyList member
    exact ⟨formed e below, (orderly.2 e below).1, (orderly.2 e below).2, parts e below⟩
  · rw [evalKeyList_eq, List.pairwise_map]
    exact of_decide_eq_true orderly.1

/-- A base check reports at places of the value that the node is given if the schemas below it report at places of
theirs. -/
theorem evalContent_located (orderly : (node core empty content).Orderly) (formed : (node core empty content).Formed)
    (parts : ∀ role t, (node core empty content).Part role t → (t.eval h).Grows ∧ (t.eval h).Locates quiet)
    {f : Frame} (frames : Bounds.reportFree.Frames f f) (kind : f.kind = content.kind) (proper : f.given.isProper)
    {w : Value} (free : w.isReportFree)
    (came : w = .undefined ∨ ∃ is, ((node core empty content).toNode h).convert f f.given = .goOn w is) :
    Brings (ReportOf.Noted (LocatesFrom f.site.path f.given) quiet) (Node.OutcomeLocated (LocatesFrom f.site.path f.given))
      (evalContent h core content { f with current := w } w) := by
  have framesHere := frames.withCurrent w
  have leaf : ∀ {o : Except Fault (Option Outcome)}, content.leaf { f with current := w } w = o →
      Brings (ReportOf.Noted (LocatesFrom f.site.path f.given) quiet)
        (Node.OutcomeLocated (LocatesFrom f.site.path f.given)) (liftM o) := fun same =>
    .lift fun o ran => Content.leaf_located (f := { f with current := w }) .here free (same.trans ran)
  have properHere : w = .undefined ∨ w = f.given → w.isProper := by
    rintro (rfl | rfl)
    · rfl
    · exact proper
  cases content with
  | any | boolean | number | string | probe => exact leaf rfl
  | array items =>
      have whole := Node.came_whole came (by rw [kind]; rfl) rfl
      refine Node.located_in_given whole (Items.base_located framesHere (fun e member => ?_) free (properHere whole))
      obtain ⟨s, below, rfl⟩ := mem_evalEach member
      exact (parts (.item 0) s (.item 0 below)).2
  | object keys =>
      have whole := Node.came_whole came (by rw [kind]; rfl) rfl
      refine Node.located_in_given whole (Keys.base_located framesHere core.unknown (fun cs same => ?_) free (properHere whole))
      cases keys with
      | none => cases same
      | some ks =>
          obtain rfl := Option.some.inj same
          exact evalKeyList_located orderly.content formed.content fun e below => (parts (.key e.1) e.2 (.key below)).2
  | alternatives es chain mode =>
      have whole := Node.came_whole came (by rw [kind]; rfl) rfl
      refine Node.located_in_given whole
        (Alternatives.base_located framesHere free (properHere whole) (fun a member => ?_) mode)
      rcases mem_evalAlternatives member with ⟨s, below, rfl⟩ | ⟨subject, bs, fromSwitch, entry, rfl⟩
      · exact (parts .entry s (.attempt below)).2
      · refine ⟨fun r same => orderly.refs r ?_, fun c chosen => ?_⟩
        · exact List.mem_append_right _ (List.mem_filterMap.mpr ⟨_, entry, same⟩)
        · obtain ⟨test, yes, no, branch, rfl⟩ := mem_evalBranches chosen
          refine ⟨(parts .test test (.test entry branch)).1, fun e same => ?_⟩
          rcases same with same | same
          · obtain ⟨s, rfl, rfl⟩ := evalOption_eq_some same
            exact (parts .entry s (.onMatch entry branch)).2
          · obtain ⟨s, rfl, rfl⟩ := evalOption_eq_some same
            exact (parts .entry s (.onMiss entry branch)).2

/-- No warning at or below a schema bears the code of the failures that tell others. -/
def WarnsApart (s : Schema) : Prop := ∀ t, s.Below t → t.core.WarnsApart

theorem WarnsApart.part {s t : Schema} {role : Role} (apart : s.WarnsApart) (part : s.Part role t) : t.WarnsApart :=
  fun u below => apart u (part.below below)

/-- Every schema without functions, caches and deep defaults, whose objects declare no key twice, reports at places of
what it is given. -/
theorem eval_locates (s : Schema) (formed : ∀ t, s.Below t → t.Formed) (orderly : s.isOrderly)
    (apart : quiet → s.WarnsApart) : (s.eval h).Locates quiet := by
  induction s using parts_induction with
  | step s ih =>
  -- Of tests and of schemas for empty values nothing is told, so it is enough that they only add to their run.
  have grows : ∀ role t, s.Part role t → (t.eval h).Grows := fun role t part =>
    t.eval_grows fun u below => (orderly_below orderly (part.below below)).plain.callsGrow
  have parts : ∀ role t, s.Part role t → (t.eval h).Locates quiet := fun role t part =>
    ih role t part (fun u below => formed u (part.below below)) (all_part orderly part) fun isQuiet => (apart isQuiet).part part
  have here := orderly_below orderly (.self s)
  intro v site p free proper siteIn prefs
  obtain ⟨q, merged, context⟩ := (formed s (.self s)).merges p
  rw [eval_bare here.plain.cache merged]
  have prefsHere : Bounds.reportFree.prefs q := fun es is => prefs es (context ▸ is)
  have frames : Bounds.reportFree.Frames ((s.toNode h).frame v site q) ((s.toNode h).frame v site q) :=
    ⟨rfl, rfl, ⟨rfl, fun _ => rfl, siteIn⟩, ⟨⟨q.context, rfl⟩, fun _ => rfl, prefsHere⟩, rfl, rfl, free⟩
  obtain ⟨core, empty, content⟩ := s
  refine Node.settled_located here (formed _ (.self _)) (fun e same => ?_) (fun isQuiet => apart isQuiet _ (.self _)) frames
    .here fun w value came => ?_
  · obtain ⟨t, rfl, rfl⟩ := evalOption_eq_some same
    exact grows .empty t .empty
  · exact evalContent_located here (formed _ (.self _)) (fun role t part => ⟨grows role t part, parts role t part⟩) frames rfl
      proper value came

end Schema

/-! ## Calls -/

theorem Preferences.merge_reportFree {options : Dict} (free : (Datum.dict options).isReportFree) :
    Delivers Bounds.reportFree.prefs (({} : Preferences).merge options) := by
  have set : ∀ (q : Preferences) (name : String) (v : Value), v.isReportFree → Bounds.reportFree.prefs q →
      Bounds.reportFree.prefs (q.setOption name v) := by
    intro q name v value prefs
    by_cases same : name = "context"
    · subst same
      cases v with
      | dict es =>
          rintro _ ⟨rfl⟩
          exact value
      | null => exact fun es is => by cases is
      | _ => exact prefs
    · intro es is
      exact prefs es (Preferences.context_setOption q v same ▸ is)
  have each : ∀ (o : Dict) (q : Preferences), (∀ e ∈ o, e.2.isReportFree) → Bounds.reportFree.prefs q →
      Bounds.reportFree.prefs (o.foldl Preferences.setEntry q) := by
    intro o
    induction o with
    | nil => exact fun q _ prefs => prefs
    | cons e o ih =>
        intro q values prefs
        obtain ⟨value, rest⟩ := List.forall_mem_cons.mp values
        refine ih _ rest ?_
        unfold Preferences.setEntry
        split
        · exact set q _ e.2 value prefs
        · exact prefs
  have standard : Bounds.reportFree.prefs {} := Bounds.reportFree_lawful.standard
  unfold Preferences.merge
  split
  · exact .pure standard
  · have values : ∀ e ∈ options, e.2.isReportFree := fun e member => (isReportFree_dict.mp free e member).2
    exact (Delivers.any _).bind fun _ _ => .pure (each options {} values standard)

namespace Validation

variable {P : Path → Prop}

theorem failureOf_located {is : List Issue} (located : ∀ i ∈ is, i.Located P) (v : Value) :
    Delivers (fun failure => ∀ rejection, failure = some (.rejected rejection) → ∀ d ∈ rejection.details, d.Located P)
      (failureOf is v) := by
  unfold failureOf
  split
  · exact .pure fun rejection same => by cases same
  · split
    · exact .pure fun rejection same => by cases same
    · refine Delivers.bind (fun ds rendered => Issue.details_located located rendered) fun ds each => .pure ?_
      rintro _ ⟨rfl⟩
      exact each

theorem warningOf_located {rs : List Report} (noted : ∀ r ∈ rs, r.Noted P quiet) :
    Delivers (fun warning => ∀ w, warning = some w → ∀ d ∈ w.details, P d.path ∧ (quiet → d.Located P)) (warningOf rs) := by
  unfold warningOf
  split
  · exact .pure fun w same => by cases same
  · have each : ∀ r ∈ rs, Delivers (fun d : Detail => P d.path ∧ (quiet → d.Located P)) r.detail := fun r member d rendered =>
      ⟨(ReportOf.detail_eq rendered).1 ▸ (noted r member).1, fun isQuiet => (noted r member).2 isQuiet d rendered⟩
    refine (Delivers.mapM_each each).bind fun ds details => .pure ?_
    rintro _ ⟨rfl⟩
    exact details

end Validation

/-- An answer whose details, of a rejection or of a warning, locate the input. A warning that borrows the code of the
failures that tell others has its own idea of details, and locates the input itself. -/
structure Answer.Located (s : Schema) (v : Value) (a : Answer) : Prop where
  rejection : ∀ rejection, a.failure = some (.rejected rejection) → ∀ d ∈ rejection.details, d.Located (Locates v)
  warning : ∀ w, a.warning = some w → ∀ d ∈ w.details, Locates v d.path ∧ (s.WarnsApart → d.Located (Locates v))

theorem locatesFrom_root {v : Value} {x : Path} (locates : LocatesFrom [] v x) : Locates v x := by
  obtain ⟨q, rfl, below⟩ := locates
  exact below

/-- The synchronous pass reports and warns at places of the input, and queues no hook. -/
theorem Schema.eval_located {s : Schema} (built : s.Built) (orderly : s.isOrderly) {v : Value} (free : v.isReportFree)
    (proper : v.isProper) {p : Preferences} (prefs : Bounds.reportFree.prefs p) {r after : Run} {result : Result}
    (ran : (s.eval h v {} p).exec (Validation.fresh r) = (.ok result, after)) :
    (∀ i ∈ result.errors, i.Located (Locates v)) ∧ (∀ w ∈ after.journal.warnings, w.Noted (Locates v) s.WarnsApart) ∧
      after.journal.externals = [] := by
  have site : Bounds.reportFree.SiteIn {} := ⟨List.forall_mem_nil _, List.forall_mem_nil _⟩
  have fresh : (Validation.fresh r).ReportFree := fun t shadow => by cases shadow
  have locates := s.eval_locates (h := h) built.formed orderly id
  obtain ⟨becomes, located⟩ := locates v {} p free proper site prefs _ _ _ fresh ran
  obtain ⟨ws, added, noted⟩ := becomes.warnings
  refine ⟨fun i member => (located.2 i member).mono fun _ => locatesFrom_root, fun w member => ?_, becomes.hooks⟩
  rw [added] at member
  exact (noted w (by simpa [Validation.fresh, Run.onJournal] using member)).mono fun _ => locatesFrom_root

namespace Validation

theorem afterwards_located {s : Schema} {v : Value} {p : Preferences} {result : Result} {j : Journal Pending Report}
    (warnings : ∀ w ∈ j.warnings, w.Noted (Locates v) s.WarnsApart) (hooks : j.externals = []) {r r' : Run} {answer : Answer}
    (ran : (afterwards h p result j).exec r = (.ok answer, r')) : answer.Located s v := by
  have accepted : ∀ {rejection : Rejection}, none = some (Failure.rejected rejection) →
      ∀ d ∈ rejection.details, d.Located (Locates v) := by
    intro rejection same
    cases same
  unfold afterwards at ran
  rw [hooks, List.foldlM_nil, pure_bind] at ran
  split at ran
  · obtain ⟨warning, r₁, rendered, ran⟩ := Eval.bind_ok ran
    cases ran
    exact ⟨fun _ => accepted, warningOf_located warnings warning (congrArg Prod.fst rendered)⟩
  · cases ran
    exact ⟨fun _ => accepted, fun w same => by cases same⟩

theorem validateWithHooks_located {s : Schema} (built : s.Built) (orderly : s.isOrderly) {v : Value} (free : v.isReportFree)
    (proper : v.isProper) {options : Dict} (prefs : Delivers Bounds.reportFree.prefs (({} : Preferences).merge options))
    {r r' : Run} {answer : Answer} (ran : (validateWithHooks h s v options).exec r = (.ok answer, r')) :
    answer.Located s v := by
  obtain ⟨p, r₁, merged, goesOn⟩ := Eval.bind_ok ran
  obtain ⟨same, rfl⟩ := Prod.mk.inj (merged.symm.trans (Eval.exec_lift _ r))
  obtain ⟨⟨result, failure⟩, after, passed, ends⟩ := Eval.bind_ok goesOn
  cases failure with
  | some f => cases ends
  | none =>
      rw [exec_pass] at passed
      split at passed
      · cases passed
      · rename_i result' after' evaluated
        obtain ⟨-, rfl⟩ := Prod.mk.inj passed
        obtain ⟨-, warnings, hooks⟩ := Schema.eval_located built orderly free proper (prefs p same.symm) evaluated
        have ended : (afterwards h p result after'.journal).exec after' = (.ok answer, r') := ends
        exact afterwards_located warnings hooks ended

end Validation

/-- Every detail of a failure or a warning locates the input, and so does every detail that a failure of alternatives tells.
The data are from outside: they hold no report, since reports come to be in validations alone, and no set in them lists a
member twice. A call with hooks raises the failure of the pass. -/
theorem details_locate_input (h : Hooks) {s : Schema} (built : s.Built) (orderly : s.isOrderly) {v : Value}
    (free : v.isReportFree) (proper : v.isProper) {options : Dict} (plain : (Datum.dict options).isReportFree) (r : Run) :
    (∀ answer, ((Validation.validate h s v options).exec r).1 = .ok answer → answer.Located s v) ∧
      (∀ answer, ((Validation.validateWithHooks h s v options).exec r).1 = .ok answer → answer.Located s v) ∧
      ∀ p, ({} : Preferences).merge options = .ok p → ∀ result rejection,
        ((Validation.pass h s v p).exec r).1 = .ok (result, some (.rejected rejection)) →
          ((Validation.validateWithHooks h s v options).exec r).1 = .error (.rejected rejection) ∧
            ∀ d ∈ rejection.details, d.Located (Locates v) := by
  have prefs := Preferences.merge_reportFree plain
  refine ⟨fun answer ran => ?_, fun answer ran => ?_, fun p merged result rejection passed => ⟨?_, ?_⟩⟩
  · rw [Validation.exec_validate] at ran
    split at ran
    · cases ran
    · rename_i p chosen
      split at ran
      · cases ran
      · rename_i result after evaluated
        obtain ⟨errors, warnings, -⟩ :=
          Schema.eval_located built orderly free proper (prefs p (Validation.merge_of_chosen chosen)) evaluated
        have concluded : Delivers (Answer.Located s v) (Validation.conclude v result after.journal) := by
          refine (Validation.failureOf_located errors v).bind fun failure rejected => .require fun _ => ?_
          exact (Validation.warningOf_located warnings).bind fun warning warned => .pure ⟨rejected, warned⟩
        exact concluded answer ran
  · exact Validation.validateWithHooks_located built orderly free proper prefs (Prod.ext ran rfl)
  · unfold Validation.validateWithHooks
    rw [merged, Eval.lift_ok_bind, Eval.exec_bind]
    rcases ran : (Validation.pass h s v p).exec r with ⟨o, after⟩
    rw [ran] at passed
    obtain rfl : o = _ := passed
    rfl
  · rw [Validation.exec_pass] at passed
    split at passed
    · cases passed
    · rename_i result' after evaluated
      obtain ⟨errors, -, -⟩ := Schema.eval_located built orderly free proper (prefs p merged) evaluated
      have rejected : Delivers (fun o : Result × Option Failure => ∀ rejection, o.2 = some (.rejected rejection) →
          ∀ d ∈ rejection.details, d.Located (Locates v))
          ((Validation.failureOf result'.errors v).map fun failure => (result', failure)) := by
        have failed := Validation.failureOf_located errors v
        revert failed
        cases Validation.failureOf result'.errors v with
        | error g => exact fun _ => .error g
        | ok failure => exact fun failed => .pure (failed failure rfl)
      exact rejected _ passed rejection rfl

/-! ## Numbers or a text under a key -/

def numberList : Schema := .node {} none (.array [.number])

def numbersOrText : Schema := .node {} none (.alternatives [.attempt numberList, .attempt .string] .isOpen none)

def numbersUnderXs : Schema := .node {} none (.object (some [(.str "xs", numbersOrText)]))

theorem numbersUnderXs_built : numbersUnderXs.Built := by
  have list : numberList.Built := by
    have runs : Script.run [{ name := "array" }, { name := "items", args := [.leaf (.schema 0 .number)] }] =
        .ok numberList := rfl
    refine .of_run runs rfl ?_
    show ∀ u ∈ [Schema.number], u.Built
    simp [number_built]
  have either : numbersOrText.Built := by
    have runs : Script.run [{ name := "alternatives", args := [.leaf (.schema 0 numberList), .leaf (.schema 1 .string)] }] =
        .ok numbersOrText := rfl
    refine .of_run runs rfl ?_
    show ∀ u ∈ [numberList, Schema.string], u.Built
    simp [list, string_built]
  have runs : Script.run [{ name := "object", args := [.dict [(.str "xs", .leaf (.schema 0 numbersOrText))]] }] =
      .ok numbersUnderXs := rfl
  refine .of_run runs rfl ?_
  show ∀ u ∈ [numbersOrText], u.Built
  exact List.forall_mem_singleton.mpr either

def textInXs : Value := .dict [(.str "xs", .list [.int 1, .str "x"])]

/-- The details of the rejection that a call answers with. -/
def Validation.rejectedDetails : Except Fault Answer → List Detail
  | .ok ⟨_, some (.rejected rejection), _⟩ => rejection.details
  | .ok ⟨_, some (.raised _), _⟩ => []
  | .ok ⟨_, none, _⟩ => []
  | .error _ => []

/-- A text among the numbers fails both attempts: the one failure that is told of locates the input, and so do those of the
attempts that it tells. -/
theorem textInXs_located :
    numbersUnderXs.Built ∧ numbersUnderXs.isOrderly ∧ textInXs.isReportFree ∧ textInXs.isProper ∧
      ∃ d, Validation.rejectedDetails ((Validation.validate Hooks.idle numbersUnderXs textInXs []).exec {}).1 = [d] ∧
        d.code = nestingCode ∧ d.Located (Locates textInXs) := by
  refine ⟨numbersUnderXs_built, rfl, rfl, rfl, ?_⟩
  have free : textInXs.isReportFree := rfl
  have plain : (Datum.dict []).isReportFree := rfl
  have locates := (details_locate_input Hooks.idle numbersUnderXs_built rfl free rfl plain {}).1
  have told : (Validation.rejectedDetails ((Validation.validate Hooks.idle numbersUnderXs textInXs []).exec {}).1).map
      (fun d => sameKey d.code nestingCode) = [true] := by decide +kernel
  revert told locates
  generalize ((Validation.validate Hooks.idle numbersUnderXs textInXs []).exec {}).1 = outcome
  intro locates told
  obtain ⟨d, single, nests⟩ := List.map_eq_singleton_iff.mp told
  refine ⟨d, single, sameKey_str.mp nests, ?_⟩
  cases outcome with
  | error g => cases single
  | ok answer =>
      obtain ⟨w, failure, warning⟩ := answer
      cases failure with
      | none => cases single
      | some g =>
          cases g with
          | raised e => cases single
          | rejected rejection =>
              have listed : rejection.details = [d] := single
              exact (locates _ rfl).rejection rejection rfl d (listed ▸ List.mem_singleton_self d)

end Conform
