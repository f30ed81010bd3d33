import Conform.Proofs.Messages
import Conform.Proofs.Schema.Formed
import Conform.Proofs.Sight
import Conform.Proofs.Validation.RuleTests

/-!
# Reports that locate data

The path of a report locates a place of the data that were validated, if it ends in a dictionary or at an item of a list
there. A failure of alternatives tells the failures of its attempts, each as the detail of a report of its own.
-/

namespace Conform

open Datum

/-! ## Paths -/

/-- A segment for a place in a container: anything in a dictionary, and the index of an item in a list. -/
def Datum.Takes : Value → Value → Prop
  | .dict _, _ => True
  | .list xs, k => ∃ i : Nat, i < xs.length ∧ k = .int i
  | _, _ => False

/-- A path to the whole datum, or to a place in a dictionary or a list that is found in it. -/
inductive Locates (v : Value) : Path → Prop
  | whole : Locates v []
  | part {p : Path} {k w : Value} (parent : reach v p = .ok w) (takes : w.Takes k) : Locates v (p ++ [k])

/-- A path through the place of a datum, which locates a place of it from there. -/
def LocatesFrom (p : Path) (v : Value) (x : Path) : Prop := ∃ q, x = p ++ q ∧ Locates v q

theorem Locates.cons {v k u : Value} {q : Path} (stepped : step v k = .ok u) (takes : v.Takes k) (locates : Locates u q) :
    Locates v (k :: q) := by
  cases locates with
  | whole => exact .part (p := []) rfl takes
  | @part p l w parent below =>
      refine .part (p := k :: p) ?_ below
      rw [reach_cons, stepped]
      exact parent

theorem Locates.eq_nil {q : Path} (locates : Locates .undefined q) : q = [] := by
  cases locates with
  | whole => rfl
  | part parent takes =>
      rw [reach_undefined] at parent
      obtain rfl := Except.ok.inj parent
      exact takes.elim

namespace LocatesFrom

variable {p x : Path} {v k : Value}

theorem here : LocatesFrom p v p := ⟨[], (List.append_nil p).symm, .whole⟩

theorem child (takes : v.Takes k) : LocatesFrom p v (p ++ [k]) := ⟨[k], rfl, .part (p := []) rfl takes⟩

theorem through {u : Value} (stepped : step v k = .ok u) (takes : v.Takes k) (locates : LocatesFrom (p ++ [k]) u x) :
    LocatesFrom p v x := by
  obtain ⟨q, rfl, below⟩ := locates
  exact ⟨k :: q, by simp, below.cons stepped takes⟩

theorem key {es : Dict} (hashable : k.isHashable) (locates : LocatesFrom (p ++ [k]) ((find? k es).getD .undefined) x) :
    LocatesFrom p (.dict es) x := by
  have stepped : step (.dict es) k = .ok ((find? k es).getD .undefined) := if_pos hashable
  exact locates.through stepped trivial

theorem item {xs : List Value} {i : Nat} (found : xs[i]? = some v) (locates : LocatesFrom (p ++ [.int i]) v x) :
    LocatesFrom p (.list xs) x := by
  have stepped : step (.list xs) (.int i) = .ok v := by rw [step_list, found, Option.getD_some]
  exact locates.through stepped ⟨i, (List.getElem?_eq_some_iff.mp found).1, rfl⟩

theorem absent (locates : LocatesFrom p .undefined x) (v : Value) : LocatesFrom p v x := by
  obtain ⟨q, rfl, below⟩ := locates
  obtain rfl := below.eq_nil
  exact ⟨[], rfl, .whole⟩

end LocatesFrom

/-! ## Details -/

theorem Datum.find?_append_found {k v : Value} {es : Dict} (found : find? k es = some v) (fs : Dict) :
    find? k (es ++ fs) = some v := by
  induction es with
  | nil => cases found
  | cons e es ih =>
      obtain ⟨j, u⟩ := e
      rw [List.cons_append]
      rw [find?] at found ⊢
      split
      · rwa [if_pos ‹_›] at found
      · rw [if_neg ‹_›] at found
        exact ih found

/-- The code of a failure that tells other failures. -/
def nestingCode : Value := .str "alternatives.match"

/-- A detail with its path in a set, and where it tells other failures all of these likewise. -/
inductive Detail.Located (P : Path → Prop) : Detail → Prop
  | plain {d : Detail} (path : P d.path) (single : d.code ≠ nestingCode) : Located P d
  | nested {d : Detail} {ds : List Detail} (path : P d.path) (code : d.code = nestingCode)
      (told : find? (.str "details") d.context = some (.list (ds.map Detail.toValue))) (each : ∀ e ∈ ds, Located P e) :
      Located P d

theorem Detail.Located.mono {P Q : Path → Prop} (wider : ∀ x, P x → Q x) {d : Detail} (located : d.Located P) :
    d.Located Q := by
  induction located with
  | plain path single => exact .plain (wider _ path) single
  | nested path code told _ each => exact .nested (wider _ path) code told each

namespace ReportOf

variable {P Q : Path → Prop} {r : Report}

/-- The detail of a report is located, if it has one. -/
def Located (P : Path → Prop) (r : Report) : Prop := ∀ d, r.detail = .ok d → d.Located P

/-- The path of a warning is in a set. Where no warning bears the code of a failure that tells others, the detail is located. -/
def Noted (P : Path → Prop) (quiet : Prop) (r : Report) : Prop := P r.path ∧ (quiet → r.Located P)

/-- A report that tells no other failure, with its path in a set. -/
structure Single (P : Path → Prop) (r : Report) : Prop where
  path : P r.path
  code : r.code ≠ nestingCode

theorem detail_eq {d : Detail} (rendered : r.detail = .ok d) : d.path = r.path ∧ d.code = r.code ∧ d.context = r.context := by
  unfold detail at rendered
  cases message : r.message with
  | error f => simp [message, bind, Except.bind] at rendered
  | ok text =>
      simp only [message, bind, Except.bind, pure, Except.pure] at rendered
      obtain rfl := Except.ok.inj rendered
      exact ⟨rfl, rfl, rfl⟩

theorem Single.located (single : r.Single P) : r.Located P := by
  intro d rendered
  obtain ⟨path, code, -⟩ := detail_eq rendered
  exact .plain (path ▸ single.path) (code ▸ single.code)

theorem Single.noted (single : r.Single P) (quiet : Prop) : r.Noted P quiet := ⟨single.path, fun _ => single.located⟩

theorem Single.withMessage (single : r.Single P) (m : Value) : (r.withMessage m).Single P := by
  unfold ReportOf.withMessage
  split
  · exact ⟨single.path, single.code⟩
  · split
    · exact ⟨single.path, single.code⟩
    · exact single
  · exact single

theorem Located.mono (wider : ∀ x, P x → Q x) (located : r.Located P) : r.Located Q := fun d rendered =>
  (located d rendered).mono wider

theorem Noted.mono {quiet : Prop} (wider : ∀ x, P x → Q x) (noted : r.Noted P quiet) : r.Noted Q quiet :=
  ⟨wider _ noted.1, fun isQuiet => (noted.2 isQuiet).mono wider⟩

theorem find?_context {k : String} {v : Value} (named : find? (.str k) r.locals = some v) :
    find? (.str k) r.context = some v := by
  have added : ∀ (l : String) (w : Value) {es : Dict}, find? (.str k) es = some v →
      find? (.str k) (addDefault l w es) = some v := by
    intro l w es found
    unfold addDefault
    split
    · exact found
    · exact find?_append_found found _
  unfold context
  simp only
  have labelled := added "label" (.str r.label) named
  have valued : find? (.str k) (if r.value.isUndefined then addDefault "label" (.str r.label) r.locals
      else addDefault "value" r.value (addDefault "label" (.str r.label) r.locals)) = some v := by
    split
    · exact labelled
    · exact added _ _ labelled
  split
  · exact added _ _ valued
  · exact valued

end ReportOf

/-! ## What nodes report -/

namespace Frame

variable {P : Path → Prop} {f : Frame} {code : String}

theorem reportAt_single {s : Site} (place : P s.path) (single : code ≠ "alternatives.match") (v : Value) (locals : Dict) :
    (f.reportAt s code v locals).Single P := ⟨place, fun same => single (Datum.str.inj same)⟩

theorem fail_single (place : P f.site.path) (single : code ≠ "alternatives.match") (locals : Dict) :
    (f.fail code locals).Single P := f.reportAt_single place single f.current locals

end Frame

/-- The value itself, or reports that tell no other failure. -/
inductive Reply.Single (P : Path → Prop) (v : Value) : Reply → Prop
  | value : Single P v (.value v)
  | reports {rs : List Report} (each : ∀ r ∈ rs, r.Single P) : Single P v (.reports rs)

namespace Rule

variable {P : Path → Prop} {f : Frame} {v : Value} {args : List (String × Value)} {a : Reply}

theorem single_of_choice {j : Except Fault Bool} {code : String} {locals : Dict} (place : P f.site.path)
    (single : code ≠ "alternatives.match")
    (ran : (do return if ← j then .value v else .reports [f.fail code locals] : Except Fault Reply) = .ok a) :
    a.Single P v := by
  cases j with
  | error g => cases ran
  | ok holds =>
      obtain rfl := Except.ok.inj ran
      cases holds with
      | true => exact .value
      | false => exact .reports (List.forall_mem_singleton.mpr (f.fail_single place single locals))

theorem testPattern_single (place : P f.site.path) (ran : testPattern f v args = .ok a) : a.Single P v := by
  unfold testPattern at ran
  split at ran
  · rename_i source _
    cases pattern : Pattern.read? source with
    | none => simp [pattern, throw, throwThe, MonadExceptOf.throw] at ran
    | some p =>
        simp only [pattern] at ran
        split at ran
        · split at ran
          · cases ran
            exact .value
          · split at ran
            · cases ran
              exact .reports (List.forall_mem_singleton.mpr (f.fail_single place (by decide) _))
            · cases ran
              exact .reports (List.forall_mem_singleton.mpr (f.fail_single place (by decide) _))
        · cases ran
  · cases ran

theorem testTrim_single (place : P f.site.path) (ran : testTrim f v args = .ok a) : a.Single P v := by
  unfold testTrim at ran
  split at ran
  · cases ran
    exact .value
  · split at ran
    · exact single_of_choice (j := .ok _) place (by decide) ran
    · exact single_of_choice (j := .ok _) place (by decide) ran
    · exact single_of_choice (j := .ok _) place (by decide) ran
    · cases ran

theorem testCase_single (place : P f.site.path) (ran : testCase f v args = .ok a) : a.Single P v := by
  unfold testCase at ran
  simp only [pure_bind] at ran
  split at ran
  · split at ran
    · exact single_of_choice (j := .ok _) place (by decide) ran
    · exact single_of_choice (j := .ok _) place (by decide) ran
  · split at ran
    · exact single_of_choice (j := .ok _) place (by decide) ran
    · exact single_of_choice (j := .ok _) place (by decide) ran
  · cases ran

theorem testLimit_single (place : P f.site.path) (ran : testLimit f v args = .ok a) : a.Single P v := by
  unfold testLimit at ran
  cases v with
  | str s =>
      cases compared : compare (· == .gt) (.int s.length) (RuleEntry.arg "n" args) with
      | error g => simp [compared, bind, Except.bind] at ran
      | ok holds =>
          simp only [compared, bind, Except.bind] at ran
          cases holds with
          | true =>
              cases ran
              refine .reports (List.forall_mem_cons.mpr ⟨?_, List.forall_mem_singleton.mpr ?_⟩)
              · exact f.fail_single place (by decide) _
              · exact f.fail_single place (by decide) _
          | false =>
              cases ran
              exact .value
  | _ =>
      cases ran
      exact .value

theorem verdict_single {name : RuleName} (place : P f.site.path) (ran : verdict name f v args = .ok a) : a.Single P v := by
  have measures : ∀ {name : RuleName}, (comparison? name).isSome → verdict name f v args = .ok a → a.Single P v := by
    intro name compares ran
    rw [verdict_measured compares] at ran
    have single : f.kind.name ++ "." ++ name.text ≠ "alternatives.match" := by
      cases f.kind <;> cases name <;> decide
    exact single_of_choice place single ran
  cases name with
  | custom | warning =>
      cases ran
      exact .value
  | integer => exact single_of_choice place (by decide) ran
  | multiple => exact single_of_choice place (by decide) ran
  | pattern => exact testPattern_single place ran
  | trim => exact testTrim_single place ran
  | case => exact testCase_single place ran
  | limit => exact testLimit_single place ran
  | min | max | greater | less | length => exact measures rfl ran

end Rule

/-! ## Failures of alternatives -/

namespace Issue

/-- A report that is located, or what an error override has put in place. -/
def Located (P : Path → Prop) : Issue → Prop
  | report r => r.Located P
  | other _ => True

variable {P Q : Path → Prop} {is : List Issue}

theorem Located.mono (wider : ∀ x, P x → Q x) {i : Issue} (located : i.Located P) : i.Located Q := by
  cases i with
  | report r => exact ReportOf.Located.mono wider located
  | other v => exact trivial

theorem located_single {r : Report} (single : r.Single P) : ∀ i ∈ [Issue.report r], i.Located P :=
  List.forall_mem_singleton.mpr single.located

theorem details_located (located : ∀ i ∈ is, i.Located P) {ds : List Detail} (rendered : Issue.details is = .ok ds) :
    ∀ d ∈ ds, d.Located P := by
  refine Delivers.mapM_each (fun r member => ?_) ds rendered
  obtain ⟨i, inside, isReport⟩ := List.mem_filterMap.mp member
  cases i with
  | report q =>
      obtain rfl := Option.some.inj isReport
      exact located _ inside
  | other v => cases isReport

end Issue

theorem Alternatives.consolidate_located {P : Path → Prop} {f : Frame} {is os : List Issue} (place : P f.site.path)
    (located : ∀ i ∈ is, i.Located P) (ran : consolidate f is = .ok os) : ∀ i ∈ os, i.Located P := by
  rcases is with _ | ⟨i, _ | ⟨j, is⟩⟩
  · obtain rfl := Except.ok.inj ran
    exact Issue.located_single (f.fail_single place (by decide) _)
  · obtain rfl := Except.ok.inj ran
    exact located
  · unfold consolidate at ran
    simp only at ran
    cases types : failedTypes? f.site (i :: j :: is) with
    | error g => simp [types, bind, Except.bind] at ran
    | ok found =>
        simp only [types, bind, Except.bind] at ran
        cases found with
        | some names =>
            obtain rfl := Except.ok.inj ran
            exact Issue.located_single (f.fail_single place (by decide) _)
        | none =>
            cases details : Issue.details (i :: j :: is) with
            | error g => simp [details] at ran
            | ok ds =>
                simp only [details] at ran
                obtain rfl := Except.ok.inj ran
                refine List.forall_mem_singleton.mpr fun d rendered => ?_
                obtain ⟨path, code, context⟩ := ReportOf.detail_eq rendered
                refine .nested (path ▸ place) code ?_ (Issue.details_located located details)
                rw [context]
                exact ReportOf.find?_context rfl

end Conform
