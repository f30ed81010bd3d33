import Conform.Proofs.FirstMatch
import Conform.Proofs.MatchModes
import Conform.Proofs.Schema.Formed

/-!
# Lists of attempts

Alternatives without a match mode take a value as the first of their attempts to accept it on its own leaves it. Where all
of them reject it, one failure stands for theirs: the lone one itself, the types whose base checks failed, or the details of
all of them.
-/

namespace Conform

open Datum

variable {h : Hooks} {k : Nat} {f : Frame} {v : Value}

/-! ## Diagnoses -/

/-- The failure of the base check of a type at a site itself. -/
def Issue.OfBase (s : Site) (type : String) (i : Issue) : Prop :=
  ∃ r, i = .report r ∧ r.path.length = s.path.length ∧ r.code = .str (type ++ ".base") ∧ '.' ∉ type.toList

/-- The failure that stands for others. -/
inductive Diagnosis (f : Frame) : List Issue → List Issue → Prop
  | none : Diagnosis f [] [.report (f.fail "alternatives.any" [])]
  | lone (i : Issue) : Diagnosis f [i] [i]
  | types {is : List Issue} {types : List String} (several : 1 < is.length)
      (bases : List.Forall₂ (fun i type => i.OfBase f.site type) is types) :
      Diagnosis f is [.report (f.fail "alternatives.types" [(.str "types", .list (types.map .str))])]
  | nested {is : List Issue} {details : List Detail} (several : 1 < is.length)
      (mixed : ∃ i ∈ is, ∀ type, ¬ i.OfBase f.site type)
      (rendered : (is.filterMap Issue.report?).mapM ReportOf.detail = .ok details) :
      Diagnosis f is [.report (f.fail "alternatives.match"
        [(.str "message", .str (Detail.summary details)), (.str "details", .list (details.map Detail.toValue))])]

theorem Diagnosis.ne_nil {is es : List Issue} (diagnosis : Diagnosis f is es) : es ≠ [] := by
  cases diagnosis <;> exact List.cons_ne_nil _ _

/-- Reports with texts for codes that can be shown. -/
def Issue.Legible (is : List Issue) : Prop := ∀ r, .report r ∈ is → (∃ code, r.code = .str code) ∧ ReportOf.isShown r

namespace Alternatives

/-! ### The types of failed base checks -/

/-- The type is what comes before the first point of a code that ends with the base check. -/
theorem baseType?_eq_some {code type : String} :
    baseType? code = some type ↔ code = type ++ ".base" ∧ '.' ∉ type.toList := by
  unfold baseType?
  constructor
  · intro found
    split at found
    · rename_i base
      cases found
      have whole : code.toList.takeWhile (· != '.') ++ ".base".toList = code.toList :=
        base ▸ List.takeWhile_append_dropWhile
      refine ⟨String.ext ?_, fun dotted => ?_⟩
      · rw [String.toList_append, String.toList_ofList, whole]
      · rw [String.toList_ofList] at dotted
        simpa using List.mem_takeWhile_imp dotted
    · cases found
  · rintro ⟨rfl, undotted⟩
    have plain : ∀ c ∈ type.toList, (c != '.') = true := fun c member => bne_iff_ne.mpr fun same => undotted (same ▸ member)
    have base : ".base".toList = '.' :: "base".toList := rfl
    rw [String.toList_append, List.dropWhile_append_of_pos plain, List.takeWhile_append_of_pos plain, base,
      List.dropWhile_cons_of_neg (by simp), List.takeWhile_cons_of_neg (by simp), if_pos rfl, List.append_nil,
      String.ofList_toList]

theorem failedType?_some {s : Site} {i : Issue} {type : String} :
    failedType? s i = .ok (some type) ↔ i.OfBase s type := by
  cases i with
  | other v => simp [failedType?, Issue.OfBase]
  | report r =>
      rw [failedType?]
      split
      · rename_i elsewhere
        simp [Issue.OfBase, elsewhere]
      · rename_i here
        split
        · rename_i code isText
          rw [Except.ok.injEq, baseType?_eq_some]
          constructor
          · rintro ⟨rfl, undotted⟩
            exact ⟨r, rfl, not_not.mp here, isText, undotted⟩
          · rintro ⟨_, ⟨⟩, -, base, undotted⟩
            cases isText.symm.trans base
            exact ⟨rfl, undotted⟩
        · rename_i isBytes
          refine iff_of_false nofun ?_
          rintro ⟨_, ⟨⟩, -, base, -⟩
          cases isBytes.symm.trans base
        · rename_i noText _
          refine iff_of_false nofun ?_
          rintro ⟨_, ⟨⟩, -, base, -⟩
          exact noText _ base

theorem failedTypes?_some {s : Site} {is : List Issue} {types : List String} :
    failedTypes? s is = .ok (some types) ↔ List.Forall₂ (fun i type => i.OfBase s type) is types := by
  induction is generalizing types with
  | nil =>
      simp only [failedTypes?, Except.ok.injEq, Option.some.injEq, List.forall₂_nil_left_iff]
      exact eq_comm
  | cons i is ih =>
      rw [failedTypes?, bind_eq_ok, List.forall₂_cons_left_iff]
      constructor
      · rintro ⟨_ | type, here, rest⟩
        · cases rest
        · obtain ⟨_ | others, found, same⟩ := bind_eq_ok.mp rest
          · cases same
          · cases same
            exact ⟨type, others, failedType?_some.mp here, ih.mp found, rfl⟩
      · rintro ⟨type, others, here, rest, rfl⟩
        exact ⟨some type, failedType?_some.mpr here, bind_eq_ok.mpr ⟨some others, ih.mpr rest, rfl⟩⟩

theorem failedTypes?_none {s : Site} {is : List Issue} (found : failedTypes? s is = .ok none) :
    ∃ i ∈ is, ∀ type, ¬ i.OfBase s type := by
  induction is with
  | nil => cases found
  | cons i is ih =>
      obtain ⟨_ | type, here, rest⟩ := bind_eq_ok.mp found
      · refine ⟨i, List.mem_cons_self, fun type base => ?_⟩
        cases here.symm.trans (failedType?_some.mpr base)
      · obtain ⟨_ | others, later, same⟩ := bind_eq_ok.mp rest
        · obtain ⟨j, member, other⟩ := ih later
          exact ⟨j, List.mem_cons_of_mem i member, other⟩
        · cases same

theorem failedTypes?_legible {s : Site} {is : List Issue} (legible : Issue.Legible is) :
    ∃ types, failedTypes? s is = .ok types := by
  induction is with
  | nil => exact ⟨some [], rfl⟩
  | cons i is ih =>
      obtain ⟨others, found⟩ := ih fun r member => legible r (List.mem_cons_of_mem i member)
      have here : ∃ type, failedType? s i = .ok type := by
        cases i with
        | other v => exact ⟨none, rfl⟩
        | report r =>
            obtain ⟨⟨code, isText⟩, -⟩ := legible r List.mem_cons_self
            rw [failedType?]
            split
            · exact ⟨none, rfl⟩
            · exact ⟨baseType? code, by rw [isText]⟩
      obtain ⟨_ | type, here⟩ := here
      · exact ⟨none, bind_eq_ok.mpr ⟨none, here, rfl⟩⟩
      · exact ⟨_, bind_eq_ok.mpr ⟨some type, here, bind_eq_ok.mpr ⟨others, found, rfl⟩⟩⟩

theorem details_legible {is : List Issue} (legible : Issue.Legible is) : ∃ ds, Issue.details is = .ok ds := by
  refine ReportOf.details_isOk.mpr fun r member => ?_
  obtain ⟨i, inside, isReport⟩ := List.mem_filterMap.mp member
  cases i with
  | report q =>
      cases isReport
      exact (legible _ inside).2
  | other v => cases isReport

theorem consolidate_several {is : List Issue} (several : 1 < is.length) : consolidate f is = (do
    match ← failedTypes? f.site is with
    | some types =>
      return [.report (f.fail "alternatives.types" [(.str "types", .list (types.map Datum.str))])]
    | none =>
      let details ← Issue.details is
      return [.report (f.fail "alternatives.match"
        [(.str "message", .str (Detail.summary details)), (.str "details", .list (details.map Detail.toValue))])]) := by
  rcases is with _ | ⟨i, _ | ⟨j, is⟩⟩
  · simp at several
  · simp at several
  · rfl

theorem consolidate_diagnoses {is es : List Issue} (consolidates : consolidate f is = .ok es) : Diagnosis f is es := by
  rcases Nat.lt_or_ge 1 is.length with several | few
  · rw [consolidate_several several] at consolidates
    obtain ⟨_ | types, found, rest⟩ := bind_eq_ok.mp consolidates
    · obtain ⟨details, rendered, same⟩ := bind_eq_ok.mp rest
      cases same
      exact .nested several (failedTypes?_none found) rendered
    · cases rest
      exact .types several (failedTypes?_some.mp found)
  · rcases is with _ | ⟨i, _ | ⟨j, is⟩⟩
    · cases consolidates
      exact .none
    · cases consolidates
      exact .lone i
    · simp at few

theorem consolidate_legible {is : List Issue} (legible : Issue.Legible is) : ∃ es, consolidate f is = .ok es := by
  rcases is with _ | ⟨i, _ | ⟨j, is⟩⟩
  · exact ⟨_, rfl⟩
  · exact ⟨_, rfl⟩
  · rw [consolidate_several (by simp)]
    obtain ⟨_ | types, found⟩ := failedTypes?_legible (s := f.site) legible
    · obtain ⟨details, rendered⟩ := details_legible legible
      exact ⟨_, bind_eq_ok.mpr ⟨none, found, bind_eq_ok.mpr ⟨details, rendered, rfl⟩⟩⟩
    · exact ⟨_, bind_eq_ok.mpr ⟨some types, found, rfl⟩⟩

/-! ### Attempts in turn -/

open Schema

theorem first_attempt (s : Schema) (es : List Alternative) (issues : List Issue) (r : Run) :
    (first h f v (evalAlternatives h (.attempt s :: es)) issues).exec r =
      Eval.andThen (fun a : Result => if a.errors.isEmpty then pure ⟨a.value, []⟩
        else first h f v (evalAlternatives h es) (issues ++ a.errors)) ((s.eval h v f.site f.prefs).exec r) := by
  rw [evalAlternatives, first, Eval.exec_bind]

/-- Attempts before one that accepts leave no trace in the outcome, and those after it are not asked. -/
theorem first_accepts {before : List Schema} {s : Schema} {u : Value}
    (contained : ∀ t ∈ before ++ [s], t.SelfContained k) (returns : ∀ t ∈ before ++ [s], t.Returns h k f.site.path f.prefs v)
    (rejected : ∀ t ∈ before, t.accepts? h k f.site.path f.prefs v = none)
    (accepts : s.accepts? h k f.site.path f.prefs v = some u) (issues : List Issue) (r : Run) (enough : k ≤ r.copies) :
    ∃ n w r', k ≤ n ∧ s.alone h n f.site.path f.prefs v = .ok ⟨w, []⟩ ∧ Like k u w ∧
      ∀ after, (first h f v (evalAlternatives h ((before ++ s :: after).map .attempt)) issues).exec r = (.ok ⟨w, []⟩, r') := by
  induction before generalizing issues r with
  | nil =>
      obtain ⟨itself, -⟩ := List.forall_mem_cons.mp contained
      obtain ⟨returned, -⟩ := List.forall_mem_cons.mp returns
      obtain ⟨⟨w, errors⟩, r', ran, -, clean, like⟩ :=
        (accepts ▸ itself.decides returned).accepts f.site.ancestors enough
      obtain rfl : errors = [] := clean
      refine ⟨r.copies, w, r', enough, ?_, like, fun after => ?_⟩
      · rw [← itself.exec_eq f.site.ancestors r, ran]
      · rw [List.nil_append, List.map_cons, first_attempt, ran]
        rfl
  | cons t before ih =>
      obtain ⟨itself, others⟩ := List.forall_mem_cons.mp contained
      obtain ⟨returned, rest⟩ := List.forall_mem_cons.mp returns
      obtain ⟨here, later⟩ := List.forall_mem_cons.mp rejected
      obtain ⟨a, r₁, ran, stays, fails⟩ := (here ▸ itself.decides returned).rejects f.site.ancestors enough
      obtain ⟨n, w, r', least, alone, like, taken⟩ := ih others rest later (issues ++ a.errors) r₁ stays
      refine ⟨n, w, r', least, alone, like, fun after => ?_⟩
      rw [List.cons_append, List.map_cons, first_attempt, ran, Eval.andThen_ok, List.isEmpty_eq_false_iff.mpr fails]
      exact taken after

/-- Where all attempts reject a value, one failure stands for what they said of it on their own. -/
theorem first_rejects {ss : List Schema} (contained : ∀ s ∈ ss, s.SelfContained k)
    (returns : ∀ s ∈ ss, s.Returns h k f.site.path f.prefs v)
    (rejected : ∀ s ∈ ss, s.accepts? h k f.site.path f.prefs v = none) (issues : List Issue) (r : Run)
    (enough : k ≤ r.copies) :
    ∃ as r', List.Forall₂ (fun s a => a.errors ≠ [] ∧ ∃ n, k ≤ n ∧ s.alone h n f.site.path f.prefs v = .ok a) ss as ∧
      (first h f v (evalAlternatives h (ss.map .attempt)) issues).exec r =
        ((consolidate f (issues ++ as.flatMap Result.errors)).map fun es => ⟨v, es⟩, r') := by
  induction ss generalizing issues r with
  | nil =>
      refine ⟨[], r, .nil, ?_⟩
      rw [List.flatMap_nil, List.append_nil, List.map_nil, evalAlternatives, first, Eval.exec_bind, Eval.exec_lift]
      cases consolidate f issues <;> rfl
  | cons s ss ih =>
      obtain ⟨itself, others⟩ := List.forall_mem_cons.mp contained
      obtain ⟨returned, rest⟩ := List.forall_mem_cons.mp returns
      obtain ⟨here, later⟩ := List.forall_mem_cons.mp rejected
      obtain ⟨a, r₁, ran, stays, fails⟩ := (here ▸ itself.decides returned).rejects f.site.ancestors enough
      obtain ⟨as, r', each, concluded⟩ := ih others rest later (issues ++ a.errors) r₁ stays
      refine ⟨a :: as, r', .cons ⟨fails, r.copies, enough, ?_⟩ each, ?_⟩
      · rw [← itself.exec_eq f.site.ancestors r, ran]
      · rw [List.map_cons, first_attempt, ran, Eval.andThen_ok, List.isEmpty_eq_false_iff.mpr fails, List.flatMap_cons,
          ← List.append_assoc]
        exact concluded

end Alternatives

namespace Schema

theorem AskedReturn.of_rejected {path : Path} {p : Preferences} {before after : List Schema}
    (returns : AskedReturn h k path p v (before ++ after)) (rejected : ∀ t ∈ before, t.accepts? h k path p v = none) :
    (∀ t ∈ before, t.Returns h k path p v) ∧ AskedReturn h k path p v after := by
  induction before with
  | nil => exact ⟨List.forall_mem_nil _, returns⟩
  | cons t before ih =>
      obtain ⟨here, later⟩ := List.forall_mem_cons.mp rejected
      obtain ⟨each, rest⟩ := ih (returns.2 here) later
      exact ⟨List.forall_mem_cons.mpr ⟨returns.1, each⟩, rest⟩

end Schema

/-- Alternatives without a match mode accept a value exactly if one of their attempts accepts it on its own, and take it as
the first of these leaves it, whatever stands after that one. Where all of them reject it the value stays as it came, and the
failure is diagnosed from what they said of it on their own, in order.

The literals of the attempts are older than the run: none is a copy that the run is yet to make. -/
theorem attempts_unite (h : Hooks) (core : Core) (empty : Option Schema) (chain : ChainState) (f : Frame) (v : Value)
    (r : Run) {ss : List Schema} (contained : ∀ s ∈ ss, s.SelfContained r.copies)
    (returns : Schema.AskedReturn h r.copies f.site.path f.prefs v ss) :
    let node := fun ss => (Schema.node core empty (.alternatives (ss.map .attempt) chain none)).toNode h
    let accepts := fun s : Schema => s.accepts? h r.copies f.site.path f.prefs v
    let alone := fun (s : Schema) a => ∃ n, r.copies ≤ n ∧ s.alone h n f.site.path f.prefs v = .ok a
    ((∃ w, (((node ss).base f v).exec r).1 = .ok (some ⟨w, []⟩)) ↔ ∃ s ∈ ss, (accepts s).isSome) ∧
    (∀ before s after u, ss = before ++ s :: after → (∀ t ∈ before, accepts t = none) → accepts s = some u →
      ∃ w r', alone s ⟨w, []⟩ ∧ Like r.copies u w ∧
        ∀ more, ((node (before ++ s :: more)).base f v).exec r = (.ok (some ⟨w, []⟩), r')) ∧
    ((∀ s ∈ ss, accepts s = none) → ∃ as, List.Forall₂ (fun s a => a.errors ≠ [] ∧ alone s a) ss as ∧
      (∀ o, (((node ss).base f v).exec r).1 = .ok (some o) →
        o.value = v ∧ Diagnosis f (as.flatMap Result.errors) o.errors) ∧
      (Issue.Legible (as.flatMap Result.errors) → ∃ o, (((node ss).base f v).exec r).1 = .ok (some o))) := by
  intro node accepts alone
  have based : ∀ ss', ((node ss').base f v).exec r = Eval.andThen (fun o => pure (some o))
      ((Alternatives.first h f v (Schema.evalAlternatives h (ss'.map .attempt)) []).exec r) := by
    intro ss'
    show (Alternatives.base h none _ f v).exec r = _
    rw [Alternatives.base, Eval.exec_bind]
  have taken : ∀ before s after u, ss = before ++ s :: after → (∀ t ∈ before, accepts t = none) → accepts s = some u →
      ∃ w r', alone s ⟨w, []⟩ ∧ Like r.copies u w ∧
        ∀ more, ((node (before ++ s :: more)).base f v).exec r = (.ok (some ⟨w, []⟩), r') := by
    rintro before s after u rfl rejected accepted
    obtain ⟨asked, itself, -⟩ := returns.of_rejected rejected
    obtain ⟨here, others⟩ := List.forall_mem_append.mp contained
    obtain ⟨n, w, r', least, isAlone, like, first⟩ := Alternatives.first_accepts
      (List.forall_mem_append.mpr ⟨here, List.forall_mem_singleton.mpr (List.forall_mem_cons.mp others).1⟩)
      (List.forall_mem_append.mpr ⟨asked, List.forall_mem_singleton.mpr itself⟩) rejected accepted [] r (Nat.le_refl _)
    refine ⟨w, r', ⟨n, least, isAlone⟩, like, fun more => ?_⟩
    rw [based, first more]
    rfl
  have untaken : (∀ s ∈ ss, accepts s = none) → ∃ as, List.Forall₂ (fun s a => a.errors ≠ [] ∧ alone s a) ss as ∧
      (∀ o, (((node ss).base f v).exec r).1 = .ok (some o) →
        o.value = v ∧ Diagnosis f (as.flatMap Result.errors) o.errors) ∧
      (Issue.Legible (as.flatMap Result.errors) → ∃ o, (((node ss).base f v).exec r).1 = .ok (some o)) := by
    intro rejected
    have asked := (Schema.AskedReturn.of_rejected ((List.append_nil ss).symm ▸ returns) rejected).1
    obtain ⟨as, r', each, concluded⟩ := Alternatives.first_rejects contained asked rejected [] r (Nat.le_refl _)
    rw [List.nil_append] at concluded
    refine ⟨as, each, fun o ran => ?_, fun legible => ?_⟩
    · rw [based, concluded] at ran
      cases consolidated : Alternatives.consolidate f (as.flatMap Result.errors) with
      | error fault =>
          rw [consolidated] at ran
          cases ran
      | ok es =>
          rw [consolidated] at ran
          cases ran
          exact ⟨rfl, Alternatives.consolidate_diagnoses consolidated⟩
    · obtain ⟨es, consolidated⟩ := Alternatives.consolidate_legible (f := f) legible
      refine ⟨⟨v, es⟩, ?_⟩
      rw [based, concluded, consolidated]
      rfl
  refine ⟨⟨?_, ?_⟩, taken, untaken⟩
  · rintro ⟨w, ran⟩
    by_contra none
    obtain ⟨as, -, diagnosed, -⟩ := untaken (by simpa using none)
    exact (diagnosed _ ran).2.ne_nil rfl
  · intro some
    obtain ⟨u, found⟩ := Option.isSome_iff_exists.mp (List.findSome?_isSome_iff.mpr some)
    obtain ⟨before, s, after, split, accepted, rejected⟩ := List.findSome?_eq_some_iff.mp found
    obtain ⟨w, r', -, -, ran⟩ := taken before s after u split rejected accepted
    exact ⟨w, congrArg Prod.fst (split ▸ ran after)⟩

def textFrame : Frame := ⟨.alternatives, none, {}, {}, .str "x", .str "x"⟩

def nullFrame : Frame := ⟨.alternatives, none, {}, {}, .null, .null⟩

/-- A text is taken by the second attempt. For null neither type is right. -/
theorem numberThenText_united :
    let node := fun ss => (Schema.node {} none (.alternatives (ss.map .attempt) .isOpen none)).toNode .idle
    (∃ w r', Like 0 (.str "x") w ∧
      ∀ more, ((node (numberThenText ++ more)).base textFrame (.str "x")).exec {} = (.ok (some ⟨w, []⟩), r')) ∧
    ∃ is o, (((node numberThenText).base nullFrame .null).exec {}).1 = .ok (some o) ∧ Diagnosis nullFrame is o.errors ∧
      o.errors = [.report (nullFrame.fail "alternatives.types" [(.str "types", .list [.str "number", .str "string"])])] := by
  have contained : ∀ s ∈ numberThenText, s.SelfContained 0 := by
    intro s member
    rcases List.mem_pair.mp member with rfl | rfl <;> exact ⟨rfl, rfl, rfl⟩
  have returns : ∀ v, (v = .str "x" ∨ v = .null) → Schema.AskedReturn .idle 0 [] {} v numberThenText := by
    rintro v (rfl | rfl) <;> exact ⟨fun n _ => ⟨_, rfl⟩, fun _ => ⟨fun n _ => ⟨_, rfl⟩, fun _ => trivial⟩⟩
  obtain ⟨-, taken, -⟩ := attempts_unite .idle {} none .isOpen textFrame (.str "x") {} contained (returns _ (.inl rfl))
  obtain ⟨-, -, untaken⟩ := attempts_unite .idle {} none .isOpen nullFrame .null {} contained (returns _ (.inr rfl))
  refine ⟨?_, ?_⟩
  · obtain ⟨w, r', -, like, ran⟩ := taken [.node {} none .number] (.node {} none .string) [] (.str "x") rfl
      (List.forall_mem_singleton.mpr rfl) rfl
    exact ⟨w, r', like, ran⟩
  · obtain ⟨as, -, diagnosed, -⟩ := untaken (by
      intro s member
      rcases List.mem_pair.mp member with rfl | rfl <;> rfl)
    exact ⟨_, _, rfl, (diagnosed _ rfl).2, rfl⟩

end Conform
