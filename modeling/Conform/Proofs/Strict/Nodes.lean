import Conform.Proofs.Datum.Sameness
import Conform.Proofs.Strict.Rules
import Conform.Proofs.Validation.Approach
import Conform.Proofs.Validation.Scalars

/-!
# Nodes without conversion

A node that only converts and checks gives a value back when it checks it strictly, if its base check hands on what
it has handed on.
-/

namespace Conform

/-- Settings that only convert and check, with all that they name given as data. -/
structure Core.Direct (core : Core) : Prop extends core.Plain where
  refs : core.refs = []
  noDefault : core.default = none
  noFailover : core.failover = none
  noError : core.error = none
  noCast : core.cast = none
  noResult : core.result = none
  noPrefs : core.prefs = none

def Core.isDirect (core : Core) : Bool :=
  core.isPlain && core.refs.isEmpty && core.default.isNone && core.failover.isNone && core.error.isNone
    && core.cast.isNone && core.result.isNone && core.prefs.isNone

theorem Core.isDirect.direct {core : Core} (direct : core.isDirect) : core.Direct := by
  simp only [isDirect, Bool.and_eq_true, List.isEmpty_iff, Option.isNone_iff_eq_none] at direct
  obtain ⟨⟨⟨⟨⟨⟨⟨plain, refs⟩, default⟩, failover⟩, error⟩, cast⟩, result⟩, prefs⟩ := direct
  exact ⟨isPlain.plain plain, refs, default, failover, error, cast, result, prefs⟩

/-- Whether a node is of another type than alternatives and the sample type. -/
def Content.isDirect : Content → Bool
  | .alternatives .. | .probe => false
  | _ => true

def Datum.isScalar {α : Type} : Datum α → Bool
  | .null | .bool _ | .int _ | .float _ | .str _ | .bytes .. | .date _ | .clock _ | .moment _ => true
  | _ => false

theorem Datum.isUndefined_of_isScalar {α : Type} {v : Datum α} (scalar : v.isScalar) : v.isUndefined = false := by
  cases v <;> first | rfl | cases scalar

theorem Datum.isProper_of_isScalar {α : Type} [BEq α] {v : Datum α} (scalar : v.isScalar) : v.isProper := by
  cases v <;> first | rfl | cases scalar

variable {h : Hooks} {told : Value → Dict → Prop} {f f' : Frame} {v w : Value} {n : Node} {core : Core}

/-! ## Conversion -/

theorem coerce_direct (core : Core) {content : Content} (direct : content.isDirect) (f : Frame) (v : Value) :
    coerce core content f v = none ∨ ∃ w, coerce core content f v = some ⟨w, []⟩ ∧ w.isScalar := by
  cases content with
  | number =>
      cases coerced : coerceNumber v with
      | none => exact .inl (by rw [coerce, coerced]; rfl)
      | some w =>
          refine .inr ⟨w, by rw [coerce, coerced]; rfl, ?_⟩
          unfold coerceNumber at coerced
          split at coerced
          · obtain ⟨m, -, rfl⟩ := Option.map_eq_some_iff.mp coerced
            cases m <;> rfl
          · cases coerced
  | string =>
      cases v with
      | str s => exact .inr ⟨_, rfl, rfl⟩
      | _ => exact .inl rfl
  | boolean truthy falsy =>
      cases coerced : coerceBool core.sensitive truthy falsy v with
      | none => exact .inl (by rw [coerce, coerced]; rfl)
      | some w =>
          refine .inr ⟨w, by rw [coerce, coerced]; rfl, ?_⟩
          unfold coerceBool at coerced
          cases v with
          | str | int | float =>
              obtain ⟨b, -, rfl⟩ := Option.map_eq_some_iff.mp coerced
              rfl
          | _ => cases coerced
  | any | array | object => exact .inl rfl
  | alternatives | probe => cases direct

namespace Node

theorem convert_strict (n : Node) (strict : f.prefs.convert = false) (v : Value) : n.convert f v = .goOn v [] := by
  simp [convert, convertStep, strict]

theorem convert_coerce (direct : n.content.isDirect) (kind : f.kind = n.content.kind) (converts : f.prefs.convert)
    (present : v.isUndefined = false) : n.convert f v = match coerce n.core n.content f v with
      | some ⟨w, []⟩ => .goOn w []
      | some ⟨w, es⟩ => .finished w es
      | none => .goOn v [] := by
  have unprepared : prepare f.kind f v = none := by
    rw [kind]
    cases content : n.content with
    | probe => simp [content, Content.isDirect] at direct
    | _ => rfl
  unfold convert convertStep
  simp only [unprepared, present, converts, Bool.not_true, Bool.or_self, Bool.false_eq_true, if_false]
  generalize coerce n.core n.content f v = o
  rcases o with _ | ⟨w, _ | ⟨i, is⟩⟩ <;> rfl

/-- The texts of a text node are such as its conversion makes. -/
def Coerced (n : Node) (v : Value) : Prop :=
  n.content.kind = .string → ∀ t, v = .str t → ∃ s, t = coerceText n.core s

theorem convert_direct (direct : n.content.isDirect) (kind : f.kind = n.content.kind) (converts : f.prefs.convert)
    (v : Value) : ∃ u, n.convert f v = .goOn u [] ∧ u.isUndefined = v.isUndefined ∧ (v.isProper → u.isProper) ∧
      n.Coerced u := by
  by_cases present : v.isUndefined
  · refine ⟨v, by simp [convert, convertStep, present], rfl, id, ?_⟩
    rintro - t rfl
    cases present
  · rw [Bool.not_eq_true] at present
    rw [convert_coerce direct kind converts present]
    rcases coerce_direct n.core direct f v with none | ⟨w, some, scalar⟩
    · rw [none]
      refine ⟨v, rfl, rfl, id, fun isText t same => ?_⟩
      cases content : n.content with
      | string =>
          subst same
          rw [content] at none
          cases none
      | _ => simp [content, Content.kind] at isText
    · rw [some]
      have there := Datum.isUndefined_of_isScalar scalar
      have proper := Datum.isProper_of_isScalar scalar
      refine ⟨w, rfl, there.trans present.symm, fun _ => proper, fun isText t same => ?_⟩
      cases content : n.content with
      | string =>
          rw [content] at some
          cases v with
          | str s =>
              subst same
              exact ⟨s, (Datum.str.inj (congrArg Outcome.value (Option.some.inj some))).symm⟩
          | _ => cases some
      | _ => simp [content, Content.kind] at isText

end Node

/-! ## Base checks -/

/-- What a base check makes of a value. -/
def handed (v : Value) : Option Outcome → Value × List Issue
  | none => (v, [])
  | some o => (o.value, o.errors)

/-- A base check hands on a value without issues, and hands it on again when it is checked strictly. -/
structure Node.HandsOn (told : Value → Dict → Prop) (n : Node) (f : Frame) (v w : Value) : Prop where
  same : w = v ∨ n.core.allowed = none ∧ n.core.denied = none
  text : n.content.kind = .string → w = v ∧ v.isText
  present : v.isUndefined = false → w.isUndefined = false
  again : ∀ f', f.Recheck f' → ∃ o, Gives told o (n.base f' w) ∧ handed w o = (w, [])

theorem Node.HandsOn.alone (text : n.content.kind = .string → v.isText)
    (again : ∀ f', f.Recheck f' → Gives told none (n.base f' v)) : n.HandsOn told f v v :=
  ⟨.inl rfl, fun isText => ⟨rfl, text isText⟩, id, fun f' recheck => ⟨none, again f' recheck, rfl⟩⟩

/-- A node that only converts and checks, by a base check that hands on what it has handed on. -/
structure Node.Direct (told : Value → Dict → Prop) (n : Node) : Prop where
  settings : n.core.Direct
  type : n.content.isDirect
  empty : n.empty = none
  once : RuleEntry.Once n.content.kind n.core.rules
  literals : ∀ s, n.core.allowed = some s → ∀ x ∈ s.literalValues, x.isScalar
  base : ∀ (f : Frame) v, f.prefs.convert →
    Warns told (fun o => (handed v o).2 = [] → v.isProper → n.HandsOn told f v (handed v o).1) (n.base f v)

theorem baseNumber_again (checked : baseNumber f v = .ok none) (f' : Frame) : baseNumber f' v = .ok none := by
  unfold baseNumber at checked ⊢
  cases number : Datum.isNumber v with
  | error fault =>
      rw [number] at checked
      cases checked
  | ok isNumber =>
      rw [number] at checked
      cases isNumber with
      | false => cases checked
      | true =>
          simp only [bind, Except.bind, Bool.not_true, Bool.false_eq_true, if_false] at checked ⊢
          split at checked
          · cases checked
          · rfl

theorem baseString_text {s : String} (nonempty : s ≠ "") (f : Frame) : baseString f (.str s) = none := by
  unfold baseString
  split
  · rename_i same
    exact absurd (Datum.str.inj same) nonempty
  · rfl
  · rename_i other
    exact absurd rfl (other s)

/-- The base checks of scalars leave a value as it is, whatever the frame. -/
theorem Content.leaf_again {content : Content} (direct : content.isDirect) {o : Option Outcome}
    (checked : content.leaf f v = .ok o) (clear : (handed v o).2 = []) :
    o = none ∧ (content.kind = .string → v.isText) ∧ ∀ f', content.leaf f' v = .ok none := by
  cases content with
  | any | array | object =>
      cases checked
      exact ⟨rfl, fun isText => (by cases isText), fun _ => rfl⟩
  | alternatives | probe => cases direct
  | boolean truthy falsy =>
      obtain rfl := Except.ok.inj checked
      by_cases isBool : v.isBool
      · exact ⟨by simp [baseBoolean, isBool], fun isText => (by cases isText), fun f' => by simp [leaf, baseBoolean, isBool]⟩
      · simp [baseBoolean, isBool, handed, Outcome.failed] at clear
  | string =>
      obtain rfl := Except.ok.inj checked
      unfold baseString at clear
      split at clear
      · cases clear
      · rename_i s different
        exact ⟨baseString_text different f, fun _ => rfl, fun f' => congrArg Except.ok (baseString_text different f')⟩
      · cases clear
  | number =>
      rcases leaf_kept checked with rfl | ⟨code, rfl⟩
      · exact ⟨rfl, fun isText => (by cases isText), baseNumber_again checked⟩
      · cases clear

/-! ## Allowed and denied values -/

theorem sameEntry_self {insensitive : Bool} {x v : Value} (scalar : x.isScalar) (same : sameEntry insensitive x v) :
    sameEntry insensitive x x := by
  cases x with
  | str s =>
      unfold sameEntry
      split
      · rename_i left right
        cases left
        cases right
        simp
      · simp [Datum.deepEqual]
  | float x =>
      have ordered : x.isNan = false := by
        cases x with
        | nan mark => cases v <;> simp [sameEntry, Datum.deepEqual, Number.same, Number.compare?] at same
        | _ => rfl
      simpa [sameEntry, Datum.deepEqual] using Number.same_self ordered
  | clock c => simpa [sameEntry, Datum.deepEqual] using Clock.same_self c
  | moment m => simpa [sameEntry, Datum.deepEqual] using Moment.same_self m
  | null | bool | int | bytes | date => simp [sameEntry, Datum.deepEqual, Datum.isNull]
  | _ => cases scalar

namespace ValueSet

theorem findLiteral?_again {s : ValueSet} (literals : ∀ x ∈ s.literalValues, x.isScalar) {insensitive : Bool}
    (found : s.findLiteral? insensitive v = some w) :
    w.isUndefined = false ∧ ∃ u, s.findLiteral? insensitive w = some u := by
  have member := List.mem_of_find?_eq_some found
  have scalar := literals w member
  refine ⟨Datum.isUndefined_of_isScalar scalar, ?_⟩
  rw [← Option.isSome_iff_exists, findLiteral?, List.find?_isSome]
  have same := List.find?_some found
  exact ⟨w, member, sameEntry_self scalar same⟩

end ValueSet

namespace Node

theorem checkAllowed_eq (refs : core.refs = []) (f : Frame) (v : Value) : checkAllowed h core f v = pure (
    match core.allowed with
    | none => .goOn v []
    | some s =>
      match s.findLiteral? core.insensitive v with
      | some u => .finished (if f.prefs.convert then u else v) []
      | none =>
        if core.only then
          let issue := Issue.report (f.report "any.only" v [(.str "valids", .list (s.values true))])
          if f.prefs.abortEarly then .finished v [issue] else .goOn v [issue]
        else .goOn v []) := by
  unfold checkAllowed
  cases allowed : core.allowed with
  | none => rfl
  | some s =>
      simp only [find_eq (Core.set_refs refs (.inl allowed)), pure_bind]
      cases s.findLiteral? core.insensitive v with
      | some u => rfl
      | none => simp only [Option.map_none]; split <;> rfl

theorem checkDenied_eq (refs : core.refs = []) (f : Frame) (v : Value) (es : List Issue) :
    checkDenied h core f v es = pure (
    match core.denied with
    | none => .goOn v es
    | some s =>
      match s.findLiteral? core.insensitive v with
      | none => .goOn v es
      | some _ =>
        let issue := Issue.report (f.report "any.invalid" v [(.str "invalids", .list (s.values true))])
        if f.prefs.abortEarly then .finished v [issue] else .goOn v (es ++ [issue])) := by
  unfold checkDenied
  cases denied : core.denied with
  | none => rfl
  | some s =>
      simp only [find_eq (Core.set_refs refs (.inr denied)), pure_bind]
      cases s.findLiteral? core.insensitive v <;> rfl

/-! ## The stages of a node -/

/-- A value that no list of its node holds. -/
structure Unlisted (core : Core) (v : Value) : Prop where
  allowed : ∀ s, core.allowed = some s → s.findLiteral? core.insensitive v = none ∧ core.only = false
  denied : ∀ s, core.denied = some s → s.findLiteral? core.insensitive v = none

theorem check_unlisted (refs : n.core.refs = []) (unlisted : Unlisted n.core v) (f : Frame) :
    check h n f v = checkBase h n f v [] := by
  have admitted : checkAllowed h n.core f v = pure (.goOn v []) := by
    rw [checkAllowed_eq refs]
    cases allowed : n.core.allowed with
    | none => rfl
    | some s =>
        obtain ⟨missed, open_⟩ := unlisted.allowed s allowed
        simp only [missed, open_, Bool.false_eq_true, if_false]
  have undenied : checkDenied h n.core f v [] = pure (.goOn v []) := by
    rw [checkDenied_eq refs]
    cases denied : n.core.denied with
    | none => rfl
    | some s => simp only [unlisted.denied s denied]
  unfold check
  simp only [admitted, undenied, pure_bind]

theorem presence_some (direct : n.content.isDirect) (f : Frame) : ∃ p, n.presence f = some p := by
  unfold presence
  cases n.core.presence with
  | some p => exact ⟨p, rfl⟩
  | none =>
      cases content : n.content with
      | alternatives => simp [content, Content.isDirect] at direct
      | _ => exact ⟨_, rfl⟩

/-- An absent value stays absent or is refused, and a present one is refused or checked. -/
def underPresence (h : Hooks) (n : Node) (f : Frame) (p : Presence) (v : Value) : Eval (Value × List Issue) :=
  match v.isUndefined, p with
  | true, .required => pure (v, [.report (f.report "any.required" v [])])
  | true, _ => pure (v, [])
  | false, .forbidden => pure (v, [.report (f.report "any.unknown" v [])])
  | false, _ => check h n f v

theorem checkPresence_eq (settings : n.core.Direct) {p : Presence} (asked : n.presence f = some p) (v : Value) :
    checkPresence h n f v = underPresence h n f p v := by
  have shallow : isDeep n.core.default = false := by
    rw [settings.noDefault]
    rfl
  unfold checkPresence underPresence
  rw [asked, shallow]
  cases v.isUndefined <;> cases p <;> rfl

theorem body_direct (empty : n.empty = none) {u : Value} (converted : n.convert f f.given = .goOn u []) :
    body h n f = checkPresence h n f u := by
  unfold body emptied
  rw [converted, empty]
  simp only [pure_bind]

theorem settled_direct (settings : n.core.Direct) (f : Frame) :
    settled h n f = body h n f >>= fun s => pure ⟨s.1, s.2⟩ := by
  have failed : ∀ v es, failover h n.core f v es = pure (v, es) := by
    intro v es
    unfold failover fallback
    rw [settings.noFailover, settings.noError]
    cases es with
    | nil => rfl
    | cons e es =>
        simp only [List.isEmpty_cons, Bool.false_eq_true, if_false, ite_self, pure_bind]
        simp [overridden, Datum.isUndefined]
  have filled : ∀ v es, fill h n.core f v es = pure (v, es) := by
    intro v es
    unfold fill fallback
    rw [settings.noDefault]
    cases v <;> simp [Datum.isUndefined]
  have queued : queue n.core f = pure () := by
    unfold queue
    rw [settings.externals]
    split <;> rfl
  have delivered : ∀ v es, deliver n.core f v es = pure ⟨v, es⟩ := by
    intro v es
    unfold deliver
    rw [settings.noResult]
  unfold settled cast
  rw [settings.noCast, queued]
  simp only [failed, filled, delivered, pure_bind, Eval.lift_ok_bind]

/-! ## Checks that are repeated -/

theorem HandsOn.withCurrent {u : Value} (hands : n.HandsOn told { f with current := u } v w) : n.HandsOn told f v w :=
  ⟨hands.same, hands.text, hands.present, fun f' recheck => hands.again f' ⟨recheck.kind, recheck.prefs⟩⟩

/-- Every rule passes again what was handed on without an issue: it was tested, or conversion stands for it. -/
theorem HandsOn.passes (direct : n.Direct told) (kind : f.kind = n.content.kind) (hands : n.HandsOn told f v w)
    (coerced : n.Coerced v) (tested : ∀ e ∈ n.core.rules, (e.spec f.kind).byConversion = false → Passes h told f w e) :
    ∀ e ∈ n.core.rules, Passes h told f w e := by
  intro e member
  by_cases converted : (e.spec f.kind).byConversion
  · -- The strict check tests what conversion did, so the text must have come out of conversion.
    have isText := kind.symm.trans (RuleEntry.converted converted).1
    obtain ⟨rfl, text⟩ := hands.text isText
    cases w with
    | str t =>
        obtain ⟨s, rfl⟩ := coerced isText t rfl
        exact coerceText_passes (kind ▸ direct.once) member (Core.rule_refs direct.settings.refs member) converted s
    | _ => cases text
  · exact tested e member (by simpa using converted)

theorem HandsOn.checkBase (hands : n.HandsOn told f v w) (passes : ∀ e ∈ n.core.rules, Passes h told f w e)
    (recheck : f.Recheck f') : Gives told (w, []) (checkBase h n f' w []) := by
  obtain ⟨o, based, handed⟩ := hands.again { f' with current := w } (recheck.withCurrent f.current w)
  refine based.bind ?_
  have ruled := applyRules_gives recheck passes
  rcases o with _ | ⟨u, es⟩
  · exact ruled
  · obtain ⟨rfl, rfl⟩ := Prod.mk.inj handed
    exact ruled

section

variable (direct : n.Direct told) (kind : f.kind = n.content.kind) (converts : f.prefs.convert)

include direct kind converts

theorem checkBase_warns (coerced : n.Coerced v) (es : List Issue) :
    Warns told (fun s => s.2 = [] → es = [] ∧ (v.isProper → n.HandsOn told f v s.1 ∧
      ∀ f', f.Recheck f' → Gives told (s.1, []) (checkBase h n f' s.1 []))) (checkBase h n f v es) := by
  have settings := direct.settings
  have rules : ∀ w, Warns told (fun s => (v.isProper → n.HandsOn told f v w) → s.2 = [] → es = [] ∧
      (v.isProper → n.HandsOn told f v s.1 ∧ ∀ f', f.Recheck f' → Gives told (s.1, []) (checkBase h n f' s.1 [])))
      (applyRules h f n.core.rules w es) := by
    intro w
    refine (applyRules_warns (fun _ => Core.rule_refs settings.refs) settings.custom w es).mono fun s passed hands none => ?_
    obtain ⟨clear, same, tested⟩ := passed none
    rw [same]
    refine ⟨clear, fun proper => ⟨hands proper, fun f' recheck => ?_⟩⟩
    exact (hands proper).checkBase ((hands proper).passes direct kind coerced tested) recheck
  unfold checkBase
  refine (direct.base { f with current := v } v converts).bind fun o => ?_
  rcases o with _ | ⟨w, _ | ⟨i, is⟩⟩
  · exact (rules v).mono fun s left hands => left fun proper => (hands rfl proper).withCurrent
  · exact (rules w).mono fun s left hands => left fun proper => (hands rfl proper).withCurrent
  · exact .pure fun _ none => absurd none (by simp)

theorem proceed_warns (coerced : n.Coerced v) (es : List Issue) :
    Warns told (fun s => s.2 = [] → es = [] ∧
      (∀ s, n.core.denied = some s → s.findLiteral? n.core.insensitive v = none) ∧
      (v.isProper → n.HandsOn told f v s.1 ∧
        ∀ f', f.Recheck f' → Gives told (s.1, []) (checkBase h n f' s.1 []))) (proceed h n f v es) := by
  have checked := checkBase_warns (h := h) direct kind converts coerced
  unfold proceed
  simp only [checkDenied_eq direct.settings.refs, pure_bind]
  cases denied : n.core.denied with
  | none => exact (checked es).mono fun s left none => ⟨(left none).1, nofun, (left none).2⟩
  | some s =>
      simp only
      cases missed : s.findLiteral? n.core.insensitive v with
      | none =>
          refine (checked es).mono fun _ left none => ⟨(left none).1, ?_, (left none).2⟩
          rintro _ ⟨⟩
          exact missed
      | some u =>
          simp only
          cases f.prefs.abortEarly with
          | true => exact .pure fun none => absurd none (List.cons_ne_nil _ _)
          | false => exact (checked _).mono fun _ left none => absurd (left none).1 (by simp)

/-- What the checks of a value leave without an issue is there, and they leave it again. -/
theorem check_warns (present : v.isUndefined = false) (coerced : n.Coerced v) :
    Warns told (fun s => s.2 = [] → v.isProper → s.1.isUndefined = false ∧
      ∀ f', f.Recheck f' → Gives told (s.1, []) (check h n f' s.1)) (check h n f v) := by
  have refs := direct.settings.refs
  have further := proceed_warns (h := h) direct kind converts coerced
  have unlisted : (∀ s, n.core.allowed = some s → s.findLiteral? n.core.insensitive v = none ∧ n.core.only = false) →
      Warns told (fun s => s.2 = [] → v.isProper → s.1.isUndefined = false ∧
        ∀ f', f.Recheck f' → Gives told (s.1, []) (check h n f' s.1)) (proceed h n f v []) := by
    intro admitted
    refine (further []).mono fun s left none proper => ?_
    obtain ⟨-, undenied, checked⟩ := left none
    obtain ⟨hands, again⟩ := checked proper
    refine ⟨hands.present present, fun f' recheck => ?_⟩
    -- A base check that changes the value has no lists that could hold the new one.
    have free : Unlisted n.core s.1 := by
      rcases hands.same with same | ⟨noAllowed, noDenied⟩
      · exact same ▸ ⟨admitted, undenied⟩
      · exact ⟨by simp [noAllowed], by simp [noDenied]⟩
    rw [check_unlisted refs free]
    exact again f' recheck
  rw [check_proceed]
  simp only [checkAllowed_eq refs, pure_bind]
  cases allowed : n.core.allowed with
  | none => exact unlisted (by simp [allowed])
  | some s =>
      simp only
      cases found : s.findLiteral? n.core.insensitive v with
      | some u =>
          -- The literal takes the place of the value, and the list holds it, so both checks end here.
          obtain ⟨there, x, again⟩ := ValueSet.findLiteral?_again (direct.literals s allowed) found
          simp only [converts, if_true]
          refine .pure fun _ _ => ⟨there, fun f' recheck => ?_⟩
          rw [check_proceed, checkAllowed_eq refs, pure_bind, allowed]
          simp only [again, recheck.prefs]
          exact .pure
      | none =>
          simp only
          by_cases only : n.core.only
          · simp only [only, if_true]
            cases f.prefs.abortEarly with
            | true => exact .pure fun none => absurd none (List.cons_ne_nil _ _)
            | false => exact (further _).mono fun _ left none => absurd (left none).1 (List.cons_ne_nil _ _)
          · simp only [only]
            refine unlisted fun t same => ?_
            cases allowed.symm.trans same
            exact ⟨found, by simpa using only⟩

theorem checkPresence_warns (coerced : n.Coerced v) :
    Warns told (fun s => s.2 = [] → v.isProper → s.1.isUndefined = v.isUndefined ∧
      ∀ f', f.Recheck f' → Gives told (s.1, []) (checkPresence h n f' s.1)) (checkPresence h n f v) := by
  obtain ⟨p, asked⟩ := presence_some direct.type f
  have again : ∀ f', f.Recheck f' → ∀ w, checkPresence h n f' w = underPresence h n f' p w := by
    intro f' recheck w
    refine checkPresence_eq direct.settings (Eq.trans ?_ asked) w
    unfold presence
    rw [recheck.prefs]
    rfl
  rw [checkPresence_eq direct.settings asked]
  unfold underPresence at again ⊢
  cases present : v.isUndefined with
  | true =>
      cases p with
      | required => exact .pure fun none => absurd none (List.cons_ne_nil _ _)
      | optional | forbidden =>
          refine .pure fun _ _ => ⟨present, fun f' recheck => ?_⟩
          rw [again f' recheck, present]
          exact .pure
  | false =>
      have vetted := check_warns (h := h) direct kind converts present coerced
      cases p with
      | forbidden => exact .pure fun none => absurd none (List.cons_ne_nil _ _)
      | optional | required =>
          refine vetted.mono fun s left none proper => ?_
          obtain ⟨there, vettedAgain⟩ := left none proper
          refine ⟨there, fun f' recheck => ?_⟩
          rw [again f' recheck, there]
          exact vettedAgain f' recheck

theorem body_warns :
    Warns told (fun s => s.2 = [] → f.given.isProper → s.1.isUndefined = f.given.isUndefined ∧
      ∀ f', f.Recheck f' → f'.given = s.1 → Gives told (s.1, []) (body h n f')) (body h n f) := by
  obtain ⟨u, converted, present, proper, coerced⟩ := convert_direct direct.type kind converts f.given
  rw [body_direct direct.empty converted]
  refine (checkPresence_warns direct kind converts coerced).mono fun s left none given => ?_
  obtain ⟨kept, again⟩ := left none (proper given)
  refine ⟨kept.trans present, fun f' recheck given => ?_⟩
  have strict : f'.prefs.convert = false := by
    rw [recheck.prefs]
    rfl
  have taken : n.convert f' f'.given = .goOn s.1 [] := given ▸ convert_strict n strict f'.given
  rw [body_direct direct.empty taken]
  exact again f' recheck

end

end Node

/-- A value that an evaluator accepts and leaves as it is. -/
def Evaluator.Rests (told : Value → Dict → Prop) (e : Evaluator) (p : Preferences) (w : Value) : Prop :=
  ∀ s, Gives told ⟨w, []⟩ (e w s p)

/-- What is accepted with conversion is accepted again without, and left as it is. -/
def Evaluator.Stable (told : Value → Dict → Prop) (e : Evaluator) : Prop :=
  ∀ v s (p : Preferences), p.convert → Warns told (fun r => r.errors = [] → v.isProper →
    r.value.isUndefined = v.isUndefined ∧ e.Rests told p.strict r.value) (e v s p)

theorem Node.evaluate_direct (settings : n.core.Direct) (v : Value) (s : Site) (p : Preferences) :
    n.evaluate h v s p = body h n (n.frame v s p) >>= fun s => pure ⟨s.1, s.2⟩ := by
  have merged : n.merged p = .ok p := by
    unfold merged
    rw [settings.noPrefs]
  rw [evaluate_eq, merged, Eval.lift_ok_bind, through_idle _ _ _ (.inl settings.cache), settled_direct settings]

/-- A value that conversion leaves as it is comes to the checks of its presence. -/
theorem Node.evaluate_unconverted (settings : n.core.Direct) (empty : n.empty = none) {s : Site} {p : Preferences}
    (converted : n.convert (n.frame v s p) v = .goOn v []) {presence : Presence}
    (asked : n.presence (n.frame v s p) = some presence) :
    n.evaluate h v s p = underPresence h n (n.frame v s p) presence v >>= fun s => pure ⟨s.1, s.2⟩ := by
  rw [evaluate_direct settings, body_direct empty converted, checkPresence_eq settings asked]

/-! ## Nodes that take values as they come -/

/-- Whether nodes of a type take a value as it comes and leave it to the preferences what is asked of absence. -/
def Content.isInert : Content → Bool
  | .any | .array _ | .object _ => true
  | .alternatives _ chain _ => chain != .closed
  | _ => false

namespace Schema

variable {content : Content} {p : Preferences}

/-- A node that takes values as they come checks whether it may be there, and then the value. -/
theorem eval_inert (inert : content.isInert) (settings : core.Direct) (unasked : core.presence = none) (v : Value) (s : Site)
    (p : Preferences) : (Schema.node core none content).eval h v s p =
      Node.underPresence h ((Schema.node core none content).toNode h) ⟨content.kind, core.label, s, p, v, v⟩ p.presence v >>=
        fun s => pure ⟨s.1, s.2⟩ := by
  let n := (Schema.node core none content).toNode h
  have converted : n.convert (n.frame v s p) v = .goOn v [] := by
    apply Node.convert_idle <;> cases content <;> first | rfl | cases inert
  have asked : n.presence (n.frame v s p) = some p.presence := by
    show Node.presence { n with content } (n.frame v s p) = _
    unfold Node.presence
    simp only [n, toNode, Schema.core, unasked]
    cases content with
    | alternatives es chain mode => cases chain <;> first | rfl | cases inert
    | _ => rfl
  rw [eval_eq, Node.evaluate_unconverted settings rfl converted asked]
  rfl

/-- A present value that is admitted is left to the checks. -/
theorem eval_checks (inert : content.isInert) (settings : core.Direct) (unasked : core.presence = none)
    (present : v.isUndefined = false) (admitted : p.presence ≠ .forbidden) (s : Site) :
    (Schema.node core none content).eval h v s p =
      Node.check h ((Schema.node core none content).toNode h) ⟨content.kind, core.label, s, p, v, v⟩ v >>=
        fun s => pure ⟨s.1, s.2⟩ := by
  rw [eval_inert inert settings unasked]
  unfold Node.underPresence
  rw [present]
  cases asked : p.presence with
  | forbidden => contradiction
  | _ => rfl

/-- Without lists and rules the base check of the type decides. -/
theorem eval_based (inert : content.isInert) (settings : core.Direct) (unasked : core.presence = none)
    (unlisted : core.allowed = none ∧ core.denied = none) (unruled : core.rules = []) (present : v.isUndefined = false)
    (admitted : p.presence ≠ .forbidden) (s : Site) :
    (Schema.node core none content).eval h v s p =
      evalContent h core content ⟨content.kind, core.label, s, p, v, v⟩ v >>= fun o =>
        pure (o.elim ⟨v, []⟩ fun o => ⟨o.value, o.errors⟩) := by
  let n := (Schema.node core none content).toNode h
  have free : Node.Unlisted n.core v := ⟨by simp [n, toNode, Schema.core, unlisted], by simp [n, toNode, Schema.core, unlisted]⟩
  have rules : n.core.rules = [] := unruled
  rw [eval_checks inert settings unasked present admitted, Node.check_unlisted settings.refs free, Node.checkBase, rules,
    bind_assoc]
  refine congrArg _ (funext fun o => ?_)
  rcases o with _ | ⟨w, _ | ⟨i, is⟩⟩ <;> rfl

end Schema

theorem Node.evaluate_stable (direct : n.Direct told) : (n.evaluate h).Stable told := by
  intro v s p converts
  rw [evaluate_direct direct.settings]
  refine (body_warns direct rfl converts).bind fun a => .pure fun left none proper => ?_
  obtain ⟨kept, again⟩ := left none proper
  refine ⟨kept, fun s' => ?_⟩
  rw [evaluate_direct direct.settings]
  exact (again (n.frame a.1 s' p.strict) ⟨rfl, rfl⟩ rfl).bind .pure

end Conform
