import Conform.Proofs.Causes
import Conform.Proofs.Datum.Copies
import Conform.Proofs.Text.Blank

/-!
# Data that meet no cause

A datum is calm if every integer in it, and every integer that a text in it writes, has a float, and if there is no
report in it. Copies and most conversions keep data calm. Where a schema has calm data and nothing else that a fault
could come from, calm data are all that can come up, and no cause is met.
-/

namespace Conform

/-! ## Calm data -/

namespace Datum

/-- Whether there is no integer, or one that has a float. -/
def calmNumber : Option Number → Bool
  | some (.int n) => (Binary64.ofInt? n).isSome
  | _ => true

mutual

def isCalm : Value → Bool
  | .int n => (Binary64.ofInt? n).isSome
  | .str s => calmNumber (Number.read? s)
  | .list xs => calmEach xs
  | .tuple xs => calmEach xs
  | .dict es => calmEntries es
  | .leaf (.report _) => false
  | _ => true

def calmEach : List Value → Bool
  | [] => true
  | x :: xs => isCalm x && calmEach xs

def calmEntries : Dict → Bool
  | [] => true
  | (k, v) :: es => isCalm k && isCalm v && calmEntries es

end

theorem isCalm_str (s : String) : isCalm (.str s) = calmNumber (Number.read? s) := by rw [isCalm]

theorem calmEach_iff {xs : List Value} : calmEach xs ↔ ∀ x ∈ xs, x.isCalm := by
  induction xs with
  | nil => exact ⟨fun _ => List.forall_mem_nil _, fun _ => rfl⟩
  | cons x xs ih => rw [calmEach, Bool.and_eq_true, ih, List.forall_mem_cons]

theorem calmEntries_iff {es : Dict} : calmEntries es ↔ ∀ e ∈ es, e.1.isCalm ∧ e.2.isCalm := by
  induction es with
  | nil => exact ⟨fun _ => List.forall_mem_nil _, fun _ => rfl⟩
  | cons e es ih => rw [calmEntries, Bool.and_eq_true, Bool.and_eq_true, ih, List.forall_mem_cons]

mutual

theorem isCalm_copied (n : Nat) (v : Value) (calm : v.isCalm) : (v.map (Entity.copied n)).relisted.isCalm := by
  cases v with
  | list xs =>
      rw [isCalm] at calm
      rw [map, relisted, isCalm]
      exact calmEach_copied n xs calm
  | tuple xs =>
      rw [isCalm] at calm
      rw [map, relisted, isCalm]
      exact calmEach_copied n xs calm
  | dict es =>
      rw [isCalm] at calm
      rw [map, relisted, isCalm]
      exact calmEntries_copied n es calm
  | leaf e =>
      cases e with
      | report r => cases calm
      | _ => rfl
  | int | str => simpa only [map, relisted] using calm
  | _ => rfl

theorem calmEach_copied (n : Nat) : ∀ xs : List Value, calmEach xs →
    calmEach (relistedEach (mapList (Entity.copied n) xs))
  | [], _ => rfl
  | x :: xs, calm => by
      rw [calmEach, Bool.and_eq_true] at calm
      rw [mapList, relistedEach, calmEach, Bool.and_eq_true]
      exact ⟨isCalm_copied n x calm.1, calmEach_copied n xs calm.2⟩

theorem calmEntries_copied (n : Nat) : ∀ es : Dict, calmEntries es →
    calmEntries (relistedEntries (mapEntries (Entity.copied n) es))
  | [], _ => rfl
  | (k, v) :: es, calm => by
      rw [calmEntries, Bool.and_eq_true, Bool.and_eq_true] at calm
      rw [mapEntries, relistedEntries, calmEntries, Bool.and_eq_true, Bool.and_eq_true]
      exact ⟨⟨isCalm_copied n k calm.1.1, isCalm_copied n v calm.1.2⟩, calmEntries_copied n es calm.2⟩

end

theorem isCalm_copy {v w : Value} {n : Nat} (calm : v.isCalm) (copy : v.copy n = .ok w) : w.isCalm := by
  unfold Datum.copy at copy
  split at copy
  · exact Except.ok.inj copy ▸ isCalm_copied n v calm
  · cases copy

end Datum

/-! ## Conversions -/

theorem Number.read?_trimBlanks (s : String) : read? (Text.trimBlanks s) = read? s := by
  rw [read?, read?, Numeral.read?, Numeral.read?, Text.trimBlanks_trimBlanks]

theorem Datum.isCalm_trimBlanks {s : String} (calm : isCalm (.str s)) : isCalm (.str (Text.trimBlanks s)) := by
  rwa [isCalm_str, Number.read?_trimBlanks, ← isCalm_str]

variable {core : Core} {v w : Value}

theorem isCalm_trimmed (calm : v.isCalm) : (trimmed core v).isCalm := by
  unfold trimmed
  split
  · split
    · exact Datum.isCalm_trimBlanks calm
    · exact calm
  · exact calm

theorem isCalm_coerce {content : Content} {f : Frame} {o : Outcome} (known : content.kind ≠ .probe)
    (cased : core.rule? .case = none) (calm : v.isCalm) (step : coerce core content f v = some o) : o.value.isCalm := by
  cases content with
  | number =>
      obtain ⟨w, coerced, rfl⟩ := Option.map_eq_some_iff.mp step
      unfold coerceNumber at coerced
      split at coerced
      · rename_i s
        obtain ⟨n, read, rfl⟩ := Option.map_eq_some_iff.mp coerced
        cases n with
        | int n =>
            rw [Datum.isCalm_str, read, Datum.calmNumber] at calm
            exact calm
        | float x => rfl
      · cases coerced
  | string =>
      obtain ⟨w, coerced, rfl⟩ := Option.map_eq_some_iff.mp step
      unfold coerceString at coerced
      split at coerced
      · rename_i s
        cases coerced
        unfold coerceText
        rw [cased]
        simp only
        split
        · exact calm
        · split
          · exact Datum.isCalm_trimBlanks calm
          · exact calm
      · cases coerced
  | boolean truthy falsy =>
      obtain ⟨w, coerced, rfl⟩ := Option.map_eq_some_iff.mp step
      cases v with
      | str | int | float =>
          obtain ⟨b, -, rfl⟩ := Option.map_eq_some_iff.mp coerced
          rfl
      | _ => cases coerced
  | probe => exact absurd rfl known
  | _ => cases step

theorem isCalm_prepare {kind : Kind} {f : Frame} {o : Outcome} (known : kind ≠ .probe)
    (step : prepare kind f v = some o) : o.value.isCalm := by
  unfold prepare at step
  split at step
  · exact absurd rfl known
  · cases step

theorem isCalm_cast {kind : Kind} {form : Cast} (known : kind ≠ .probe) (numbers : kind = .number → form ≠ .string)
    (calm : v.isCalm) (step : castValue kind form v = .ok w) : w.isCalm := by
  unfold castValue at step
  split at step
  · exact absurd rfl (numbers rfl)
  · rename_i b
    cases b <;> cases step <;> rfl
  · rename_i b
    cases b <;> cases step <;> rfl
  · exact absurd rfl known
  · cases step
    exact calm

/-! ## Calm schemas -/

/-- Whether a value that is used where there is none is calm and can be copied. -/
def Fallback.isCalm : Option Fallback → Bool
  | some (.static v) => v.isCalm && v.isCopyable
  | _ => true

/-- Whether every path can be read, and every value that a table gives is calm. -/
def Reference.isCalm (r : Reference) : Bool :=
  (r.path.all fun segment => (index? (.str segment)).isOk) && r.table.all fun pairs => pairs.all fun e => e.2.isCalm

/-- Whether no warning has names that are no texts, and no rule changes the case. -/
def RuleEntry.isCalm (e : RuleEntry) : Bool :=
  match e.name with
  | .case => false
  | .warning =>
    match RuleEntry.arg "local" e.args with
    | .dict es => es.all fun d => d.1.isText
    | _ => true
  | _ => true

def ValueSet.isCalm (set : ValueSet) : Bool := set.literalValues.all Datum.isCalm

def Core.isCalm (kind : Kind) (core : Core) : Bool :=
  core.rules.all RuleEntry.isCalm && core.allowed.all ValueSet.isCalm && core.denied.all ValueSet.isCalm
    && Fallback.isCalm core.default && Fallback.isCalm core.failover && core.cache != some .unfit
    && !(kind = .number && core.cast = some .string)

def Content.isCalm : Content → Bool
  | .object (some ks) => ks.all fun e => e.1.isCalm
  | .probe => false
  | _ => true

/-- Whether a schema has calm data, and nothing else that a fault could come from. -/
def Schema.isCalm (s : Schema) : Bool :=
  s.all fun core content =>
    core.isCalm content.kind && content.isCalm && (core.refs ++ content.subjects).all Reference.isCalm

variable {s t : Schema} {given : Value → Prop}

/-- What a check of a whole schema says of a node. -/
structure Schema.Calm (s : Schema) : Prop where
  rules : ∀ e ∈ s.core.rules, e.isCalm
  sets : ∀ set, s.core.allowed = some set ∨ s.core.denied = some set → set.isCalm
  fallbacks : ∀ v, s.core.default = some (.static v) ∨ s.core.failover = some (.static v) → v.isCalm ∧ v.isCopyable
  store : s.core.cache ≠ some .unfit
  cast : s.kind = .number → s.core.cast ≠ some .string
  keys : ∀ ks, s.content = .object (some ks) → ∀ e ∈ ks, e.1.isCalm
  kind : s.kind ≠ .probe
  refs : ∀ r ∈ s.ownRefs, r.isCalm

theorem Schema.calm_below (calm : s.isCalm) (below : s.Below t) : t.Calm := by
  have here := all_below calm below
  simp only [Core.isCalm, Bool.and_eq_true, List.all_eq_true, Option.all_eq_true, bne_iff_ne,
    Bool.not_eq_true'] at here
  obtain ⟨⟨⟨⟨⟨⟨⟨⟨rules, allowed⟩, denied⟩, default⟩, failover⟩, store⟩, cast⟩, content⟩, refs⟩ := here
  have static : ∀ {o : Option Fallback}, Fallback.isCalm o → ∀ v, o = some (.static v) → v.isCalm ∧ v.isCopyable := by
    rintro _ checked v rfl
    exact Bool.and_eq_true_iff.mp checked
  refine ⟨rules, fun set is => is.elim (allowed set) (denied set), fun v is => is.elim (static default v) (static failover v),
    store, fun number text => ?_, fun ks is => ?_, fun probe => ?_, refs⟩
  · rw [Schema.kind] at number
    simp [number, text] at cast
  · rw [is] at content
    exact List.all_eq_true.mp content
  · rw [Schema.kind] at probe
    cases has : t.content with
    | probe =>
        rw [has] at content
        cases content
    | _ =>
        rw [has] at probe
        cases probe

theorem Schema.Calm.rule?_case (calm : t.Calm) : t.core.rule? .case = none := by
  refine List.find?_eq_none.mpr fun e member isCase => ?_
  have here := calm.rules e (List.mem_reverse.mp member)
  rw [RuleEntry.isCalm, beq_iff_eq.mp isCase] at here
  cases here

theorem Data.isCalm (calm : s.isCalm) (input : ∀ v, given v → v.isCalm) {v : Value} (data : Data s given v) :
    v.isCalm := by
  -- Along the ways in which data come up: parts of calm data, literals of the schema, and what its steps make.
  induction data with
  | given isGiven => exact input _ isGiven
  | undefined => rfl
  | list _ each => exact Datum.calmEach_iff.mpr each
  | tuple _ each => exact Datum.calmEach_iff.mpr each
  | dict _ _ keys values => exact Datum.calmEntries_iff.mpr fun e member => ⟨keys e member, values e member⟩
  | item _ member whole => exact Datum.calmEach_iff.mp whole _ member
  | cell _ member whole => exact Datum.calmEach_iff.mp whole _ member
  | key _ member whole => exact (Datum.calmEntries_iff.mp whole _ member).1
  | entry _ member whole => exact (Datum.calmEntries_iff.mp whole _ member).2
  | copied _ copy original => exact Datum.isCalm_copy original copy
  | literal below is member => exact List.all_eq_true.mp ((Schema.calm_below calm below).sets _ is) _ member
  | static below is => exact ((Schema.calm_below calm below).fallbacks _ is).1
  | @mapped t r pairs e below ref table member =>
      have here := (Schema.calm_below calm below).refs r ref
      simp only [Reference.isCalm, table, Option.all_some, Bool.and_eq_true, List.all_eq_true] at here
      exact here.2 e member
  | declared below content member => exact (Schema.calm_below calm below).keys _ content _ member
  | prepared below _ step _ => exact isCalm_prepare (Schema.calm_below calm below).kind step
  | coerced below _ step from_ =>
      have here := Schema.calm_below calm below
      exact isCalm_coerce here.kind here.rule?_case from_ step
  | trimmed _ _ from_ => exact isCalm_trimmed from_
  | cast below asked _ step from_ =>
      have here := Schema.calm_below calm below
      exact isCalm_cast here.kind (fun number same => here.cast number (same ▸ asked)) from_ step

end Conform
