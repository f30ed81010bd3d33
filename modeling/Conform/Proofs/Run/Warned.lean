import Conform.Proofs.Messages
import Conform.Proofs.Validation.Entry

/-!
# Computations that only warn

A computation that writes nothing but warnings is followed by its outcome and by what its warnings say.
-/

namespace Conform

/-! ## Reports that can be shown -/

/-- Whether a template can be read and the names it may use are texts. -/
def Template.isShown (template : Value) (locals : Dict) : Bool :=
  match template with
  | .str source => (Template.read source).isOk && locals.all fun e => e.1.isText
  | _ => false

namespace ReportOf

/-- What a report says has a property. -/
def Tells (told : Value → Dict → Prop) (r : Report) : Prop := told r.template r.locals

abbrev isShown (r : Report) : Bool := Template.isShown r.template r.locals

theorem locals_subset (r : Report) : r.locals ⊆ r.context := by
  have added : ∀ (k : String) (v : Value) (es : Dict), es ⊆ addDefault k v es := by
    intro k v es e member
    unfold addDefault
    split
    · exact member
    · exact List.mem_append_left _ member
  intro e member
  have labelled := added "label" (.str r.label) r.locals member
  have valued : e ∈ (if r.value.isUndefined then addDefault "label" (.str r.label) r.locals
      else addDefault "value" r.value (addDefault "label" (.str r.label) r.locals)) := by
    split
    · exact labelled
    · exact added _ _ _ labelled
  unfold context
  simp only
  split
  · exact added _ _ _ valued
  · exact valued

theorem isShown_iff {r : Report} : r.isShown ↔ ∃ d, r.detail = .ok d := by
  have named : (r.context.all fun e => e.1.isText) = r.locals.all fun e => e.1.isText := by
    rw [Bool.eq_iff_iff, List.all_eq_true, List.all_eq_true]
    exact ⟨fun each e member => each e (r.locals_subset member), context_text⟩
  unfold isShown Template.isShown detail message Template.renderSource
  rw [named]
  cases r.template with
  | str source =>
      cases read : Template.read source with
      | error f => simp [Except.isOk, Except.toBool, read, bind, Except.bind]
      | ok t =>
          cases r.locals.all fun e => e.1.isText <;>
            simp [Except.isOk, Except.toBool, read, bind, Except.bind, pure, Except.pure, throw, throwThe,
              MonadExceptOf.throw]
  | _ => simp [bind, Except.bind, throw, throwThe, MonadExceptOf.throw]

theorem details_isOk {rs : List Report} : (∃ ds, rs.mapM detail = .ok ds) ↔ ∀ r ∈ rs, r.isShown := by
  induction rs with
  | nil => simp [pure, Except.pure]
  | cons r rs ih =>
      rw [List.forall_mem_cons, ← ih, isShown_iff, List.mapM_cons]
      cases r.detail with
      | error f => simp [bind, Except.bind]
      | ok d => cases rs.mapM detail <;> simp [bind, Except.bind, pure, Except.pure]

end ReportOf

theorem Validation.warningOf_isOk {ws : List Report} : (∃ w, warningOf ws = .ok w) ↔ ∀ w ∈ ws, w.isShown := by
  rw [← ReportOf.details_isOk]
  unfold warningOf
  cases ws with
  | nil => simp [pure, Except.pure]
  | cons w ws =>
      cases (w :: ws).mapM ReportOf.detail <;> simp [bind, Except.bind, pure, Except.pure]

/-! ## Runs with more warnings -/

namespace Run

def warned (ws : List Report) (r : Run) : Run :=
  r.onJournal fun j => { j with warnings := j.warnings ++ ws }

@[simp] theorem warned_nil (r : Run) : r.warned [] = r := by
  simp [warned, onJournal]

theorem warned_append (ws vs : List Report) (r : Run) : r.warned (ws ++ vs) = (r.warned ws).warned vs := by
  simp [warned, onJournal]

end Run

variable {α β : Type} {told : Value → Dict → Prop}

/-- Where a computation succeeds it has only warned, and its outcome has a property if the warnings say what they may. -/
def Warns (told : Value → Dict → Prop) (Q : α → Prop) (x : Eval α) : Prop :=
  ∀ r a s, x.exec r = (.ok a, s) → ∃ ws, s = r.warned ws ∧ ((∀ w ∈ ws, w.Tells told) → Q a)

/-- A computation succeeds with an outcome from every run, and its warnings say what they may. -/
def Gives (told : Value → Dict → Prop) (a : α) (x : Eval α) : Prop :=
  ∀ r, ∃ ws, x.exec r = (.ok a, r.warned ws) ∧ ∀ w ∈ ws, w.Tells told

theorem Eval.exec_warnAll (ws : List Report) (r : Run) : (ws.forM Eval.warn).exec r = (.ok (), r.warned ws) := by
  induction ws generalizing r with
  | nil => rw [Run.warned_nil]; rfl
  | cons w ws ih =>
      have first : (Eval.warn w).exec r = (.ok (), r.warned [w]) := rfl
      show (Eval.warn w >>= fun _ => ws.forM Eval.warn).exec r = _
      rw [Eval.exec_bind, first, Eval.andThen_ok, ih, ← Run.warned_append, List.singleton_append]

namespace Warns

variable {P Q : α → Prop} {R : β → Prop} {x : Eval α}

theorem pure {a : α} (holds : Q a) : Warns told Q (pure a) := by
  intro r b s ran
  obtain ⟨rfl, rfl⟩ : a = b ∧ r = s := by simpa using ran
  exact ⟨[], r.warned_nil.symm, fun _ => holds⟩

theorem lift {e : Except Fault α} (holds : ∀ a, e = .ok a → Q a) : Warns told Q (liftM e) := by
  intro r a s ran
  rw [Eval.exec_lift] at ran
  obtain ⟨same, rfl⟩ := Prod.mk.inj ran
  exact ⟨[], r.warned_nil.symm, fun _ => holds a same⟩

theorem mono (warns : Warns told P x) (weaker : ∀ a, P a → Q a) : Warns told Q x := by
  intro r a s ran
  obtain ⟨ws, left, holds⟩ := warns r a s ran
  exact ⟨ws, left, fun tell => weaker a (holds tell)⟩

theorem bind {g : α → Eval β} (first : Warns told Q x) (then_ : ∀ a, Warns told (fun b => Q a → R b) (g a)) :
    Warns told R (x >>= g) := by
  intro r b s ran
  obtain ⟨a, between, left, right⟩ := Eval.bind_ok ran
  obtain ⟨ws, rfl, before⟩ := first r a between left
  obtain ⟨vs, rfl, after⟩ := then_ a _ b s right
  refine ⟨ws ++ vs, (r.warned_append ws vs).symm, fun tell => ?_⟩
  obtain ⟨here, there⟩ := List.forall_mem_append.mp tell
  exact after there (before here)

theorem warn (w : Report) : Warns told (fun _ => w.Tells told) (Eval.warn w) := by
  intro r a s ran
  exact ⟨[w], (congrArg Prod.snd ran).symm, fun tell => tell w (List.mem_singleton_self w)⟩

theorem warnAll (ws : List Report) : Warns told (fun _ => ∀ w ∈ ws, w.Tells told) (ws.forM Eval.warn) := by
  intro r a s ran
  rw [Eval.exec_warnAll] at ran
  exact ⟨ws, (congrArg Prod.snd ran).symm, id⟩

end Warns

namespace Gives

variable {a : α} {b : β} {x : Eval α}

theorem pure : Gives told a (pure a) := fun r => ⟨[], by simp, List.forall_mem_nil _⟩

theorem lift {e : Except Fault α} (same : e = .ok a) : Gives told a (liftM e) := by
  intro r
  refine ⟨[], ?_, List.forall_mem_nil _⟩
  rw [Eval.exec_lift, same, Run.warned_nil]

theorem bind {g : α → Eval β} (first : Gives told a x) (then_ : Gives told b (g a)) : Gives told b (x >>= g) := by
  intro r
  obtain ⟨ws, left, here⟩ := first r
  obtain ⟨vs, right, there⟩ := then_ (r.warned ws)
  refine ⟨ws ++ vs, ?_, List.forall_mem_append.mpr ⟨here, there⟩⟩
  rw [Eval.exec_bind, left, Eval.andThen_ok, right, Run.warned_append]

theorem warn {w : Report} (tell : w.Tells told) : Gives told () (Eval.warn w) :=
  fun _ => ⟨[w], rfl, List.forall_mem_singleton.mpr tell⟩

theorem warnAll {ws : List Report} (tell : ∀ w ∈ ws, w.Tells told) : Gives told () (ws.forM Eval.warn) :=
  fun r => ⟨ws, Eval.exec_warnAll ws r, tell⟩

end Gives

end Conform
