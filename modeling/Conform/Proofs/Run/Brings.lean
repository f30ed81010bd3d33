import Conform.Proofs.Datum.Reports
import Conform.Proofs.Run.Growth
import Conform.Proofs.Run.Warned

/-!
# Computations on data without reports

Where the data of a run hold no report, a computation is followed by what its outcome is and by the warnings that it adds.
-/

namespace Conform

/-- Data without reports. Of issues and faults nothing is asked. -/
def Bounds.reportFree : Bounds where
  value v := v.isReportFree
  key _ := True
  issue _ := True
  fault _ := True
  prefs p := ∀ es, p.context = some es → (Datum.dict es).isReportFree
  tables _ _ := True
  samePlace := True
  sameCopies := True

namespace Bounds

theorem reportFree_lawful : reportFree.Lawful where
  undefined := rfl
  list _ := Datum.isReportFree_list
  tuple _ := Datum.isReportFree_tuple
  dict _ := Datum.isReportFree_dict
  index _ := trivial
  standard es is := by cases is
  matching _ prefs := prefs
  context _ prefs := prefs
  reported _ _ _ _ _ _ _ _ := trivial

theorem reportFree_meets {α : Type} {Q : α → Prop} {o : Except Fault α} (each : ∀ a, o = .ok a → Q a) :
    reportFree.Meets Q o := by
  cases o with
  | ok a => exact each a rfl
  | error f => exact trivial

theorem reportFree_issues (is : List Issue) : reportFree.Issues is := fun _ _ => trivial

end Bounds

/-- No report is captured. -/
def Run.ReportFree (r : Run) : Prop := ∀ t, r.journal.shadow = some t → t.Holds fun v => v.isReportFree

theorem Run.ReportFree.linked {r : Run} (free : r.ReportFree) : Bounds.reportFree.Linked r r :=
  ⟨trivial, fun _ => rfl, fun _ => rfl, free⟩

/-- Captures alone. -/
def Effects.capturing : Effects := ⟨fun _ => False, fun _ => False, True⟩

/-- A later run without captured reports, which has some more warnings, and no more hooks. -/
structure Run.Becomes (W : Report → Prop) (r s : Run) : Prop where
  hooks : s.journal.externals = r.journal.externals
  warnings : ∃ ws, s.journal.warnings = r.journal.warnings ++ ws ∧ ∀ w ∈ ws, W w
  free : s.ReportFree

namespace Run.Becomes

variable {V W : Report → Prop} {r s t : Run}

theorem same (free : s.ReportFree) (journal : s.journal = r.journal) : r.Becomes W s := by
  refine ⟨by rw [journal], ⟨[], ?_, List.forall_mem_nil _⟩, free⟩
  rw [journal, List.append_nil]

theorem trans (first : r.Becomes W s) (second : s.Becomes W t) : r.Becomes W t := by
  obtain ⟨ws, added, each⟩ := first.warnings
  obtain ⟨vs, more, others⟩ := second.warnings
  refine ⟨second.hooks.trans first.hooks, ⟨ws ++ vs, ?_, List.forall_mem_append.mpr ⟨each, others⟩⟩, second.free⟩
  rw [more, added, List.append_assoc]

theorem mono (becomes : r.Becomes V s) (weaker : ∀ w, V w → W w) : r.Becomes W s := by
  obtain ⟨ws, added, each⟩ := becomes.warnings
  exact ⟨becomes.hooks, ⟨ws, added, fun w member => weaker w (each w member)⟩, becomes.free⟩

end Run.Becomes

variable {α β : Type} {W : Report → Prop}

/-- Where a computation on data without reports succeeds, its warnings and its outcome have some properties. -/
def Brings (W : Report → Prop) (Q : α → Prop) (x : Eval α) : Prop :=
  ∀ r a s, r.ReportFree → x.exec r = (.ok a, s) → r.Becomes W s ∧ Q a

namespace Brings

variable {P Q : α → Prop} {R : β → Prop} {x : Eval α}

theorem pure {a : α} (holds : Q a) : Brings W Q (pure a) := by
  intro r b s free ran
  obtain ⟨rfl, rfl⟩ : a = b ∧ r = s := by simpa using ran
  exact ⟨.same free rfl, holds⟩

theorem throw {f : Fault} : Brings W Q (throw f) := by
  intro r a s free ran
  cases ran

theorem lift {e : Except Fault α} (holds : ∀ a, e = .ok a → Q a) : Brings W Q (liftM e) := by
  intro r a s free ran
  rw [Eval.exec_lift] at ran
  obtain ⟨same, rfl⟩ := Prod.mk.inj ran
  exact ⟨.same free rfl, holds a same⟩

theorem bind {g : α → Eval β} (first : Brings W Q x) (then_ : ∀ a, Q a → Brings W R (g a)) : Brings W R (x >>= g) := by
  intro r b s free ran
  obtain ⟨a, between, left, right⟩ := Eval.bind_ok ran
  obtain ⟨here, holds⟩ := first r a between free left
  obtain ⟨there, result⟩ := then_ a holds between b s here.free right
  exact ⟨here.trans there, result⟩

theorem mono (brings : Brings W P x) (weaker : ∀ a, P a → Q a) : Brings W Q x := fun r a s free ran =>
  (brings r a s free ran).imp id (weaker a)

theorem ran (brings : Brings W Q x) : Brings W (fun a => Q a ∧ ∃ r s, x.exec r = (.ok a, s)) x := fun r a s free ran =>
  (brings r a s free ran).imp id fun holds => ⟨holds, r, s, ran⟩

theorem widen {V : Report → Prop} (brings : Brings V Q x) (weaker : ∀ w, V w → W w) : Brings W Q x := fun r a s free ran =>
  (brings r a s free ran).imp (fun becomes => becomes.mono weaker) id

theorem warn {w : Report} (noted : W w) : Brings W (fun _ => True) (Eval.warn w) := by
  intro r a s free ran
  obtain rfl : r.warned [w] = s := congrArg Prod.snd ran
  exact ⟨⟨rfl, ⟨[w], rfl, List.forall_mem_singleton.mpr noted⟩, free⟩, trivial⟩

theorem warnAll {ws : List Report} (noted : ∀ w ∈ ws, W w) : Brings W (fun _ => True) (ws.forM Eval.warn) := by
  intro r a s free ran
  rw [Eval.exec_warnAll] at ran
  obtain rfl : r.warned ws = s := congrArg Prod.snd ran
  exact ⟨⟨rfl, ⟨ws, rfl, noted⟩, free⟩, trivial⟩

theorem withoutTrace (grows : Grows freely x) : Brings W (fun _ => True) (Eval.withoutTrace x) := by
  intro r a s free ran
  have journal := grows.traceless r
  rw [ran] at journal
  refine ⟨.same (fun t captured => ?_) journal, trivial⟩
  exact free t (journal ▸ captured)

theorem ofAlike (alike : Alike .reportFree .capturing Q x x) : Brings W Q x := by
  intro r a s free ran
  obtain ⟨-, met, linked, w, admitted, written, -⟩ := alike r r free.linked
  rw [ran] at met linked written
  have hooks : w.hooks = [] := List.eq_nil_iff_forall_not_mem.mpr admitted.hooks
  have warnings : w.warnings = [] := List.eq_nil_iff_forall_not_mem.mpr admitted.warnings
  have journal : s.journal = w.onto r.journal := written
  refine ⟨⟨?_, ⟨[], ?_, List.forall_mem_nil _⟩, linked.captured⟩, met⟩
  · rw [journal, Writes.onto, hooks, List.append_nil]
  · rw [journal, Writes.onto, warnings]

end Brings

end Conform
