import Conform.Validation.Run

/-!
# Writes to a journal

Nothing that a validation does to its journal can be taken back but by a test without a trace, so what
is written between two points is a list of hooks, of warnings and of captured values put on top of what
was there.
-/

namespace Conform

structure Writes where
  hooks : List Pending := []
  warnings : List Report := []
  captures : List (Path × Value) := []

namespace Writes

def captureAll (captures : List (Path × Value)) (s : Option Shadow) : Option Shadow :=
  captures.foldl (fun s c => some ((s.getD {}).set c.1 c.2)) s

/-- A journal with writes on top of it. -/
def onto (w : Writes) (j : Journal Pending Report) : Journal Pending Report where
  externals := j.externals ++ w.hooks
  warnings := j.warnings ++ w.warnings
  shadow := captureAll w.captures j.shadow
  marks := j.marks

def append (w u : Writes) : Writes :=
  ⟨w.hooks ++ u.hooks, w.warnings ++ u.warnings, w.captures ++ u.captures⟩

@[simp] theorem onto_empty (j : Journal Pending Report) : ({} : Writes).onto j = j := by
  simp [onto, captureAll]

theorem onto_append (w u : Writes) (j : Journal Pending Report) :
    (w.append u).onto j = u.onto (w.onto j) := by
  simp [onto, append, captureAll, List.foldl_append]

@[simp] theorem onto_marks (w : Writes) (j : Journal Pending Report) : (w.onto j).marks = j.marks := rfl

theorem restore_onto_snapshot (w : Writes) (j : Journal Pending Report) :
    (w.onto j.snapshot).restore? = some j := by
  simp [onto, Journal.snapshot, Journal.restore?]

end Writes

/-- Which writes are admitted. -/
structure Effects where
  hook : Pending → Prop
  warning : Report → Prop
  captures : Prop

namespace Effects

def all : Effects := ⟨fun _ => True, fun _ => True, True⟩

/-- No write at all. -/
def quiet : Effects := ⟨fun _ => False, fun _ => False, False⟩

structure Admits (ε : Effects) (w : Writes) : Prop where
  hooks : ∀ e ∈ w.hooks, ε.hook e
  warnings : ∀ r ∈ w.warnings, ε.warning r
  captures : w.captures ≠ [] → ε.captures

theorem admits_all (w : Writes) : all.Admits w :=
  ⟨fun _ _ => trivial, fun _ _ => trivial, fun _ => trivial⟩

theorem admits_empty (ε : Effects) : ε.Admits {} :=
  ⟨nofun, nofun, fun absent => absurd rfl absent⟩

theorem quiet_admits (w : Writes) (admitted : quiet.Admits w) : w = {} := by
  obtain ⟨hooks, warnings, captures⟩ := w
  have noHooks : hooks = [] := List.eq_nil_iff_forall_not_mem.mpr admitted.hooks
  have noWarnings : warnings = [] := List.eq_nil_iff_forall_not_mem.mpr admitted.warnings
  have noCaptures : captures = [] := by
    cases captures with
    | nil => rfl
    | cons c cs => exact (admitted.captures (by simp)).elim
  simp only [noHooks, noWarnings, noCaptures]

theorem admits_append (ε : Effects) (w u : Writes) (first : ε.Admits w) (second : ε.Admits u) :
    ε.Admits (w.append u) where
  hooks e member := by
    rcases List.mem_append.mp member with left | right
    · exact first.hooks e left
    · exact second.hooks e right
  warnings r member := by
    rcases List.mem_append.mp member with left | right
    · exact first.warnings r left
    · exact second.warnings r right
  captures present := by
    by_cases left : w.captures = []
    · by_cases right : u.captures = []
      · exact absurd (by simp [Writes.append, left, right]) present
      · exact second.captures right
    · exact first.captures left

end Effects

end Conform
