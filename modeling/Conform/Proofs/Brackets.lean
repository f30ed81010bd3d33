import Conform.Journal

/-!
# Snapshots as brackets

A snapshot opens a bracket, and the restore that goes with it closes the bracket and gives the journal back, whatever
was written and bracketed in between.
-/

namespace Conform.Journal

/-- An addition to a journal. A capture under a path that is not all keys fails, but stays entered as far as they go. -/
inductive Write (ε ω : Type) where
  | hook (e : ε)
  | warning (w : ω)
  | capture (p : Path) (v : Value)

inductive Op (ε ω : Type) where
  | write (w : Write ε ω)
  | snapshot
  | restore

/-- Operations in which every snapshot goes with a restore after it, and every restore with a snapshot before it. -/
inductive Balanced {ε ω : Type} : List (Op ε ω) → Prop
  | done : Balanced []
  | write (w : Write ε ω) {ops : List (Op ε ω)} (rest : Balanced ops) : Balanced (.write w :: ops)
  | bracket {inner later : List (Op ε ω)} (inside : Balanced inner) (rest : Balanced later) :
      Balanced (.snapshot :: inner ++ .restore :: later)

variable {ε ω : Type} {ops : List (Op ε ω)} {i j k : Journal ε ω}

def write (w : Write ε ω) (j : Journal ε ω) : Journal ε ω :=
  match w with
  | .hook e => j.queue e
  | .warning w => j.warn w
  | .capture p v => { j with shadow := some ((j.shadow.getD {}).insert p v).1 }

def perform (j : Journal ε ω) : Op ε ω → Option (Journal ε ω)
  | .write w => some (j.write w)
  | .snapshot => some j.snapshot
  | .restore => j.restore?

/-- Performs operations in turn, unless a restore has no snapshot before it. -/
def performAll (ops : List (Op ε ω)) (j : Journal ε ω) : Option (Journal ε ω) := ops.foldlM perform j

/-- Under a path of keys a capture is the one that an evaluation makes. -/
theorem write_capture {p : Path} (keys : p.all Datum.isHashable) (v : Value) (j : Journal ε ω) :
    j.write (.capture p v) = j.capture p v := by
  simp [write, capture, Shadow.insert, keys]

/-- A journal that goes on from another one, with the same marks. -/
structure Extends (j k : Journal ε ω) : Prop where
  hooks : j.externals <+: k.externals
  warnings : j.warnings <+: k.warnings
  marks : k.marks = j.marks

theorem Extends.refl (j : Journal ε ω) : j.Extends j := ⟨List.prefix_rfl, List.prefix_rfl, rfl⟩

theorem Extends.trans (first : i.Extends j) (second : j.Extends k) : i.Extends k where
  hooks := first.hooks.trans second.hooks
  warnings := first.warnings.trans second.warnings
  marks := second.marks.trans first.marks

theorem extends_write (w : Write ε ω) (j : Journal ε ω) : j.Extends (j.write w) := by
  cases w with
  | hook e => exact ⟨List.prefix_append _ _, List.prefix_rfl, rfl⟩
  | warning w => exact ⟨List.prefix_rfl, List.prefix_append _ _, rfl⟩
  | capture p v => exact ⟨List.prefix_rfl, List.prefix_rfl, rfl⟩

/-- The lengths of a mark cut off what came after it and nothing before it. -/
theorem Extends.restore (onward : j.snapshot.Extends k) : k.restore? = some j := by
  have hooks := List.prefix_iff_eq_take.mp onward.hooks
  have warnings := List.prefix_iff_eq_take.mp onward.warnings
  simp only [snapshot] at hooks warnings
  rw [restore?, onward.marks]
  simp only [snapshot, ← hooks, ← warnings]

theorem Op.foldlM_bracket {σ : Type} (step : σ → Op ε ω → Option σ) (inner later : List (Op ε ω)) (s : σ) :
    (.snapshot :: inner ++ .restore :: later).foldlM step s = step s .snapshot >>= fun opened =>
      inner.foldlM step opened >>= fun ran => step ran .restore >>= fun closed => later.foldlM step closed := by
  rw [List.cons_append, List.foldlM_cons]
  simp only [List.foldlM_append, List.foldlM_cons]

theorem performAll_bracket (inner later : List (Op ε ω)) (j : Journal ε ω) :
    performAll (.snapshot :: inner ++ .restore :: later) j =
      (performAll inner j.snapshot).bind fun k => k.restore?.bind (performAll later) :=
  Op.foldlM_bracket perform inner later j

theorem Balanced.onward (balanced : Balanced ops) (j : Journal ε ω) : ∃ k, performAll ops j = some k ∧ j.Extends k := by
  induction balanced generalizing j with
  | done => exact ⟨j, rfl, .refl j⟩
  | write w _ ih =>
      obtain ⟨k, performed, onward⟩ := ih (j.write w)
      exact ⟨k, performed, (extends_write w j).trans onward⟩
  | bracket _ _ inside rest =>
      -- the inner operations go on from the mark, so the restore after them is back at it
      obtain ⟨m, ran, within⟩ := inside j.snapshot
      obtain ⟨k, performed, onward⟩ := rest j
      exact ⟨k, by rw [performAll_bracket, ran, Option.bind_some, within.restore, Option.bind_some, performed], onward⟩

theorem Balanced.closes (balanced : Balanced ops) (j : Journal ε ω) :
    j.performAll (.snapshot :: ops ++ [.restore]) = some j := by
  obtain ⟨k, ran, within⟩ := balanced.onward j.snapshot
  rw [performAll_bracket, ran, Option.bind_some, within.restore]
  rfl

end Conform.Journal
