import Conform.Proofs.AbortEarly

/-!
# Schemas on their own

A schema without references, functions and caches decides about a value at a path once and for all: whatever is
around the value and whatever the run did before, it accepts with the same value, up to the numbers of copies, or
it rejects.
-/

namespace Conform

/-- The value that an evaluation accepts with. -/
def Result.accepted? (a : Result) : Option Value := if a.errors.isEmpty then some a.value else none

theorem Result.accepted?_eq_some {a : Result} {u : Value} : a.accepted? = some u ↔ a = ⟨u, []⟩ := by
  obtain ⟨v, _ | ⟨i, is⟩⟩ := a <;> simp [accepted?]

namespace Schema

/-- What a schema makes of a value at a path with nothing around it, in a run that begins after `n` copies. -/
def alone (h : Hooks) (s : Schema) (n : Nat) (path : Path) (p : Preferences) (v : Value) : Except Fault Result :=
  ((s.eval h v ⟨path, []⟩ p).exec { copies := n }).1

/-- The value that a schema on its own accepts a value with. -/
def accepts? (h : Hooks) (s : Schema) (n : Nat) (path : Path) (p : Preferences) (v : Value) : Option Value :=
  (s.alone h n path p v).toOption.bind Result.accepted?

theorem accepts?_eq_some {h : Hooks} {s : Schema} {n : Nat} {path : Path} {p : Preferences} {u v : Value} :
    s.accepts? h n path p v = some u ↔ s.alone h n path p v = .ok ⟨u, []⟩ := by
  unfold accepts?
  cases s.alone h n path p v with
  | error f => simp [Except.toOption]
  | ok a => simpa [Except.toOption] using Result.accepted?_eq_some

/-- On its own a schema raises in no run that begins after `k` copies or more. -/
def Returns (h : Hooks) (s : Schema) (k : Nat) (path : Path) (p : Preferences) (v : Value) : Prop :=
  ∀ n, k ≤ n → ∃ a, s.alone h n path p v = .ok a

/-- A schema without references, functions and caches, none of whose literals is a copy from the `k`-th on. -/
structure SelfContained (k : Nat) (s : Schema) : Prop where
  unreferenced : s.refs = []
  plain : s.all fun core _ => core.isPlain
  old : s.all (Core.hasOldLiterals k)

variable {k : Nat} {s t : Schema}

theorem SelfContained.below (contained : s.SelfContained k) (below : s.Below t) : t.core.Plain :=
  Core.isPlain.plain (all_below contained.plain below)

end Schema

/-- An evaluator that decides about a value at a path wherever it is asked: it accepts with a value like the one
given, or it rejects. -/
def Evaluator.Decides (k : Nat) (e : Evaluator) (path : Path) (p : Preferences) (v : Value) (d : Option Value) : Prop :=
  ∀ (around : List Value) (r : Run), k ≤ r.copies → ∃ a r', (e v ⟨path, around⟩ p).exec r = (.ok a, r') ∧
    k ≤ r'.copies ∧ Option.Rel (Datum.Like k) d a.accepted?

namespace Evaluator.Decides

variable {k : Nat} {e : Evaluator} {path : Path} {p : Preferences} {u v : Value} {r : Run}

theorem accepts (decides : e.Decides k path p v (some u)) (around : List Value) (enough : k ≤ r.copies) :
    ∃ a r', (e v ⟨path, around⟩ p).exec r = (.ok a, r') ∧ k ≤ r'.copies ∧ a.errors = [] ∧ Datum.Like k u a.value := by
  obtain ⟨⟨w, errors⟩, r', ran, stays, agrees⟩ := decides around r enough
  cases errors with
  | nil =>
      cases agrees with
      | some like => exact ⟨⟨w, []⟩, r', ran, stays, rfl, like⟩
  | cons i is => cases agrees

theorem rejects (decides : e.Decides k path p v none) (around : List Value) (enough : k ≤ r.copies) :
    ∃ a r', (e v ⟨path, around⟩ p).exec r = (.ok a, r') ∧ k ≤ r'.copies ∧ a.errors ≠ [] := by
  obtain ⟨⟨w, errors⟩, r', ran, stays, agrees⟩ := decides around r enough
  cases errors with
  | nil => cases agrees
  | cons i is => exact ⟨⟨w, i :: is⟩, r', ran, stays, List.cons_ne_nil i is⟩

end Evaluator.Decides

namespace Schema

variable {h : Hooks} {k : Nat} {s : Schema} {path : Path} {p : Preferences} {v : Value}

/-- What is around a value and what a run did before its copies play no part. -/
theorem SelfContained.exec_eq (contained : s.SelfContained k) (around : List Value) (r : Run) :
    ((s.eval h v ⟨path, around⟩ p).exec r).1 = s.alone h r.copies path p v := by
  have sites : Bounds.apart.Sites ⟨path, around⟩ ⟨path, []⟩ := ⟨rfl, nofun, Bounds.free_site _⟩
  have prefs : Bounds.apart.Prefs p p := ⟨⟨p.context, rfl⟩, nofun, trivial⟩
  have alike := s.apart_alike h contained.unreferenced contained.plain path p v _ _ _ _ trivial sites prefs rfl rfl
  exact (alike r { copies := r.copies } (Bounds.free_linked _ _ _ r _ trivial rfl nofun)).outcome

/-- What a schema makes of a value on its own it makes of it anywhere. -/
theorem SelfContained.decides (contained : s.SelfContained k) (returns : s.Returns h k path p v) :
    (s.eval h).Decides k path p v (s.accepts? h k path p v) := by
  intro around r enough
  obtain ⟨a, here⟩ := returns r.copies enough
  obtain ⟨b, first⟩ := returns k (Nat.le_refl k)
  have grows := s.eval_grows fun t below => (contained.below below).callsGrow (h := h)
  have ran := (contained.exec_eq around r).trans here
  have concur := (s.plain_concurs contained.unreferenced (fun t => contained.below) contained.old
    (fun never : False => never.elim) true p p (.same p) v v (.refl v) ⟨path, []⟩ ⟨path, around⟩ rfl { copies := k } r (Nat.le_refl k) enough
    b a _ _ (Prod.ext first rfl) (Prod.ext ran rfl)).1
  refine ⟨a, _, Prod.ext ran rfl, Nat.le_trans enough (grows v _ p r).copies, ?_⟩
  unfold accepts?
  rw [first]
  obtain ⟨x, es⟩ := b
  obtain ⟨y, ds⟩ := a
  cases concur with
  | accept like => exact .some like
  | reject left right _ =>
      simp only [Except.toOption, Option.bind_some, Result.accepted?, List.isEmpty_eq_false_iff.mpr left,
        List.isEmpty_eq_false_iff.mpr right, Bool.false_eq_true, if_false]
      exact .none

end Schema

end Conform
