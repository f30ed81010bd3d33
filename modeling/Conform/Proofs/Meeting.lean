import Conform.Proofs.Standing
import Conform.Proofs.Validation.Entry

/-!
# Hooks and their nodes

After an accepted pass each hook is looked up by the path of the visit that queued it. It meets the node of
that visit where the result keeps its place. The path of an array item leads elsewhere as soon as the array
drops an item up to it.
-/

namespace Conform

open Validation (runHook replaceAt)

variable {h : Hooks}

namespace Visit

/-- The result has the place of the visit, or has no value above it. -/
inductive Kept (e : Visit h) : Path → Visit h → Prop
  | stands {q : Path} {d : Visit h} {u : Value} (stands : e.Stands q d u) : Kept e q d
  | sinks {p s : Path} {k : Value} {c d : Visit h} (stands : e.Stands p c .undefined)
      (below : c.Visits (k :: s) d) : Kept e (p ++ k :: s) d

/-- A container does not hand on a child at the segment of its visit: it gives something else than what it
built, a child of it was rejected, or the child is an array item behind a dropped one or dropped itself. -/
def Drops (a : Visit h) (k : Value) (c : Visit h) : Prop :=
  ∃ cs built, a.Children cs built ∧ (k, c) ∈ cs ∧
    (a.result.value ≠ built ∨ (∃ b ∈ cs, b.2.accepts = false) ∨
      ∃ t i, a.schema.content = .array [t] ∧ cs[i]? = some (k, c) ∧ place cs i ≠ some i)

/-- A container on the way to the visit drops the child on the way. -/
def Lost (e : Visit h) (q : Path) (d : Visit h) : Prop :=
  ∃ p a k c s, q = p ++ k :: s ∧ e.Stands p a a.result.value ∧ a.Drops k c ∧ c.Visits s d

/-- The hook is called with what stands at its path, as the hooks before it have changed it. Its answer lands
there, and what stands elsewhere is as before. -/
def Met (h : Hooks) (before : List Pending) (hook : Pending) (u root : Value) (r : Run) : Prop :=
  ∃ node, reach root hook.path = .ok node ∧ Updated h hook.path before u node ∧
    ∀ answer s, (h.external hook.fn node).exec r = (.ok answer, s) →
      ∃ after, (runHook h root hook).exec r = (.ok after, s) ∧ Lands root hook.path answer after ∧
        (after = root ∨ ∃ v, answer = some v ∧ reach after hook.path = .ok v) ∧
        ∀ p, Open root p → Diverge hook.path p → reach after p = reach root p

/-- The hook is called without a datum, and its answer changes nothing. -/
def Missed (h : Hooks) (hook : Pending) (root : Value) (r : Run) : Prop :=
  reach root hook.path = .ok .undefined ∧
    ∀ answer s, (h.external hook.fn .undefined).exec r = (.ok answer, s) →
      (Quiet answer ∧ (runHook h root hook).exec r = (.ok root, s)) ∨
        (¬ Quiet answer ∧ (runHook h root hook).exec r = (.error (misplaced hook.path), s))

/-- After the hooks before it a hook meets what the result has of the visit that queued it. That is the
value of the visit, unless its key is stripped. -/
def Meets (e : Visit h) (before : List Pending) (hook : Pending) : Prop :=
  ∃ d, e.Visits hook.path d ∧ d.Queued hook ∧
    ((∃ u, e.Stands hook.path d u ∧ (u = d.result.value ∨ d.schema.strips ∧ u = .undefined) ∧
        ∀ r root r', (before.foldlM (runHook h) e.result.value).exec r = (.ok root, r') →
          Met h before hook u root r') ∨
      ∃ p k s c, hook.path = p ++ k :: s ∧ e.Stands p c .undefined ∧ c.Visits (k :: s) d ∧
        ∀ r root r', (before.foldlM (runHook h) e.result.value).exec r = (.ok root, r') →
          Missed h hook root r')

/-- In an array with dropped items, the index of a visit leads to a later item or to none. -/
def Misses (a : Visit h) (cs : List (Value × Visit h)) (i : Nat) : Prop :=
  (∃ j c, i < j ∧ cs[j]? = some c ∧ place cs j = some i ∧
    step a.result.value (.int i) = .ok c.2.result.value) ∨
  (step a.result.value (.int i) = .ok .undefined ∧
    ∀ v, replaceAt a.result.value [.int i] v = .error (.outOfRange "list assignment index out of range"))

end Visit

variable {e d : Visit h} {q : Path} {u : Value}

theorem Visit.Stands.value (stands : e.Stands q d u) : u = d.result.value ∨ d.schema.strips ∧ u = .undefined := by
  induction stands with
  | self => exact .inl rfl
  | item _ _ _ _ _ _ ih => exact ih
  | key _ _ _ _ _ _ _ ih => exact ih
  | stripped _ _ _ _ _ strips => exact .inr ⟨strips, rfl⟩

/-! ## What becomes of a place -/

/-- What holds of the place of a visit below an item holds of its place below the array. -/
theorem Visit.lift {c : Visit h} {k : Value} (place : ∀ {p b w}, c.Stands p b w → e.Stands (k :: p) b w)
    (below : c.Kept q d ∨ c.Lost q d) : e.Kept (k :: q) d ∨ e.Lost (k :: q) d := by
  rcases below with kept | ⟨p, a, j, b, s, rfl, stands, drops, visits⟩
  · cases kept with
    | stands stands => exact .inl (.stands (place stands))
    | @sinks p s j b d stands visits => exact .inl (.sinks (p := k :: p) (place stands) visits)
  · exact .inr ⟨k :: p, a, j, b, s, rfl, place stands, drops, visits⟩

/-- Behind a dropped item, and at it, the index of an item is not its place. -/
theorem Visit.Children.misses {a : Visit h} {cs : List (Value × Visit h)} {built : Value} {t : Schema} {i : Nat}
    (children : a.Children cs built) (content : a.schema.content = .array [t]) (delivers : a.result.value = built)
    (displaced : Visit.place cs i ≠ some i) : a.Misses cs i := by
  obtain ⟨list, -⟩ := children.listed content
  rw [list] at delivers
  unfold Visit.Misses
  rw [delivers, step_list]
  rcases found : ((cs.filter Visit.stays).map fun c => c.2.result.value)[i]? with _ | v
  · have beyond := List.getElem?_eq_none_iff.mp found
    have outside : ¬ ((i : Int) < ((cs.filter Visit.stays).map fun c => c.2.result.value).length) := by omega
    refine .inr ⟨by rw [found]; rfl, fun v => ?_⟩
    have positive : ¬ (i : Int) < 0 := by omega
    unfold replaceAt Validation.place
    simp only [positive, if_false, outside, and_false]
  · obtain ⟨j, c, bound, at_, place, rfl⟩ := Visit.found_place found
    have later : i ≠ j := by
      rintro rfl
      exact displaced place
    exact .inl ⟨j, c, by omega, at_, place, by rw [found]; rfl⟩

/-! ## The meeting -/

theorem Lands.reached {root after : Value} {p : Path} {answer : Option Value} (lands : Lands root p answer after)
    (isOpen : Open root p) : after = root ∨ ∃ v, answer = some v ∧ reach after p = .ok v := by
  rcases lands.cases with same | ⟨v, given, replaced⟩
  · exact .inl same
  · obtain ⟨found, again, reached, -⟩ := replaceAt_open isOpen v
    obtain rfl := Except.ok.inj (replaced.symm.trans again)
    exact .inr ⟨v, given, reached⟩

theorem Visit.Kept.placed (kept : e.Kept q d) (fixed : e.schema.Fixed) : Placed e.result.value q := by
  cases kept with
  | stands stands => exact .inl (stands.found fixed).2
  | sinks stands below =>
      obtain ⟨absent, isOpen⟩ := stands.found fixed
      exact .inr ⟨_, _, _, rfl, isOpen, absent⟩

/-- Functions that wrap a node in a list. -/
def wrapping : Hooks := { Hooks.idle with external := fun _ v => pure (some (.list [v])) }

theorem wrapping_calm : wrapping.Calm :=
  ⟨fun _ _ _ => Alike.pure trivial, fun _ _ _ => Alike.pure trivial, fun _ _ => Alike.pure trivial⟩

end Conform
