import Conform.Proofs.Branches
import Conform.Proofs.Datum.Sameness
import Conform.Journal

/-!
# What a capture does to the other paths

A shadow is a partial map on paths of which none leads to another. A captured value takes the place of
whatever was captured above or below its path, and paths that part from its own keep what they had.
-/

namespace Conform

/-- Whether the first path leads to the second: segment by segment they have the same keys, as far as the
first one goes. Two paths that lead to each other are the same. -/
def Path.leads : Path → Path → Bool
  | [], _ => true
  | _ :: _, [] => false
  | k :: p, l :: q => Datum.sameKey k l && Path.leads p q

/-- The path can be looked up: its segments are hashable, and no set in them lists a member twice. -/
def Path.Keyed (p : Path) : Prop := ∀ k ∈ p, k.isHashable ∧ k.isProper

namespace ShadowTree

/-- No set in the keys of the tree lists a member twice. -/
inductive Keyed : ShadowTree → Prop
  | captured (v : Value) : Keyed (.captured v)
  | branch {cs : List (Value × ShadowTree)} (keys : ∀ c ∈ cs, c.1.isProper) (each : ∀ c ∈ cs, Keyed c.2) :
      Keyed (.branch cs)

variable {t : ShadowTree} {v : Value} {p q : Path}

theorem Keyed.keys (keyed : t.Keyed) : ∀ c ∈ t.children, c.1.isProper := by
  cases keyed with
  | captured => exact nofun
  | branch keys _ => exact keys

theorem Keyed.children (keyed : t.Keyed) : ∀ c ∈ t.children, c.2.Keyed := by
  cases keyed with
  | captured => exact nofun
  | branch _ each => exact each

theorem Keyed.child (keyed : t.Keyed) (k : Value) : ((Datum.find? k t.children).getD (.branch [])).Keyed := by
  cases found : Datum.find? k t.children with
  | none => exact .branch nofun nofun
  | some child =>
      obtain ⟨j, member⟩ := Datum.find?_mem found
      exact keyed.children _ member

theorem Keyed.insert {k : Value} {child : ShadowTree} (keyed : t.Keyed) (proper : k.isProper) (below : child.Keyed) :
    (ShadowTree.branch (Datum.insert k child t.children)).Keyed := by
  refine .branch (fun c member => ?_) fun c member => ?_
  · rcases Datum.mem_insert member with old | ⟨-, isKey | ⟨w, old⟩⟩
    · exact keyed.keys c old
    · exact isKey ▸ proper
    · exact keyed.keys (c.1, w) old
  · rcases Datum.mem_insert member with old | ⟨isNew, -⟩
    · exact keyed.children c old
    · exact isNew ▸ below

theorem Keyed.capture (keyed : t.Keyed) (path : ∀ k ∈ p, k.isProper) : (t.capture v p).Keyed := by
  induction p generalizing t with
  | nil => exact .captured v
  | cons k rest ih =>
      obtain ⟨proper, tail⟩ := List.forall_mem_cons.mp path
      exact keyed.insert proper (ih (keyed.child k) tail)

/-- What is captured below a key is what is captured in its child, and nothing without one. -/
theorem at?_child (k : Value) (q : Path) (t : ShadowTree) :
    t.at? (k :: q) = ((Datum.find? k t.children).getD (.branch [])).at? q := by
  rw [at?]
  cases Datum.find? k t.children with
  | none => cases q <;> rfl
  | some child => rfl

/-- What a capture leaves under any path. -/
theorem at?_captured (keyed : t.Keyed) (path : ∀ k ∈ p, k.isProper) (asked : ∀ k ∈ q, k.isProper) :
    (t.capture v p).at? q =
      if p.leads q then if q.leads p then some v else none else if q.leads p then none else t.at? q := by
  -- Down both paths at once: they part at a key, or one of them ends inside the other.
  induction p generalizing t q with
  | nil => cases q <;> rfl
  | cons k p ih =>
      obtain ⟨proper, tail⟩ := List.forall_mem_cons.mp path
      rcases q with _ | ⟨l, q⟩
      · rfl
      · obtain ⟨proper', tail'⟩ := List.forall_mem_cons.mp asked
        rw [capture, at?_child, at?_child, children]
        cases same : Datum.sameKey k l with
        | true =>
            have back := Datum.sameKey_symm proper same
            rw [Datum.find?_same proper same, Datum.find?_insert_self fun _ => Datum.sameKey_trans same back,
              Option.getD_some, ih (keyed.child k) tail tail', Datum.find?_same proper same]
            simp [Path.leads, same, back]
        | false =>
            have parted : Datum.Parted (t.children.map Prod.fst) k l :=
              Datum.proper_parted (List.forall_mem_map.mpr keyed.keys) same
            have apart : Datum.sameKey l k = false :=
              Bool.eq_false_iff.mpr fun back => by simp [Datum.sameKey_symm proper' back] at same
            rw [Datum.find?_insert_apart parted fun _ => same]
            simp [Path.leads, same, apart]

end ShadowTree

namespace Shadow

variable {s : Shadow} {p q : Path}

theorem keyed_setAll {writes : List (Path × Value)} (keyed : s.tree.Keyed) (paths : ∀ w ∈ writes, w.1.Keyed) :
    (s.setAll writes).tree.Keyed := by
  induction writes generalizing s with
  | nil => exact keyed
  | cons w writes ih =>
      obtain ⟨here, rest⟩ := List.forall_mem_cons.mp paths
      refine ih ?_ rest
      rcases w with ⟨_ | ⟨k, p⟩, v⟩
      · exact keyed
      · exact keyed.capture fun k member => (here k member).2

theorem insert_of_keyed (path : p.Keyed) (v : Value) (s : Shadow) : s.insert p v = (s.set p v, none) :=
  if_pos (List.all_eq_true.mpr fun k member => (path k member).1)

/-- What a capture leaves under any path. -/
theorem get_set (keyed : s.tree.Keyed) (nonempty : p ≠ []) (path : p.Keyed) (asked : q.Keyed) (v : Value) :
    (s.set p v).get q =
      if p.leads q then if q.leads p then v else .undefined else if q.leads p then .undefined else s.get q := by
  rcases p with _ | ⟨k, p⟩
  · exact absurd rfl nonempty
  · have captured := ShadowTree.at?_captured (v := v) keyed (fun j member => (path j member).2) fun j member =>
      (asked j member).2
    unfold get
    rw [show (s.set (k :: p) v).tree = s.tree.capture v (k :: p) from rfl, captured]
    split <;> split <;> rfl

end Shadow

namespace Journal

variable {ε ω : Type}

theorem marks_captures (later : List (Path × Value)) (j : Journal ε ω) :
    (later.foldl (fun j w => j.capture w.1 w.2) j).marks = j.marks := by
  induction later generalizing j with
  | nil => rfl
  | cons w later ih => exact ih _

/-- The mark of a journal keeps the captured values of its time. -/
theorem captured_restored (later : List (Path × Value)) (q : Path) (j : Journal ε ω) :
    (later.foldl (fun j w => j.capture w.1 w.2) j.snapshot).restore?.map (captured? q) = some (j.captured? q) := by
  rw [restore?, marks_captures]
  rfl

end Journal

/-- A capture gives its value under its own path. It takes away what was captured under the paths that lead to
it and under those that it leads to, and leaves every other path what it had. A copy of the branches of a shadow
gives under each path what the shadow gave, whatever is captured later, and so does a mark of a journal. -/
theorem capture_parts_paths {ε ω : Type} {writes : List (Path × Value)} (paths : ∀ w ∈ writes, w.1.Keyed) {p q : Path}
    (nonempty : p ≠ []) (path : p.Keyed) (asked : q.Keyed) (v : Value) (later : List (Path × Value)) (j : Journal ε ω) :
    let s := ({} : Shadow).setAll writes
    let t := (s.insert p v).1
    let m := Memory.start.setAll 0 writes
    let kept := (Memory.copy m 0 m).setAll 0 later
    (s.insert p v).2 = none ∧
      (p.leads q → q.leads p → t.lookup q = .ok v) ∧
      (¬ p.leads q → q.leads p → t.lookup q = .ok .undefined) ∧
      (p.leads q → ¬ q.leads p → t.lookup q = .ok .undefined) ∧
      (¬ p.leads q → ¬ q.leads p → t.lookup q = s.lookup q) ∧
      (m.get 0 q = s.get q ∧ kept.get m.next q = s.get q ∧ kept.get 0 q = (s.setAll later).get q) ∧
      (later.foldl (fun j w => j.capture w.1 w.2) j.snapshot).restore?.map (Journal.captured? q) =
        some (j.captured? q) := by
  intro s t m kept
  have keyed : s.tree.Keyed := Shadow.keyed_setAll (.branch nofun nofun) paths
  have looked : ∀ u : Shadow, u.lookup q = .ok (u.get q) := fun u =>
    u.lookup_of_hashable q fun k member => (asked k member).1
  have after : t.get q =
      if p.leads q then if q.leads p then v else .undefined else if q.leads p then .undefined else s.get q := by
    simp only [t, Shadow.insert_of_keyed path]
    exact Shadow.get_set keyed nonempty path asked v
  refine ⟨by rw [Shadow.insert_of_keyed path], ?_, ?_, ?_, ?_, Memory.copy_keeps writes later q,
    Journal.captured_restored later q j⟩ <;>
  · intro first second
    rw [looked, after]
    simp [looked, first, second]

/-- A value that is captured below a captured value takes its place, and the copy of before keeps that one. -/
theorem capture_parts_paths_below :
    let a : Value := .str "a"
    let s := ({} : Shadow).setAll [([a], .int 1)]
    let m := Memory.start.setAll 0 [([a], .int 1)]
    (s.insert [a, .str "b"] (.int 2)).1.lookup [a] = .ok .undefined ∧
      ((Memory.copy m 0 m).setAll 0 [([a, .str "b"], .int 2)]).get m.next [a] = .int 1 := by
  intro a s m
  have key : ∀ t : String, (Datum.str t : Value).isHashable ∧ (Datum.str t : Value).isProper := fun t => by
    simp [Datum.isHashable, Datum.isProper]
  have paths : ∀ w ∈ ([([a], .int 1)] : List (Path × Value)), w.1.Keyed := by simp [Path.Keyed, a, key]
  have parts := capture_parts_paths (ε := Unit) (ω := Unit) (p := [a, .str "b"]) (q := [a]) paths (by simp)
    (by simp [Path.Keyed, a, key]) (by simp [Path.Keyed, a, key]) (.int 2) [([a, .str "b"], .int 2)] {}
  obtain ⟨-, -, prefix', -, -, ⟨-, copied, -⟩, -⟩ := parts
  refine ⟨prefix' (by decide) (by decide), copied.trans ?_⟩
  rfl

end Conform
