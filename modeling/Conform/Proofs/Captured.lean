import Conform.Shadow
import Conform.Proofs.Datum.Entries

/-!
# What a shadow holds

A property of captured values holds of everything that a shadow gives back, and capturing one more
value that has it keeps it.
-/

namespace Conform

variable {P : Value → Prop}

/-- Every captured value of the tree has the property. -/
inductive ShadowTree.Holds (P : Value → Prop) : ShadowTree → Prop
  | captured {v : Value} (holds : P v) : Holds P (.captured v)
  | branch {cs : List (Value × ShadowTree)} (each : ∀ c ∈ cs, Holds P c.2) : Holds P (.branch cs)

namespace ShadowTree

theorem holds_all (all : ∀ v, P v) (t : ShadowTree) : t.Holds P := by
  cases t with
  | captured v => exact .captured (all v)
  | branch cs => exact .branch fun c member => holds_all all c.2
termination_by sizeOf t
decreasing_by
  have inside := List.sizeOf_lt_of_mem member
  obtain ⟨k, child⟩ := c
  simp at inside ⊢
  omega

theorem Holds.children {t : ShadowTree} (holds : t.Holds P) : ∀ c ∈ t.children, c.2.Holds P := by
  cases holds with
  | captured => exact nofun
  | branch each => exact each

theorem Holds.child {t : ShadowTree} (holds : t.Holds P) (k : Value) :
    ((Datum.find? k t.children).getD (.branch [])).Holds P := by
  cases found : Datum.find? k t.children with
  | none => exact .branch nofun
  | some child =>
      obtain ⟨j, member⟩ := Datum.find?_mem found
      exact holds.children _ member

theorem Holds.capture {v : Value} (value : P v) (p : Path) {t : ShadowTree} (holds : t.Holds P) :
    (t.capture v p).Holds P := by
  induction p generalizing t with
  | nil => exact .captured value
  | cons k rest ih =>
      refine .branch fun c member => ?_
      rcases Datum.mem_insert member with old | ⟨isNew, -⟩
      · exact holds.children c old
      · rw [isNew]
        exact ih (holds.child k)

theorem Holds.at? {v : Value} (p : Path) {t : ShadowTree} (holds : t.Holds P)
    (found : t.at? p = some v) : P v := by
  induction p generalizing t with
  | nil =>
      cases holds with
      | captured value =>
          obtain rfl := Option.some.inj found
          exact value
      | branch => simp [ShadowTree.at?] at found
  | cons k rest ih =>
      rw [ShadowTree.at?] at found
      cases inner : Datum.find? k t.children with
      | none => simp [inner] at found
      | some child =>
          obtain ⟨j, member⟩ := Datum.find?_mem inner
          exact ih (holds.children _ member) (by simpa [inner] using found)

theorem admits_of_hashable (p : Path) (t : ShadowTree) (hashable : ∀ k ∈ p, k.isHashable) :
    t.admits p = true := by
  induction p generalizing t with
  | nil => rfl
  | cons k rest ih =>
      have tail : ∀ j ∈ rest, j.isHashable := fun j member => hashable j (by simp [member])
      cases t with
      | captured => rfl
      | branch cs =>
          rw [admits, hashable k (by simp), Bool.true_and]
          cases Datum.find? k cs with
          | none => rfl
          | some child => exact ih child tail

/-! ## After a capture -/

theorem at?_capture {p : Path} (keys : ∀ k ∈ p, Datum.sameKey k k) (v : Value) (t : ShadowTree) :
    (t.capture v p).at? p = some v := by
  induction p generalizing t with
  | nil => rfl
  | cons k rest ih =>
      rw [capture, at?, children, Datum.find?_insert_self fun _ => keys k (by simp)]
      exact ih (fun j member => keys j (by simp [member])) _

theorem at?_capture_below {p : Path} (keys : ∀ k ∈ p, Datum.sameKey k k) (v : Value) (t : ShadowTree) (j : Value)
    (q : Path) : (t.capture v p).at? (p ++ j :: q) = none := by
  induction p generalizing t with
  | nil => rfl
  | cons k rest ih =>
      rw [capture, List.cons_append, at?, children, Datum.find?_insert_self fun _ => keys k (by simp)]
      exact ih (fun i member => keys i (by simp [member])) _

/-- A capture at or below one key leaves what is captured under another one alone. -/
theorem at?_capture_apart {p : Path} {j k : Value} (keys : ∀ i ∈ p, Datum.sameKey i i) (itself : Datum.sameKey j j)
    (apart : Datum.Apart j k) (v : Value) (t : ShadowTree) (q x : Path) :
    (t.capture v (p ++ j :: q)).at? (p ++ k :: x) = t.at? (p ++ k :: x) := by
  induction p generalizing t with
  | nil =>
      simp only [List.nil_append, capture, at?, children]
      rw [Datum.find?_insert_apart apart.parted fun _ => apart j itself]
  | cons i rest ih =>
      have below := ih (fun j member => keys j (by simp [member])) ((Datum.find? i t.children).getD (branch []))
      rw [List.cons_append, List.cons_append, capture, at?, at?, children, Datum.find?_insert_self fun _ => keys i (by simp)]
      refine below.trans ?_
      cases Datum.find? i t.children with
      | none => cases rest <;> rfl
      | some child => rfl

end ShadowTree

namespace Shadow

/-- Every captured value has the property. -/
def Holds (P : Value → Prop) (s : Shadow) : Prop := s.tree.Holds P

theorem holds_empty : ({} : Shadow).Holds P := .branch nofun

theorem Holds.set {s : Shadow} (holds : s.Holds P) (p : Path) {v : Value} (value : P v) :
    (s.set p v).Holds P := by
  cases p with
  | nil => exact holds
  | cons k rest => exact .branch (ShadowTree.Holds.capture value (k :: rest) holds).children

theorem Holds.get {s : Shadow} (holds : s.Holds P) (p : Path) (absent : P .undefined) :
    P (s.get p) := by
  unfold Shadow.get
  cases found : s.tree.at? p with
  | none => exact absent
  | some v => exact ShadowTree.Holds.at? p holds found

theorem lookup_of_hashable (s : Shadow) (p : Path) (hashable : ∀ k ∈ p, k.isHashable) :
    s.lookup p = .ok (s.get p) := by
  simp [lookup, ShadowTree.admits_of_hashable p s.tree hashable]

end Shadow

end Conform
