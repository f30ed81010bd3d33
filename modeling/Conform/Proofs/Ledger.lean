import Conform.Proofs.Branches
import Conform.Proofs.Brackets

/-!
# Journals in memory

A ledger is a journal whose shadows are branches that captures change in place. Each of its marks keeps a copy, which
no later capture reaches. So a ledger contains what the journal does after the same operations, and a bracket gives it
back.
-/

namespace Conform

/-- A journal in memory: its live shadow, and the one that each mark keeps, are branches. -/
structure Ledger (ε ω : Type) where
  externals : List ε := []
  warnings : List ω := []
  shadow : Option Nat := none
  marks : List (Nat × Nat × Option Nat) := []
  memory : Memory := {}

namespace Memory

/-- The address of a shadow; where there is none yet, one is taken into use. -/
def live (m : Memory) : Option Nat → Nat × Memory
  | some a => (a, m)
  | none => (m.next, m.allocate)

/-- A copy of a shadow, if there is one; it stands at the address `next`. -/
def save (m : Memory) : Option Nat → Memory
  | some a => m.copy a m
  | none => m

end Memory

namespace Ledger

open Journal (Write Op Balanced)

variable {ε ω : Type} {ops : List (Op ε ω)} {l l' : Ledger ε ω} {j : Journal ε ω}

def write (w : Write ε ω) (l : Ledger ε ω) : Ledger ε ω :=
  match w with
  | .hook e => { l with externals := l.externals ++ [e] }
  | .warning w => { l with warnings := l.warnings ++ [w] }
  | .capture p v =>
    let (a, m) := l.memory.live l.shadow
    { l with shadow := some a, memory := m.insert a p v }

def captured? (p : Path) (l : Ledger ε ω) : Option Value := l.shadow.map fun a => l.memory.get a p

def snapshot (l : Ledger ε ω) : Ledger ε ω :=
  { l with
    marks := (l.externals.length, l.warnings.length, l.shadow.map fun _ => l.memory.next) :: l.marks
    memory := l.memory.save l.shadow }

/-- Back to the last mark, whose copy of the shadow becomes the live one. -/
def restore? (l : Ledger ε ω) : Option (Ledger ε ω) :=
  match l.marks with
  | [] => none
  | (hooks, warnings, shadow) :: marks =>
    some ⟨l.externals.take hooks, l.warnings.take warnings, shadow, marks, l.memory⟩

def perform (l : Ledger ε ω) : Op ε ω → Option (Ledger ε ω)
  | .write w => some (l.write w)
  | .snapshot => some l.snapshot
  | .restore => l.restore?

def performAll (ops : List (Op ε ω)) (l : Ledger ε ω) : Option (Ledger ε ω) := ops.foldlM perform l

/-! ## Marks -/

theorem marks_write (w : Write ε ω) (l : Ledger ε ω) : (l.write w).marks = l.marks := by cases w <;> rfl

theorem performAll_bracket (inner later : List (Op ε ω)) (l : Ledger ε ω) :
    performAll (.snapshot :: inner ++ .restore :: later) l =
      (performAll inner l.snapshot).bind fun k => k.restore?.bind (performAll later) :=
  Op.foldlM_bracket perform inner later l

theorem marks_balanced (balanced : Balanced ops) (performed : performAll ops l = some l') : l'.marks = l.marks := by
  induction balanced generalizing l l' with
  | done =>
      cases performed
      rfl
  | write w _ ih => exact (ih performed).trans (marks_write w l)
  | bracket _ _ inside rest =>
      rw [performAll_bracket] at performed
      obtain ⟨k, opened, closed⟩ := Option.bind_eq_some_iff.mp performed
      obtain ⟨l₁, restored, after⟩ := Option.bind_eq_some_iff.mp closed
      have back : l₁.marks = l.marks := by
        rw [restore?, inside opened] at restored
        cases restored
        rfl
      exact (rest after).trans back

end Ledger

/-! ## Shadows that stand apart -/

namespace Memory

/-- Branches that show the shadows there are. The list names their addresses, and no two shadows share one. -/
inductive Roots (m : Memory) : List (Option Nat) → List (Option Shadow) → List Nat → Prop
  | nil : Roots m [] [] []
  | absent {as : List (Option Nat)} {ss : List (Option Shadow)} {G : List Nat} (rest : Roots m as ss G) :
      Roots m (none :: as) (none :: ss) G
  | root {a : Nat} {s : Shadow} {as : List (Option Nat)} {ss : List (Option Shadow)} {G H : List Nat}
      (stands : Stands m a s.children H) (rest : Roots m as ss G) (apart : (a :: H).Disjoint G) :
      Roots m (some a :: as) (some s :: ss) (a :: H ++ G)

variable {m m' : Memory} {x : Option Nat} {y : Option Shadow} {as : List (Option Nat)} {ss : List (Option Shadow)}
  {F G : List Nat}

theorem Roots.used (roots : Roots m as ss G) : ∀ c ∈ G, c < m.next := by
  induction roots with
  | nil => simp
  | absent _ ih => exact ih
  | root stands _ _ ih =>
      intro c member
      rcases List.mem_append.mp member with here | there
      · exact stands.used c here
      · exact ih c there

theorem Roots.beside (roots : Roots m as ss G) (changes : Changes m m' F) (apart : G.Disjoint F) : Roots m' as ss G := by
  induction roots with
  | nil => exact .nil
  | absent _ ih => exact .absent (ih apart)
  | root stands _ between ih =>
      obtain ⟨here, there⟩ := List.disjoint_append_left.mp apart
      exact .root (stands.beside changes here) (ih there) between

theorem Roots.tail (roots : Roots m (x :: as) (y :: ss) G) : ∃ G', Roots m as ss G' := by
  cases roots with
  | absent rest => exact ⟨_, rest⟩
  | root _ rest _ => exact ⟨_, rest⟩

theorem Roots.get (roots : Roots m as ss F) (roots' : Roots m' as ss G) {a : Nat} (member : some a ∈ as) (q : Path) :
    m'.get a q = m.get a q := by
  induction roots generalizing G with
  | nil => simp at member
  | absent _ ih =>
      cases roots' with
      | absent rest => exact ih rest (by simpa using member)
  | root stands _ _ ih =>
      cases roots' with
      | root stands' rest _ =>
          rcases List.mem_cons.mp member with here | there
          · cases here
            rw [stands.get, stands'.get]
          · exact ih rest there

theorem allocate_stands (m : Memory) :
    Changes m m.allocate [] ∧ Stands m.allocate m.next ({} : Shadow).children [] := by
  have size : m.allocate.next = m.next + 1 := rfl
  refine ⟨⟨by omega, fun c used _ => allocate_of_ne m (Nat.ne_of_lt used)⟩, ?_, by simp, by simp [size]⟩
  rw [allocate_self]
  exact .nil

/-- A capture changes the live shadow and none that is kept. -/
theorem Roots.capture (roots : Roots m (x :: as) (y :: ss) G) (p : Path) (v : Value) :
    ∃ G', Roots ((m.live x).2.insert (m.live x).1 p v) (some (m.live x).1 :: as) (some ((y.getD {}).insert p v).1 :: ss)
      G' := by
  cases roots with
  | absent rest =>
      obtain ⟨allocated, empty⟩ := allocate_stands m
      obtain ⟨changes, H, stands, -⟩ := empty.insert p v
      have kept := rest.beside allocated (List.disjoint_nil_right _)
      exact ⟨_, .root stands (kept.beside changes (List.disjoint_symm (empty.apart rest.used))) (stands.apart rest.used)⟩
  | root stands rest apart =>
      obtain ⟨changes, H, stands', bound⟩ := stands.insert p v
      refine ⟨_, .root stands' (rest.beside changes (List.disjoint_symm apart)) fun c new old => ?_⟩
      rcases List.mem_cons.mp new with rfl | inside
      · exact apart (List.mem_cons_self ..) old
      · rcases bound c inside with here | beyond
        · exact apart (List.mem_cons_of_mem _ here) old
        · exact Nat.not_lt.mpr beyond (rest.used c old)

/-- A copy that is kept stands apart from the live shadow and from all kept before. -/
theorem Roots.save (roots : Roots m (x :: as) (y :: ss) G) :
    ∃ G', Roots (m.save x) (x :: (x.map fun _ => m.next) :: as) (y :: y :: ss) G' := by
  cases roots with
  | absent rest => exact ⟨_, .absent (.absent rest)⟩
  | root stands rest apart =>
      obtain ⟨changes, H, copied⟩ := stands.copy m
      have untouched : ∀ F : List Nat, F.Disjoint [] := List.disjoint_nil_right
      refine ⟨_, .root (stands.beside changes (untouched _)) (.root copied (rest.beside changes (untouched _)) ?_) ?_⟩
      · exact copied.apart rest.used
      · exact List.disjoint_append_right.mpr ⟨List.disjoint_symm (copied.apart stands.used), apart⟩

end Memory

/-! ## Ledgers show journals -/

namespace Ledger

open Journal (Write Op Balanced)

variable {ε ω : Type} {l : Ledger ε ω} {j : Journal ε ω}

/-- A ledger with the contents of a journal, the shadows that the marks keep included. -/
structure Shows (l : Ledger ε ω) (j : Journal ε ω) : Prop where
  externals : l.externals = j.externals
  warnings : l.warnings = j.warnings
  lengths : (l.marks.map fun x => (x.1, x.2.1)) = j.marks.map fun x => (x.1, x.2.1)
  shadows : ∃ G, l.memory.Roots (l.shadow :: l.marks.map (·.2.2)) (j.shadow :: j.marks.map (·.2.2)) G

theorem Shows.captured (shows : l.Shows j) (p : Path) : l.captured? p = j.captured? p := by
  obtain ⟨G, roots⟩ := shows.shadows
  unfold captured? Journal.captured?
  generalize l.shadow = x at roots
  generalize j.shadow = y at roots
  cases roots with
  | absent => rfl
  | root stands => exact congrArg some (stands.get p)

theorem Shows.write (shows : l.Shows j) (w : Write ε ω) : (l.write w).Shows (j.write w) := by
  cases w with
  | hook e => exact ⟨congrArg (· ++ [e]) shows.externals, shows.warnings, shows.lengths, shows.shadows⟩
  | warning w => exact ⟨shows.externals, congrArg (· ++ [w]) shows.warnings, shows.lengths, shows.shadows⟩
  | capture p v =>
      obtain ⟨G, roots⟩ := shows.shadows
      exact ⟨shows.externals, shows.warnings, shows.lengths, roots.capture p v⟩

theorem Shows.snapshot (shows : l.Shows j) : l.snapshot.Shows j.snapshot := by
  obtain ⟨G, roots⟩ := shows.shadows
  refine ⟨shows.externals, shows.warnings, ?_, roots.save⟩
  simp [Ledger.snapshot, Journal.snapshot, shows.externals, shows.warnings, shows.lengths]

theorem Shows.restore (shows : l.Shows j) : Option.Rel Shows l.restore? j.restore? := by
  obtain ⟨externals, warnings, lengths, G, roots⟩ := shows
  unfold restore? Journal.restore?
  cases kept : l.marks with
  | nil =>
      rw [kept, List.map_nil] at lengths
      rw [List.map_eq_nil_iff.mp lengths.symm]
      exact .none
  | cons x marks =>
      obtain ⟨y, marks', kept'⟩ : ∃ y marks', j.marks = y :: marks' := by
        cases later : j.marks with
        | nil => simp [kept, later] at lengths
        | cons y marks' => exact ⟨y, marks', rfl⟩
      rw [kept, kept', List.map_cons, List.map_cons] at lengths roots
      obtain ⟨length, lengths⟩ := List.cons_eq_cons.mp lengths
      obtain ⟨hooks, warned⟩ := Prod.mk.inj length
      rw [kept']
      exact .some ⟨by simp only [externals, hooks], by simp only [warnings, warned], lengths, roots.tail⟩

theorem Shows.perform (shows : l.Shows j) (op : Op ε ω) : Option.Rel Shows (l.perform op) (j.perform op) := by
  cases op with
  | write w => exact .some (shows.write w)
  | snapshot => exact .some shows.snapshot
  | restore => exact shows.restore

/-- Ledgers and journals take the same operations, and contain the same after them. -/
theorem Shows.performAll (shows : l.Shows j) (ops : List (Op ε ω)) :
    Option.Rel Shows (l.performAll ops) (j.performAll ops) := by
  induction ops generalizing l j with
  | nil => exact .some shows
  | cons op ops ih =>
      have step := shows.perform op
      unfold Ledger.performAll Journal.performAll
      rw [List.foldlM_cons, List.foldlM_cons]
      generalize l.perform op = x at step
      generalize j.perform op = y at step
      cases step with
      | none => exact .none
      | some after => exact ih after

theorem empty_shows : ({} : Ledger ε ω).Shows {} := ⟨rfl, rfl, rfl, _, .absent .nil⟩

/-- Every ledger that operations lead to contains what the journal does that they lead to. -/
theorem shows_of_performAll {before : List (Op ε ω)} (performed : performAll before {} = some l) :
    ∃ j, Journal.performAll before {} = some j ∧ l.Shows j := by
  have alike := empty_shows.performAll before
  rw [performed] at alike
  generalize Journal.performAll before {} = y at alike
  cases alike with
  | some shows => exact ⟨_, rfl, shows⟩

/-- Everything is again as it was: what the ledger contains, its marks, and what they keep. -/
structure BackAt (l l' : Ledger ε ω) : Prop where
  externals : l'.externals = l.externals
  warnings : l'.warnings = l.warnings
  captured : ∀ p, l'.captured? p = l.captured? p
  marks : l'.marks = l.marks
  kept : ∀ x ∈ l.marks, ∀ a, x.2.2 = some a → ∀ p, l'.memory.get a p = l.memory.get a p

theorem Shows.backAt (shows : l.Shows j) (shows' : l'.Shows j) (marks : l'.marks = l.marks) : l.BackAt l' where
  externals := shows'.externals.trans shows.externals.symm
  warnings := shows'.warnings.trans shows.warnings.symm
  captured p := (shows'.captured p).trans (shows.captured p).symm
  marks := marks
  kept x member a kept p := by
    obtain ⟨_, roots⟩ := shows.shadows
    obtain ⟨_, roots'⟩ := shows'.shadows
    obtain ⟨_, older⟩ := roots.tail
    obtain ⟨_, older'⟩ := roots'.tail
    rw [marks] at older'
    exact older.get older' (List.mem_map.mpr ⟨x, member, kept⟩) p

end Ledger

/-- A snapshot, balanced operations and a restore give any journal back: its hooks, its warnings, its captured values and
its marks. Where the shadows are branches that captures change in place, a ledger that operations have led to contains
what the journal does, and is given back together with what its marks keep. -/
theorem snapshots_bracket {ε ω : Type} {ops : List (Journal.Op ε ω)} (balanced : Journal.Balanced ops) :
    (∀ j : Journal ε ω, j.performAll (.snapshot :: ops ++ [.restore]) = some j) ∧
      ∀ (before : List (Journal.Op ε ω)) (l : Ledger ε ω), Ledger.performAll before {} = some l →
        (∃ j, Journal.performAll before {} = some j ∧ l.externals = j.externals ∧ l.warnings = j.warnings ∧
          ∀ p, l.captured? p = j.captured? p) ∧
        ∃ l', l.performAll (.snapshot :: ops ++ [.restore]) = some l' ∧ l.BackAt l' := by
  refine ⟨balanced.closes, fun before l performed => ?_⟩
  obtain ⟨j, reached, shows⟩ := Ledger.shows_of_performAll performed
  refine ⟨⟨j, reached, shows.externals, shows.warnings, shows.captured⟩, ?_⟩
  have after := shows.performAll (.snapshot :: ops ++ [.restore])
  rw [balanced.closes] at after
  generalize ended : l.performAll (.snapshot :: ops ++ [.restore]) = x at after
  cases after with
  | some shows' => exact ⟨_, rfl, shows.backAt shows' (Ledger.marks_balanced (.bracket balanced .done) ended)⟩

/-! ## A bracket in a bracket -/

/-- A captured value is replaced, and in a bracket of its own something is captured below it. -/
def Journal.nested : List (Journal.Op Nat String) :=
  [.write (.hook 1), .write (.capture [.str "a"] (.int 1)),
    .snapshot, .write (.capture [.str "a", .str "b"] (.int 2)), .write (.warning "w"), .restore,
    .write (.warning "v")]

theorem Journal.nested_balanced : Balanced nested :=
  .write _ (.write _ (.bracket (.write _ (.write _ .done)) (.write _ .done)))

/-- A hook and a captured value from before, and a bracket that is still open. -/
def Journal.opened : List (Journal.Op Nat String) := [.write (.hook 0), .write (.capture [.str "a"] (.int 0)), .snapshot]

theorem nested_closes : Journal.Balanced Journal.nested ∧
    ((Journal.performAll (Journal.opened ++ .snapshot :: Journal.nested) {}).map (Journal.captured? [.str "a"]) =
      some (some (.int 1))) ∧
    ∃ l l', Ledger.performAll Journal.opened {} = some l ∧
      l.performAll (.snapshot :: Journal.nested ++ [.restore]) = some l' ∧
      l'.externals = [0] ∧ l'.captured? [.str "a"] = some (.int 0) := by
  obtain ⟨-, back⟩ := snapshots_bracket Journal.nested_balanced
  obtain ⟨⟨j, reached, -, -, contains⟩, l', closed, same⟩ := back Journal.opened _ rfl
  cases reached
  exact ⟨Journal.nested_balanced, rfl, _, l', rfl, closed, same.externals, (same.captured _).trans (contains _)⟩

end Conform
