import Mathlib.Logic.Function.Basic
import Mathlib.Data.List.Basic
import Conform.Proofs.Captured

/-!
# Shadows as branches in memory

A shadow is a value here, and keeping one costs nothing. Where its branches are cells that captures change
in place, keeping a shadow takes a copy of all of them. What is said below of cells relates the two: cells
answer what the shadow answers, and a copy shares no cell with what it was copied from.
-/

namespace Conform

/-- What stands under a key of a branch: a captured value, or the address of another branch. -/
inductive Held where
  | captured (v : Value)
  | branch (a : Nat)

/-- Branches by their addresses. Those from `next` on are not in use. -/
structure Memory where
  cells : Nat → List (Value × Held) := fun _ => []
  next : Nat := 0

namespace Memory

def write (a : Nat) (es : List (Value × Held)) (m : Memory) : Memory :=
  { m with cells := Function.update m.cells a es }

/-- Takes an empty branch into use, at the address `next`. -/
def allocate (m : Memory) : Memory := { cells := Function.update m.cells m.next [], next := m.next + 1 }

/-- Captures a value below a branch. The branches on the way are changed in place, and where one is missing
or a value stands in the way, a new one is put in. -/
def set (a : Nat) (v : Value) : Path → Memory → Memory
  | [], m => m
  | [k], m => m.write a (Datum.insert k (.captured v) (m.cells a))
  | k :: rest, m =>
    match Datum.find? k (m.cells a) with
    | some (.branch b) => m.set b v rest
    | _ => (m.allocate.write a (Datum.insert k (.branch m.next) (m.cells a))).set m.next v rest

/-- Puts a branch at the end of a path, and in the place of every value on the way. -/
def enter (a : Nat) : Path → Memory → Memory
  | [], m => m
  | k :: rest, m =>
    match Datum.find? k (m.cells a) with
    | some (.branch b) => m.enter b rest
    | _ => (m.allocate.write a (Datum.insert k (.branch m.next) (m.cells a))).enter m.next rest

/-- Captures a value under a path whose segments are keys. Any other path is entered up to the first that is none. -/
def insert (a : Nat) (p : Path) (v : Value) (m : Memory) : Memory :=
  if p.all Datum.isHashable then m.set a v p else m.enter a (p.takeWhile Datum.isHashable)

/-- The value captured below a branch, or `undefined`. -/
def get (a : Nat) : Path → Memory → Value
  | [], _ => .undefined
  | k :: rest, m =>
    match Datum.find? k (m.cells a) with
    | some (.branch b) => m.get b rest
    | some (.captured v) => if rest.isEmpty then v else .undefined
    | none => .undefined

mutual

/-- Copies a branch of one memory with all that is below it to new addresses of another; the copy of the
branch comes first. A branch stands at a lower address than what is below it. -/
def copy (source : Memory) (a : Nat) (m : Memory) : Memory :=
  let (es, later) := copyEach source a (source.cells a) m.allocate
  later.write m.next es
termination_by (source.next - a, (source.cells a).length + 1)

def copyEach (source : Memory) (a : Nat) (es : List (Value × Held)) (m : Memory) : List (Value × Held) × Memory :=
  match es with
  | [] => ([], m)
  | (k, .captured v) :: es =>
    let (copied, later) := copyEach source a es m
    ((k, .captured v) :: copied, later)
  | (k, .branch b) :: es =>
    if a < b ∧ b < source.next then
      let (copied, later) := copyEach source a es (copy source b m)
      ((k, .branch m.next) :: copied, later)
    else
      copyEach source a es m
termination_by (source.next - a, es.length)

end

/-! ## What a branch shows -/

/-- The entries of a branch show those of a tree; the list names the addresses of the branches below, of which
none stands under two keys. -/
inductive Shows (m : Memory) : List (Value × Held) → List (Value × ShadowTree) → List Nat → Prop
  | nil : Shows m [] [] []
  | captured {k v : Value} {es : List (Value × Held)} {cs : List (Value × ShadowTree)} {G : List Nat}
      (rest : Shows m es cs G) : Shows m ((k, .captured v) :: es) ((k, .captured v) :: cs) G
  | branch {k : Value} {b : Nat} {es : List (Value × Held)} {cs ds : List (Value × ShadowTree)} {G H : List Nat}
      (below : Shows m (m.cells b) ds H) (above : ∀ c ∈ H, b < c) (rest : Shows m es cs G)
      (apart : (b :: H).Disjoint G) : Shows m ((k, .branch b) :: es) ((k, .branch ds) :: cs) (b :: H ++ G)

/-- What is found under a key of a branch shows what is found in the tree. -/
inductive ShowsAt (m : Memory) : Option Held → Option ShadowTree → List Nat → Prop
  | none : ShowsAt m none none []
  | captured (v : Value) : ShowsAt m (some (.captured v)) (some (.captured v)) []
  | branch {b : Nat} {ds : List (Value × ShadowTree)} {H : List Nat} (below : Shows m (m.cells b) ds H)
      (above : ∀ c ∈ H, b < c) : ShowsAt m (some (.branch b)) (some (.branch ds)) (b :: H)

/-- A branch shows the children of a tree, at addresses that are in use. -/
structure Stands (m : Memory) (a : Nat) (cs : List (Value × ShadowTree)) (G : List Nat) : Prop where
  shows : Shows m (m.cells a) cs G
  above : ∀ b ∈ G, a < b
  used : ∀ b ∈ a :: G, b < m.next

variable {m m' : Memory} {es : List (Value × Held)} {cs ds : List (Value × ShadowTree)} {G H : List Nat} {a b : Nat}

theorem Stands.apart {F : List Nat} (stands : Stands m a cs G) (lower : ∀ c ∈ F, c < a) : (a :: G).Disjoint F := by
  intro c here there
  rcases List.mem_cons.mp here with rfl | inside
  · exact Nat.lt_irrefl c (lower c there)
  · exact Nat.lt_asymm (lower c there) (stands.above c inside)

theorem write_self (a : Nat) (es : List (Value × Held)) (m : Memory) : (m.write a es).cells a = es :=
  Function.update_self ..

theorem write_of_ne {c : Nat} (different : c ≠ a) (es : List (Value × Held)) (m : Memory) :
    (m.write a es).cells c = m.cells c :=
  Function.update_of_ne different _ _

theorem allocate_self (m : Memory) : m.allocate.cells m.next = [] := Function.update_self ..

theorem allocate_of_ne {c : Nat} (m : Memory) (different : c ≠ m.next) : m.allocate.cells c = m.cells c :=
  Function.update_of_ne different _ _

theorem Shows.cons {held : Held} {t : ShadowTree} (k : Value) (first : ShowsAt m (some held) (some t) H)
    (rest : Shows m es cs G) (apart : H.Disjoint G) : Shows m ((k, held) :: es) ((k, t) :: cs) (H ++ G) := by
  cases first with
  | captured v => exact .captured rest
  | branch below above => exact .branch below above rest apart

theorem Shows.frame (shows : Shows m es cs G) (same : ∀ b ∈ G, m'.cells b = m.cells b) : Shows m' es cs G := by
  induction shows with
  | nil => exact .nil
  | captured _ ih => exact .captured (ih same)
  | @branch k b es cs ds G H below above rest apart ih ihRest =>
      refine .branch ?_ above (ihRest fun c member => same c (List.mem_append_right _ member)) apart
      rw [same b (by simp)]
      exact ih fun c member => same c (by simp [member])

theorem ShowsAt.frame {found : Option Held} {t : Option ShadowTree} (shows : ShowsAt m found t H)
    (same : ∀ b ∈ H, m'.cells b = m.cells b) : ShowsAt m' found t H := by
  cases shows with
  | none => exact .none
  | captured v => exact .captured v
  | @branch b ds H below above =>
      refine .branch ?_ above
      rw [same b (by simp)]
      exact below.frame fun c member => same c (by simp [member])

theorem Shows.uncons {k : Value} {held : Held} {ts : List (Value × ShadowTree)}
    (shows : Shows m ((k, held) :: es) ts G) : ∃ t cs H F, ts = (k, t) :: cs ∧ G = H ++ F ∧
      ShowsAt m (some held) (some t) H ∧ Shows m es cs F ∧ H.Disjoint F := by
  cases shows with
  | captured rest => exact ⟨_, _, [], _, rfl, rfl, .captured _, rest, List.disjoint_nil_left _⟩
  | branch below above rest apart => exact ⟨_, _, _, _, rfl, rfl, .branch below above, rest, apart⟩

/-- One child of a branch, and what the branch shows once that child alone has changed. -/
theorem Shows.focus (shows : Shows m es cs G) (k : Value) : ∃ H, H ⊆ G ∧
    ShowsAt m (Datum.find? k es) (Datum.find? k cs) H ∧
    ∀ m' held t H', ShowsAt m' (some held) (some t) H' → (∀ b ∈ G, b ∉ H → m'.cells b = m.cells b) →
      (∀ b ∈ H', b ∈ H ∨ b ∉ G) →
      ∃ G', Shows m' (Datum.insert k held es) (Datum.insert k t cs) G' ∧ ∀ b ∈ G', b ∈ G ∨ b ∈ H' := by
  induction es generalizing cs G with
  | nil =>
      cases shows
      refine ⟨[], List.nil_subset _, .none, fun m' held t H' child _ _ => ⟨H' ++ [], ?_, by simp⟩⟩
      exact .cons k child .nil (List.disjoint_nil_right _)
  | cons e es ih =>
      obtain ⟨j, held₀⟩ := e
      obtain ⟨t₀, cs, F, G, rfl, rfl, first, rest, apart⟩ := shows.uncons
      cases same : Datum.sameKey j k with
      | true =>
          refine ⟨F, List.subset_append_left _ _, by simpa [Datum.find?, same] using first,
            fun m' held t H' child kept fresh => ⟨H' ++ G, ?_, by grind⟩⟩
          have apart' : H'.Disjoint G := by
            intro c here there
            rcases fresh c here with old | new
            · exact apart old there
            · exact new (List.mem_append_right _ there)
          have framed := rest.frame fun c member =>
            kept c (List.mem_append_right _ member) fun old => apart old member
          simpa [Datum.insert, same] using Shows.cons j child framed apart'
      | false =>
          obtain ⟨H, within, child, change⟩ := ih rest
          refine ⟨H, fun c member => List.mem_append_right _ (within member),
            by simpa [Datum.find?, same] using child, fun m' held t H' new kept fresh => ?_⟩
          obtain ⟨G', shows, bound⟩ := change m' held t H' new
            (fun c member => kept c (List.mem_append_right _ member)) fun c member => by grind
          -- the first entry is none of the branches that change
          have framed := first.frame fun c member =>
            kept c (List.mem_append_left _ member) fun inside => apart member (within inside)
          have apart' : F.Disjoint G' := by
            intro c here there
            rcases bound c there with old | new
            · exact apart here old
            · rcases fresh c new with inside | outside
              · exact apart here (within inside)
              · exact outside (List.mem_append_left _ here)
          exact ⟨F ++ G', by simpa [Datum.insert, same] using Shows.cons j framed shows apart', by grind⟩

/-- What is captured below a branch is what is captured in the tree that it shows. -/
theorem Shows.get (shows : Shows m (m.cells a) cs G) (q : Path) :
    m.get a q = ((ShadowTree.branch cs).at? q).getD .undefined := by
  induction q generalizing a cs G with
  | nil => rfl
  | cons k rest ih =>
      obtain ⟨H, -, child, -⟩ := shows.focus k
      rw [Memory.get, ShadowTree.at?, ShadowTree.children]
      generalize Datum.find? k (m.cells a) = held at child
      generalize Datum.find? k cs = t at child
      cases child with
      | none => rfl
      | captured v => cases rest <;> rfl
      | branch below above => exact ih below

/-! ## Captures in place -/

/-- A change of a memory that leaves the branches in use alone, apart from some. -/
structure Changes (m m' : Memory) (G : List Nat) : Prop where
  grows : m.next ≤ m'.next
  kept : ∀ c < m.next, c ∉ G → m'.cells c = m.cells c

theorem Stands.child {held : Option Held} {t : Option ShadowTree} (stands : Stands m a cs G)
    (within : H ⊆ G) (child : ShowsAt m held t H) (b : Nat) (here : held = some (.branch b)) :
    ∃ ds F, t = some (.branch ds) ∧ H = b :: F ∧ Stands m b ds F := by
  cases child with
  | branch below above =>
      cases here
      exact ⟨_, _, rfl, rfl, below, above, fun c member => stands.used c (List.mem_cons_of_mem _ (within member))⟩
  | _ => cases here

/-- A branch after one child of it has changed, and nothing else that it shows. -/
theorem Stands.change {k : Value} {held : Held} {t : ShadowTree} {H' : List Nat} (stands : Stands m a cs G)
    (changes : Changes m m' (a :: G)) (entries : m'.cells a = Datum.insert k held (m.cells a))
    (fresh : ∀ c ∈ H', c ∈ G ∨ m.next ≤ c) (used : ∀ c ∈ H', c < m'.next)
    (shows : ∃ G', Shows m' (Datum.insert k held (m.cells a)) (Datum.insert k t cs) G' ∧ ∀ c ∈ G', c ∈ G ∨ c ∈ H') :
    ∃ G', Stands m' a (Datum.insert k t cs) G' ∧ ∀ c ∈ G', c ∈ G ∨ m.next ≤ c := by
  obtain ⟨G', shows, bound⟩ := shows
  have old : ∀ c ∈ G', c ∈ G ∨ m.next ≤ c := by
    intro c member
    rcases bound c member with inside | new
    · exact .inl inside
    · exact fresh c new
  have root := stands.used a (by simp)
  refine ⟨G', ⟨entries ▸ shows, fun c member => ?_, fun c member => ?_⟩, old⟩
  · rcases old c member with inside | new
    · exact stands.above c inside
    · omega
  · rcases List.mem_cons.mp member with rfl | below
    · exact Nat.lt_of_lt_of_le root changes.grows
    · rcases bound c below with inside | new
      · exact Nat.lt_of_lt_of_le (stands.used c (by simp [inside])) changes.grows
      · exact used c new

/-- A change below any branch that leaves the branch showing what a change of trees makes of it. It changes branches
below this one alone. -/
def Works (f : Nat → Memory → Memory) (g : List (Value × ShadowTree) → List (Value × ShadowTree)) : Prop :=
  ∀ {m : Memory} {a : Nat} {cs : List (Value × ShadowTree)} {G : List Nat}, Stands m a cs G →
    Changes m (f a m) (a :: G) ∧ ∃ G', Stands (f a m) a (g cs) G' ∧ ∀ c ∈ G', c ∈ G ∨ m.next ≤ c

/-- A change of the branch under one key, which is put in where it is missing or a value stands in the way. -/
def descend (k : Value) (f : Nat → Memory → Memory) (a : Nat) (m : Memory) : Memory :=
  match Datum.find? k (m.cells a) with
  | some (.branch b) => f b m
  | _ => f m.next (m.allocate.write a (Datum.insert k (.branch m.next) (m.cells a)))

variable {v k : Value} {f : Nat → Memory → Memory} {g : List (Value × ShadowTree) → List (Value × ShadowTree)}

/-- The branch on the way takes the change. -/
theorem Works.found (works : Works f g) (stands : Stands m a cs G) (found : Datum.find? k (m.cells a) = some (.branch b)) :
    Changes m (f b m) (a :: G) ∧
      ∃ G', Stands (f b m) a (Datum.insert k (.branch (g ((Datum.find? k cs).getD (.branch [])).children)) cs) G' ∧
        ∀ c ∈ G', c ∈ G ∨ m.next ≤ c := by
  obtain ⟨H, within, child, change⟩ := stands.shows.focus k
  obtain ⟨ds, F, tree, rfl, inner⟩ := stands.child within child b found
  obtain ⟨changes, G', after, bound⟩ := works inner
  have other : a ∉ b :: F := fun member => Nat.lt_irrefl a (stands.above a (within member))
  have entries : (f b m).cells a = Datum.insert k (.branch b) (m.cells a) := by
    rw [Datum.insert_found found]
    exact changes.kept a (stands.used a (by simp)) other
  have grown : Changes m (f b m) (a :: G) :=
    ⟨changes.grows, fun c used outside => changes.kept c used fun member => outside (by simp [within member])⟩
  have kept : ∀ c ∈ G, c ∉ b :: F → (f b m).cells c = m.cells c := fun c member =>
    changes.kept c (stands.used c (by simp [member]))
  have fresh : ∀ c ∈ b :: G', c ∈ b :: F ∨ m.next ≤ c := by grind
  have unused : ∀ c, m.next ≤ c → c ∉ G := fun c new old => Nat.not_lt.mpr new (stands.used c (by simp [old]))
  rw [tree, Option.getD_some]
  exact ⟨grown, stands.change grown entries (by grind) after.used
    (change _ (.branch b) _ (b :: G') (.branch after.shows after.above) kept (by grind))⟩

/-- A new branch at `next` takes the change; it shows what the change makes of an empty tree. -/
theorem Works.fresh (works : Works f g) (stands : Stands m a cs G)
    (missing : ∀ b, Datum.find? k (m.cells a) ≠ some (.branch b)) :
    let m' := f m.next (m.allocate.write a (Datum.insert k (.branch m.next) (m.cells a)))
    Changes m m' (a :: G) ∧
      ∃ G', Stands m' a (Datum.insert k (.branch (g ((Datum.find? k cs).getD (.branch [])).children)) cs) G' ∧
        ∀ c ∈ G', c ∈ G ∨ m.next ≤ c := by
  obtain ⟨H, -, child, change⟩ := stands.shows.focus k
  let m' := m.allocate.write a (Datum.insert k (.branch m.next) (m.cells a))
  have size : m'.next = m.next + 1 := rfl
  have root : a < m.next := stands.used a (by simp)
  have started : Stands m' m.next [] [] := by
    refine ⟨?_, by simp, by simp [size]⟩
    rw [write_of_ne (Nat.ne_of_gt root), allocate_self]
    exact .nil
  obtain ⟨changes, G', after, bound⟩ := works started
  have entries : (f m.next m').cells a = Datum.insert k (.branch m.next) (m.cells a) := by
    rw [changes.kept a (by omega) (by simp; omega)]
    exact write_self ..
  have kept : ∀ c < m.next, c ≠ a → (f m.next m').cells c = m.cells c := by
    intro c used different
    rw [changes.kept c (by omega) (by simp; omega), write_of_ne different, allocate_of_ne m (Nat.ne_of_lt used)]
  have grown : Changes m (f m.next m') (a :: G) :=
    ⟨by have := changes.grows; omega, fun c used outside => kept c used (by grind)⟩
  have tree : H = [] ∧ ((Datum.find? k cs).getD (.branch [])).children = [] := by
    generalize Datum.find? k (m.cells a) = held at child missing
    generalize Datum.find? k cs = t at child
    cases child with
    | branch => exact absurd rfl (missing _)
    | _ => exact ⟨rfl, rfl⟩
  have below : ∀ c ∈ G, c < m.next ∧ c ≠ a := fun c member =>
    ⟨stands.used c (by simp [member]), Nat.ne_of_gt (stands.above c member)⟩
  have beyond : ∀ c ∈ m.next :: G', m.next ≤ c := by grind
  rw [tree.2]
  refine ⟨grown, stands.change grown entries (fun c member => .inr (beyond c member)) after.used
    (change _ (.branch m.next) _ (m.next :: G') (.branch after.shows after.above)
      (fun c member _ => kept c (below c member).1 (below c member).2) fun c member => .inr fun old => ?_)⟩
  exact Nat.not_lt.mpr (beyond c member) (below c old).1

theorem Works.descend (works : Works f g) (k : Value) :
    Works (descend k f) fun cs => Datum.insert k (.branch (g ((Datum.find? k cs).getD (.branch [])).children)) cs := by
  intro m a cs G stands
  unfold Memory.descend
  split
  · next b found => exact works.found stands found
  · next missing => exact works.fresh stands missing

/-- A capture below any branch leaves a branch that shows the tree after the capture. It changes branches
below this one alone. -/
def Captures (v : Value) (p : Path) : Prop :=
  ∀ {m : Memory} {a : Nat} {cs : List (Value × ShadowTree)} {G : List Nat}, Stands m a cs G →
    Changes m (m.set a v p) (a :: G) ∧
      ∃ G', Stands (m.set a v p) a ((ShadowTree.branch cs).capture v p).children G' ∧ ∀ c ∈ G', c ∈ G ∨ m.next ≤ c

theorem captures_here (v k : Value) : Captures v [k] := by
  intro m a cs G stands
  obtain ⟨H, -, -, change⟩ := stands.shows.focus k
  have kept : ∀ c, c ≠ a → (m.set a v [k]).cells c = m.cells c := fun c different => write_of_ne different _ m
  have changes : Changes m (m.set a v [k]) (a :: G) := ⟨Nat.le_refl _, fun c _ outside => kept c (by grind)⟩
  have other : ∀ c ∈ G, c ≠ a := fun c member => Nat.ne_of_gt (stands.above c member)
  exact ⟨changes, stands.change changes (write_self ..) (by simp) (by simp)
    (change _ (.captured v) (.captured v) [] (.captured v) (fun c member _ => kept c (other c member)) (by simp))⟩

theorem captures_of_ne_nil (v : Value) {p : Path} (nonempty : p ≠ []) : Captures v p := by
  induction p with
  | nil => exact absurd rfl nonempty
  | cons k rest ih =>
      rcases rest with _ | ⟨j, rest⟩
      · exact captures_here v k
      · intro m a cs G stands
        have step : m.set a v (k :: j :: rest) = descend k (fun b m => m.set b v (j :: rest)) a m := by
          rw [Memory.set, Memory.descend]
          simp
        have below : Works (fun b m => m.set b v (j :: rest)) fun cs => ((ShadowTree.branch cs).capture v (j :: rest)).children :=
          ih (by simp)
        simp only [step]
        exact below.descend k stands

theorem enters (p : Path) : Works (fun a m => m.enter a p) fun cs => ((ShadowTree.branch cs).enter p).children := by
  induction p with
  | nil => exact fun stands => ⟨⟨Nat.le_refl _, fun _ _ _ => rfl⟩, _, stands, fun _ => .inl⟩
  | cons k rest ih =>
      intro m a cs G stands
      have tree : ∀ t : ShadowTree, t.enter rest = .branch ((ShadowTree.branch t.children).enter rest).children := by
        intro t
        cases rest <;> rfl
      have step : m.enter a (k :: rest) = descend k (fun b m => m.enter b rest) a m := by
        rw [Memory.enter, Memory.descend]
      simp only [step, ShadowTree.enter, ShadowTree.children]
      rw [tree]
      exact ih.descend k stands

theorem Stands.beside (stands : Stands m b ds H) (changes : Changes m m' G) (apart : (b :: H).Disjoint G) :
    Stands m' b ds H := by
  have same : ∀ c ∈ b :: H, m'.cells c = m.cells c := fun c member => changes.kept c (stands.used c member) (apart member)
  refine ⟨?_, stands.above, fun c member => Nat.lt_of_lt_of_le (stands.used c member) changes.grows⟩
  rw [same b (by simp)]
  exact stands.shows.frame fun c member => same c (by simp [member])

/-! ## Copies -/

/-- New entries show what the copied ones show, at addresses that were not in use. -/
structure Copied (m m' : Memory) (es : List (Value × Held)) (cs : List (Value × ShadowTree)) (G : List Nat) :
    Prop where
  changes : Changes m m' []
  shows : Shows m' es cs G
  fresh : ∀ c ∈ G, m.next ≤ c ∧ c < m'.next

/-- A branch that is filled with copied entries, at the address that it took before them. -/
theorem Copied.root (copied : Copied m.allocate m' es cs G) :
    Changes m (m'.write m.next es) [] ∧ Stands (m'.write m.next es) m.next cs G := by
  have size : m.allocate.next = m.next + 1 := rfl
  have grows := copied.changes.grows
  have below : ∀ c ∈ G, m.next < c := fun c member => by have := (copied.fresh c member).1; omega
  refine ⟨⟨by simp only [write]; omega, fun c used _ => ?_⟩, ?_, below, ?_⟩
  · have different : c ≠ m.next := Nat.ne_of_lt used
    rw [write_of_ne different, copied.changes.kept c (by omega) (by simp), allocate_of_ne m different]
  · rw [write_self]
    exact copied.shows.frame fun c member => write_of_ne (Nat.ne_of_gt (below c member)) _ _
  · intro c member
    rcases List.mem_cons.mp member with rfl | inside
    · simp only [write]; omega
    · exact (copied.fresh c inside).2

theorem Shows.copyEach {source : Memory} (shows : Shows source es cs G) (within : ∀ c ∈ G, a < c ∧ c < source.next) :
    ∃ G', Copied m (Memory.copyEach source a es m).2 (Memory.copyEach source a es m).1 cs G' := by
  induction shows generalizing a m with
  | nil =>
      rw [Memory.copyEach]
      exact ⟨[], ⟨Nat.le_refl _, fun _ _ _ => rfl⟩, .nil, by simp⟩
  | captured _ ih =>
      obtain ⟨G', copied⟩ := ih (m := m) within
      rw [Memory.copyEach]
      exact ⟨G', copied.changes, .captured copied.shows, copied.fresh⟩
  | @branch k b es cs ds G H below above rest apart ih ihRest =>
      obtain ⟨H', inner⟩ := ih (a := b) (m := m.allocate) fun c member =>
        ⟨above c member, (within c (by simp [member])).2⟩
      obtain ⟨changes, stands⟩ := inner.root
      have root : Memory.copy source b m =
          (Memory.copyEach source b (source.cells b) m.allocate).2.write m.next
            (Memory.copyEach source b (source.cells b) m.allocate).1 := by rw [Memory.copy]
      rw [← root] at changes stands
      obtain ⟨G', others⟩ := ihRest (a := a) (m := Memory.copy source b m) fun c member => within c (by simp [member])
      have kept := stands.beside others.changes (List.disjoint_nil_right _)
      have grows := others.changes.grows
      have lower : ∀ c ∈ m.next :: H', m.next ≤ c ∧ c < (Memory.copy source b m).next := fun c member =>
        ⟨by rcases List.mem_cons.mp member with rfl | inside <;> [omega; exact Nat.le_of_lt (stands.above c inside)],
          stands.used c member⟩
      have separate : (m.next :: H').Disjoint G' := fun c here there =>
        Nat.not_lt.mpr (others.fresh c there).1 (lower c here).2
      rw [Memory.copyEach, if_pos (within b (by simp))]
      refine ⟨m.next :: H' ++ G', ⟨Nat.le_trans changes.grows grows, fun c used _ => ?_⟩,
        .branch kept.shows kept.above others.shows separate, fun c member => ?_⟩
      · rw [others.changes.kept c (Nat.lt_of_lt_of_le used changes.grows) (by simp), changes.kept c used (by simp)]
      · rcases List.mem_append.mp member with first | last
        · exact ⟨(lower c first).1, Nat.lt_of_lt_of_le (lower c first).2 grows⟩
        · exact ⟨Nat.le_trans changes.grows (others.fresh c last).1, (others.fresh c last).2⟩

/-- A copy shows what the branch shows, and changes none of the branches in use. -/
theorem Stands.copy {source : Memory} (stands : Stands source a cs G) (m : Memory) :
    Changes m (Memory.copy source a m) [] ∧ ∃ G', Stands (Memory.copy source a m) m.next cs G' := by
  obtain ⟨G', copied⟩ := stands.shows.copyEach (a := a) (m := m.allocate) fun c member =>
    ⟨stands.above c member, stands.used c (by simp [member])⟩
  obtain ⟨changes, root⟩ := copied.root
  rw [Memory.copy]
  exact ⟨changes, G', root⟩

/-! ## Shadows in memory -/

/-- Captures below one branch, in turn. -/
def setAll (a : Nat) (writes : List (Path × Value)) (m : Memory) : Memory :=
  writes.foldl (fun m w => m.set a w.2 w.1) m

end Memory

/-- Captures in turn. -/
def Shadow.setAll (writes : List (Path × Value)) (s : Shadow) : Shadow :=
  writes.foldl (fun s w => s.set w.1 w.2) s

namespace Memory

variable {m : Memory} {a b : Nat} {G H : List Nat} {s : Shadow} {ds : List (Value × ShadowTree)}

theorem Stands.set (stands : Stands m a s.children G) (p : Path) (v : Value) :
    Changes m (m.set a v p) (a :: G) ∧
      ∃ G', Stands (m.set a v p) a (s.set p v).children G' ∧ ∀ c ∈ G', c ∈ G ∨ m.next ≤ c := by
  cases p with
  | nil => exact ⟨⟨Nat.le_refl _, fun _ _ _ => rfl⟩, G, stands, fun c => .inl⟩
  | cons k rest => exact captures_of_ne_nil v (by simp) stands

theorem Stands.insert (stands : Stands m a s.children G) (p : Path) (v : Value) :
    Changes m (m.insert a p v) (a :: G) ∧
      ∃ G', Stands (m.insert a p v) a (s.insert p v).1.children G' ∧ ∀ c ∈ G', c ∈ G ∨ m.next ≤ c := by
  unfold Memory.insert Shadow.insert
  split
  · exact stands.set p v
  · exact enters _ stands

/-- Captures in turn leave a branch that shows the shadow after them. -/
theorem Stands.setAll (stands : Stands m a s.children G) (writes : List (Path × Value)) :
    Changes m (m.setAll a writes) (a :: G) ∧
      ∃ G', Stands (m.setAll a writes) a (s.setAll writes).children G' ∧ ∀ c ∈ G', c ∈ G ∨ m.next ≤ c := by
  induction writes generalizing m s G with
  | nil => exact ⟨⟨Nat.le_refl _, fun _ _ _ => rfl⟩, G, stands, fun c => .inl⟩
  | cons w writes ih =>
      obtain ⟨first, G', middle, bound⟩ := stands.set w.1 w.2
      obtain ⟨rest, G'', last, bound'⟩ := ih middle
      have outside : ∀ c < m.next, c ∉ a :: G → c ∉ a :: G' := by grind
      refine ⟨⟨Nat.le_trans first.grows rest.grows, fun c used apart => ?_⟩, G'', last, fun c member => ?_⟩
      · exact (rest.kept c (Nat.lt_of_lt_of_le used first.grows) (outside c used apart)).trans (first.kept c used apart)
      · rcases bound' c member with inside | new
        · exact bound c inside
        · exact .inr (Nat.le_trans first.grows new)

theorem Stands.get (stands : Stands m a s.children G) (q : Path) : m.get a q = s.get q := stands.shows.get q

/-- A memory with one branch, which is empty. -/
def start : Memory := { next := 1 }

theorem start_stands : Stands start 0 ({} : Shadow).children [] where
  shows := .nil
  above := by simp
  used := by simp [start]

/-- Branches answer what the shadow does. A copy of them keeps the answers of its time, whatever is captured in
the original later. -/
theorem copy_keeps (writes later : List (Path × Value)) (q : Path) :
    let m := start.setAll 0 writes
    let kept := (copy m 0 m).setAll 0 later
    m.get 0 q = (({} : Shadow).setAll writes).get q ∧ kept.get m.next q = (({} : Shadow).setAll writes).get q ∧
      kept.get 0 q = ((({} : Shadow).setAll writes).setAll later).get q := by
  intro m kept
  obtain ⟨-, G, stands, -⟩ := start_stands.setAll writes
  obtain ⟨changes, H, copied⟩ := stands.copy m
  have still := stands.beside changes (List.disjoint_nil_right _)
  obtain ⟨changes', G', original, -⟩ := still.setAll later
  -- the copy stands at addresses that the original does not use
  have apart : (m.next :: H).Disjoint (0 :: G) := copied.apart stands.used
  exact ⟨stands.get q, (copied.beside changes' apart).get q, original.get q⟩

end Memory

end Conform
