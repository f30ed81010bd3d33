import Conform.Proofs.Validation.Checks
import Conform.Proofs.Tables

/-!
# A node and its cache

The evaluation of a node is a look-up in its cache around what it does without one.
-/

namespace Conform

namespace Node

variable (h : Hooks)

def frame (n : Node) (v : Value) (s : Site) (p : Preferences) : Frame where
  kind := n.content.kind
  label := n.core.label
  site := s
  prefs := p
  given := v
  current := v

/-- What a node does where its cache holds nothing. -/
def settled (n : Node) (f : Frame) : Eval Result := do
  let (v, errors) ← body h n f
  let (v, errors) ← failover h n.core f v errors
  let (v, errors) ← fill h n.core f v errors
  let v ← cast n.core f v
  queue n.core f
  deliver n.core f v errors

def consult (n : Node) (f : Frame) : Eval (Option Result) :=
  match n.core.cache with
  | some store => if f.prefs.cache then Eval.cached? store f.given else pure none
  | none => pure none

def retain (n : Node) (f : Frame) (r : Result) : Eval Unit :=
  match n.core.cache with
  | some store => if f.prefs.cache && n.cacheable then Eval.keep store f.given r else pure ()
  | none => pure ()

/-- A computation with the cache of a node around it. -/
def through (n : Node) (f : Frame) (x : Eval Result) : Eval Result := do
  match ← n.consult f with
  | some r => return r
  | none =>
    let r ← x
    n.retain f r
    return r

/-- A node without a table, or whose cache is not asked. -/
theorem through_idle (n : Node) (f : Frame) (x : Eval Result)
    (idle : n.core.cache = none ∨ f.prefs.cache = false ∨
      ∃ slot, n.core.cache = some (.cache slot) ∧ slot.table = none) : n.through f x = x := by
  have consulted : n.consult f = pure none := by
    unfold consult
    rcases idle with none | unasked | ⟨⟨table, capacity, givenAsTrue⟩, store, rfl⟩
    · rw [none]
    · cases n.core.cache <;> simp [unasked]
    · rw [store]
      cases f.prefs.cache <;> rfl
  have retained : ∀ r, n.retain f r = pure () := by
    intro r
    unfold retain
    rcases idle with none | unasked | ⟨⟨table, capacity, givenAsTrue⟩, store, rfl⟩
    · rw [none]
    · cases n.core.cache <;> simp [unasked]
    · rw [store]
      cases f.prefs.cache && n.cacheable <;> rfl
  simp [through, consulted, retained]

def merged (n : Node) (p : Preferences) : Except Fault Preferences :=
  match n.core.prefs with
  | some o => p.merge o
  | none => .ok p

variable {h}

theorem finish_eq (n : Node) (f : Frame) (v : Value) (errors : List Issue) :
    finish h n f v errors = (do
      let (v, errors) ← failover h n.core f v errors
      let (v, errors) ← fill h n.core f v errors
      let v ← cast n.core f v
      queue n.core f
      deliver n.core f v errors) >>= fun r => n.retain f r >>= fun _ => pure r := by
  unfold finish retain
  simp only [bind_assoc]
  congr 1
  funext s
  congr 1
  funext s
  congr 1
  funext v
  congr 1
  funext _
  congr 1
  funext r
  cases n.core.cache with
  | none => rfl
  | some store =>
      simp only
      split <;> rfl

theorem settled_finish (n : Node) (f : Frame) :
    (body h n f >>= fun s => finish h n f s.1 s.2) =
      settled h n f >>= fun r => n.retain f r >>= fun _ => pure r := by
  simp only [settled, finish_eq, bind_assoc]

theorem evaluate_eq (n : Node) (v : Value) (s : Site) (p : Preferences) :
    n.evaluate h v s p = (liftM (n.merged p) : Eval Preferences) >>= fun q =>
      n.through (n.frame v s q) (settled h n (n.frame v s q)) := by
  have rest : ∀ q, (do
      match ← n.consult (n.frame v s q) with
      | some r => return r
      | none =>
        let (w, errors) ← body h n (n.frame v s q)
        finish h n (n.frame v s q) w errors) = n.through (n.frame v s q) (settled h n (n.frame v s q)) := by
    intro q
    unfold through
    congr 1
    funext found
    cases found with
    | some r => rfl
    | none => exact settled_finish n (n.frame v s q)
  simp only [← rest]
  unfold evaluate merged consult
  cases n.core.prefs with
  | none =>
      cases n.core.cache with
      | none => rfl
      | some store =>
          rw [Eval.lift_ok_bind]
          by_cases asks : p.cache <;> simp only [frame, asks, if_true, pure_bind] <;> rfl
  | some o =>
      simp only
      congr 1
      funext q
      cases n.core.cache with
      | none => rfl
      | some store =>
          by_cases asks : q.cache <;> simp only [frame, asks, if_true, pure_bind] <;> rfl

/-- Of the content of a node only its conversion and its answer to absence matter. -/
theorem settled_content (n : Node) (f : Frame) (c : Content)
    (converts : coerce n.core c f = coerce n.core n.content f)
    (presence : presence { n with content := c } f = presence n f) :
    settled h { n with content := c } f = settled h n f := by
  have converted : ({ n with content := c } : Node).convert f = n.convert f := by
    funext v
    unfold convert
    rw [converts]
  have checked : ∀ v, checkPresence h { n with content := c } f v = checkPresence h n f v := by
    intro v
    unfold checkPresence
    rw [presence]
    rfl
  unfold settled body
  simp only [converted, checked]
  rfl

end Node

variable {B : Bounds} {ε : Effects} {h : Hooks} {fit : Value → Prop} {n n' : Node} {f f' : Frame}

theorem Bounds.NodesIn.settled (nodes : B.NodesIn ε h fit n n' f f') (laws : B.Lawful) :
    Alike B ε B.ResultIn (Node.settled h n f) (Node.settled h n' f') := by
  have settings := nodes.settings
  have frames := nodes.frames
  unfold Node.settled
  rw [nodes.core]
  refine (nodes.body laws).bind fun s checked => ?_
  refine (frames.failover laws settings.failover settings.error checked).bind fun s passed => ?_
  refine (frames.fill laws settings.default passed).bind fun s filled => ?_
  obtain ⟨v, errors⟩ := s
  simp only [frames.cast_eq]
  refine Alike.bind (Q := B.value) (Alike.lift ?_) fun v value => ?_
  · unfold Node.cast
    cases form : n.core.cast with
    | none => exact filled.1
    | some c =>
        simp only
        split
        · exact filled.1
        · rename_i present
          rw [nodes.kind]
          exact settings.cast c form v filled.1 (by simpa using present)
  · refine (frames.queue fun asked fn member => ?_).bind fun _ _ =>
      frames.deliver settings.captures laws ⟨value, filled.2⟩
    rw [nodes.label]
    exact settings.hooks asked fn member

/-- The same tables, full of results within bounds. -/
def Bounds.SameTables (B : Bounds) (ts ts' : Tables) : Prop :=
  ts = ts' ∧ Run.Kept (fun _ _ => B.ResultIn) ts

/-- A table that both sides find and leave alike, full of results within bounds. -/
structure Bounds.Shares (B : Bounds) (t : Nat) : Prop where
  found : ∀ (r r' : Run) slot, B.tables r.caches r'.caches →
    r'.cacheOf slot t = r.cacheOf slot t ∧ (r.cacheOf slot t).Holds fun _ => B.ResultIn
  left : ∀ (r r' : Run) (c : Cache Result), B.tables r.caches r'.caches → c.Holds (fun _ => B.ResultIn) →
    B.tables (r.putCache t c).caches (r'.putCache t c).caches

theorem Bounds.shares_same (tables : B.tables = B.SameTables) (t : Nat) : B.Shares t where
  found r r' slot linked := by
    obtain ⟨same, kept⟩ := tables ▸ linked
    exact ⟨by rw [Run.cacheOf, Run.cacheOf, same], kept.cacheOf slot t⟩
  left r r' c linked holds := by
    obtain ⟨same, kept⟩ := tables ▸ linked
    rw [tables]
    exact ⟨by simp [Run.putCache, same], kept.putCache holds⟩

theorem Alike.consultSlot {slot : CacheSlot} (shares : ∀ t, slot.table = some t → B.Shares t) (v : Value) :
    Alike B ε (fun o => ∀ r, o = some r → B.ResultIn r) (Eval.cached? (.cache slot) v)
      (Eval.cached? (.cache slot) v) := by
  intro r r' linked
  rw [Eval.exec_cached?, Eval.exec_cached?]
  cases table : slot.table with
  | none => exact Alike.still nofun linked
  | some t =>
      obtain ⟨same, kept⟩ := (shares t table).found r r' slot linked.tables
      obtain ⟨found, left⟩ := kept.get v
      have tables := (shares t table).left r r' _ linked.tables left
      simp only [same]
      refine ⟨rfl, fun res isFound => ?_, ⟨tables, linked.copies, linked.shadow, linked.captured⟩, {},
        ε.admits_empty, by simp, by simp⟩
      obtain ⟨-, -, -, -, result⟩ := found res isFound
      exact result

theorem Alike.retainSlot {slot : CacheSlot} (shares : ∀ t, slot.table = some t → B.Shares t) (v : Value)
    {result : Result} (bounded : B.ResultIn result) :
    Alike B ε (fun _ => True) (Eval.keep (.cache slot) v result) (Eval.keep (.cache slot) v result) := by
  intro r r' linked
  rw [Eval.exec_keep, Eval.exec_keep]
  cases table : slot.table with
  | none => exact Alike.still (o := .ok ()) trivial linked
  | some t =>
      obtain ⟨same, kept⟩ := (shares t table).found r r' slot linked.tables
      have tables := (shares t table).left r r' _ linked.tables (kept.set v fun _ _ _ _ => bounded)
      simp only [same]
      exact ⟨rfl, trivial, ⟨tables, linked.copies, linked.shadow, linked.captured⟩, {}, ε.admits_empty,
        by simp, by simp⟩

/-- A cache whose table both sides share is used alike. -/
theorem Alike.through (shares : ∀ slot t, n.core.cache = some (.cache slot) → slot.table = some t → B.Shares t)
    (frames : B.Frames f f') (core : n'.core = n.core) (cacheable : n'.cacheable = n.cacheable)
    (unfit : n.core.cache = some .unfit → ∀ t, B.fault (.noMethod t)) {x y : Eval Result}
    (alike : Alike B ε B.ResultIn x y) :
    Alike B ε B.ResultIn (n.through f x) (n'.through f' y) := by
  obtain ⟨c, prefs⟩ := frames.prefs.context
  have consulted : Alike B ε (fun o => ∀ r, o = some r → B.ResultIn r) (n.consult f) (n'.consult f') := by
    unfold Node.consult
    rw [core, frames.given, prefs]
    rcases store : n.core.cache with _ | ⟨slot⟩ | _
    · exact Alike.pure nofun
    · simp only
      split
      · exact consultSlot (fun t => shares slot t store) f.given
      · exact Alike.pure nofun
    · simp only
      split
      · exact Alike.throw (unfit store "get")
      · exact Alike.pure nofun
  have retained : ∀ r, B.ResultIn r → Alike B ε (fun _ => True) (n.retain f r) (n'.retain f' r) := by
    intro r result
    unfold Node.retain
    rw [core, cacheable, frames.given, prefs]
    rcases store : n.core.cache with _ | ⟨slot⟩ | _
    · exact Alike.pure trivial
    · simp only
      split
      · exact retainSlot (fun t => shares slot t store) f.given result
      · exact Alike.pure trivial
    · simp only
      split
      · exact Alike.throw (unfit store "set")
      · exact Alike.pure trivial
  refine consulted.bind fun o found => ?_
  cases o with
  | some r => exact Alike.pure (found r rfl)
  | none => exact alike.bind fun r result => (retained r result).bind fun _ _ => Alike.pure result

end Conform
