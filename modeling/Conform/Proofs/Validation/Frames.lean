import Conform.Proofs.Run.Alike
import Conform.Validation.Node

/-!
# Frames on two sides

Where the two sides do not share their place, a node sees other enclosing values and another context on
each, but the same path, settings and value. What it reports is then the same.
-/

namespace Conform

namespace Bounds

variable (B : Bounds)

/-- The laws that bounds obey: containers are bounded by what they hold, and what every node may report
is admitted. -/
structure Lawful : Prop where
  undefined : B.value .undefined
  list : ∀ xs, B.value (.list xs) ↔ ∀ x ∈ xs, B.value x
  tuple : ∀ xs, B.value (.tuple xs) ↔ ∀ x ∈ xs, B.value x
  dict : ∀ es, B.value (.dict es) ↔ ∀ e ∈ es, B.value e.1 ∧ B.value e.2
  index : ∀ n, B.key (.int n)
  standard : B.prefs {}
  matching : ∀ p, B.prefs p → B.prefs p.forMatching
  context : ∀ p, B.prefs p → ∀ es, p.context = some es → B.value (.dict es)
  reported : ∀ label path p code v (locals : Dict), B.prefs p → (∀ e ∈ locals, e.1.isText) →
    B.issue (.report (Conform.report label path p (.str code) v locals))

def Issues (is : List Issue) : Prop := ∀ i ∈ is, B.issue i

/-- A result whose value and issues are within bounds. -/
structure ResultIn (r : Result) : Prop where
  value : B.value r.value
  errors : B.Issues r.errors

structure SiteIn (s : Site) : Prop where
  path : ∀ k ∈ s.path, B.key k
  ancestors : ∀ a ∈ s.ancestors, B.value a

/-- Sites at the same path. -/
structure Sites (s s' : Site) : Prop where
  path : s'.path = s.path
  same : B.samePlace → s' = s
  left : B.SiteIn s

/-- Preferences that only the context tells apart. -/
structure Prefs (p p' : Preferences) : Prop where
  context : ∃ c, p' = { p with context := c }
  same : B.samePlace → p' = p
  left : B.prefs p

/-- Frames that only the enclosing values and the context tell apart. -/
structure Frames (f f' : Frame) : Prop where
  kind : f'.kind = f.kind
  label : f'.label = f.label
  site : B.Sites f.site f'.site
  prefs : B.Prefs f.prefs f'.prefs
  given : f'.given = f.given
  current : f'.current = f.current
  value : B.value f.given

end Bounds

variable {B : Bounds}

namespace Bounds.Sites

variable {s s' : Site}

theorem child (sites : B.Sites s s') {v k : Value} (value : B.value v) (key : B.key k) :
    B.Sites (s.child v k) (s'.child v k) where
  path := by simp [Site.child, sites.path]
  same share := by rw [sites.same share]
  left := {
    path := by
      intro j member
      rcases List.mem_append.mp member with above | last
      · exact sites.left.path j above
      · rwa [List.mem_singleton.mp last]
    ancestors := by
      intro a member
      rcases List.mem_cons.mp member with rfl | above
      · exact value
      · exact sites.left.ancestors a above }

end Bounds.Sites

namespace Bounds.Prefs

variable {p p' : Preferences}

theorem matching (laws : B.Lawful) (prefs : B.Prefs p p') :
    B.Prefs p.forMatching p'.forMatching where
  context := by
    obtain ⟨c, rfl⟩ := prefs.context
    exact ⟨c, rfl⟩
  same share := by rw [prefs.same share]
  left := laws.matching p prefs.left

theorem standard (laws : B.Lawful) : B.Prefs {} {} := ⟨⟨none, rfl⟩, fun _ => rfl, laws.standard⟩

theorem report_eq (prefs : B.Prefs p p') (label : Option String) (path : Path) (code v : Value)
    (locals : Dict) :
    Conform.report label path p' code v locals = Conform.report label path p code v locals := by
  obtain ⟨c, rfl⟩ := prefs.context
  rfl

end Bounds.Prefs

namespace Bounds.Frames

variable {f f' : Frame}

theorem eq (frames : B.Frames f f') (share : B.samePlace) : f' = f := by
  cases f
  cases f'
  rw [Frame.mk.injEq]
  exact ⟨frames.kind, frames.label, frames.site.same share, frames.prefs.same share, frames.given,
    frames.current⟩

theorem withCurrent (frames : B.Frames f f') (v : Value) :
    B.Frames { f with current := v } { f' with current := v } :=
  { frames with current := rfl }

theorem reportUnder_eq (frames : B.Frames f f') {s s' : Site} (path : s'.path = s.path)
    (code v : Value) (locals : Dict) :
    f'.reportUnder s' code v locals = f.reportUnder s code v locals := by
  rw [Frame.reportUnder, Frame.reportUnder, frames.label, path]
  exact frames.prefs.report_eq f.label s.path code v locals

theorem reportAt_eq (frames : B.Frames f f') {s s' : Site} (path : s'.path = s.path) (code : String)
    (v : Value) (locals : Dict) : f'.reportAt s' code v locals = f.reportAt s code v locals :=
  frames.reportUnder_eq path (.str code) v locals

theorem report_eq (frames : B.Frames f f') (code : String) (v : Value) (locals : Dict) :
    f'.report code v locals = f.report code v locals :=
  frames.reportAt_eq frames.site.path code v locals

theorem fail_eq (frames : B.Frames f f') (code : String) (locals : Dict) :
    f'.fail code locals = f.fail code locals := by
  rw [Frame.fail, Frame.fail, frames.current]
  exact frames.report_eq code f.current locals

theorem reported (frames : B.Frames f f') (laws : B.Lawful) (s : Site) (code : String) (v : Value)
    (locals : Dict) (texts : ∀ e ∈ locals, e.1.isText) :
    B.issue (.report (f.reportAt s code v locals)) :=
  laws.reported f.label s.path f.prefs code v locals frames.prefs.left texts

end Bounds.Frames

namespace Alike

variable {ε : Effects} {α : Type} {Q : α → Prop}

/-- A computation that reads the shadow. -/
theorem reading (g k : Option Shadow → Except Fault α)
    (read : ∀ s s', (B.samePlace → s = s') → (∀ t, s = some t → t.Holds B.value) →
      g s = k s' ∧ B.Meets Q (g s)) :
    Alike B ε Q (get >>= fun r => liftM (g r.journal.shadow))
      (get >>= fun r => liftM (k r.journal.shadow)) := by
  intro r r' linked
  obtain ⟨same, met⟩ := read _ _ linked.shadow linked.captured
  rw [Eval.exec_bind, Eval.exec_bind, Eval.exec_get, Eval.exec_get, Eval.andThen_ok,
    Eval.andThen_ok, Eval.exec_lift, Eval.exec_lift, ← same]
  exact still met linked

theorem warn {r : Report} (admitted : ε.warning r) :
    Alike B ε (fun _ => True) (Eval.warn r) (Eval.warn r) := by
  intro s s' linked
  have writes : ε.Admits { warnings := [r] } :=
    ⟨nofun, by simpa using admitted, fun present => absurd rfl present⟩
  refine ⟨rfl, trivial, ⟨linked.tables, linked.copies, linked.shadow, linked.captured⟩, _, writes, ?_, ?_⟩
  · simp [Eval.warn, Writes.onto, Writes.captureAll, Journal.warn]
  · simp [Eval.warn, Writes.onto, Writes.captureAll, Journal.warn]

theorem capture {p : Path} {v : Value} (admitted : ε.captures) (value : B.value v) :
    Alike B ε (fun _ => True) (modify (Run.onJournal (Journal.capture p v)))
      (modify (Run.onJournal (Journal.capture p v))) := by
  intro r r' linked
  have writes : ε.Admits { captures := [(p, v)] } := ⟨nofun, nofun, fun _ => admitted⟩
  refine ⟨rfl, trivial, ⟨linked.tables, linked.copies, ?_, ?_⟩, _, writes, ?_, ?_⟩
  · intro share
    simp [Journal.capture, linked.shadow share]
  · intro s captured
    obtain rfl := Option.some.inj captured
    cases before : r.journal.shadow with
    | none => simpa [before] using Shadow.holds_empty.set p value
    | some t => simpa [before] using (linked.captured t before).set p value
  · simp [Writes.onto, Writes.captureAll, Journal.capture]
  · simp [Writes.onto, Writes.captureAll, Journal.capture]

/-- The hooks of a node, queued in order. -/
theorem queue {fns : List Fn} {p : Path} {label : String}
    (admitted : ∀ fn ∈ fns, ε.hook ⟨fn, p, label⟩) :
    Alike B ε (fun _ => True)
      (modify (Run.onJournal fun j => fns.foldl (fun j fn => j.queue ⟨fn, p, label⟩) j))
      (modify (Run.onJournal fun j => fns.foldl (fun j fn => j.queue ⟨fn, p, label⟩) j)) := by
  intro r r' linked
  have queued : ∀ (fns : List Fn) (j : Journal Pending Report),
      fns.foldl (fun j fn => j.queue ⟨fn, p, label⟩) j =
        ({ hooks := fns.map fun fn => ⟨fn, p, label⟩ } : Writes).onto j := by
    intro fns
    induction fns with
    | nil => intro j; simp
    | cons fn fns ih =>
        intro j
        rw [List.foldl_cons, ih]
        simp [Writes.onto, Journal.queue]
  have writes : ε.Admits { hooks := fns.map fun fn => ⟨fn, p, label⟩ } := by
    refine ⟨?_, List.forall_mem_nil _, fun present => absurd rfl present⟩
    simpa using admitted
  refine ⟨rfl, trivial, ⟨linked.tables, linked.copies, ?_, ?_⟩, _, writes, queued _ _, queued _ _⟩
  · intro share
    simpa [queued, Writes.onto, Writes.captureAll] using linked.shadow share
  · intro s captured
    apply linked.captured
    simpa [queued, Writes.onto, Writes.captureAll] using captured

end Alike

end Conform
