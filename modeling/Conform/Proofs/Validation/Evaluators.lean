import Conform.Proofs.Validation.Settled

/-!
# Evaluators on two sides

Evaluators are compared at a path and under preferences without their context, as the node above hands
them down.
-/

namespace Conform

namespace Preferences

/-- The preferences without their context. -/
def plain (p : Preferences) : Preferences := { p with context := none }

@[simp] theorem plain_forMatching (p : Preferences) : p.forMatching.plain = p.plain.forMatching := rfl

theorem setOption_context (p : Preferences) (c : Option Dict) (name : String) (v : Value) :
    ∃ d, setOption { p with context := c } name v = { setOption p name v with context := d } := by
  unfold setOption
  split <;> exact ⟨_, rfl⟩

theorem setEntries_context (o : Dict) (p : Preferences) (c : Option Dict) :
    ∃ d, o.foldl setEntry { p with context := c } = { o.foldl setEntry p with context := d } := by
  induction o generalizing p c with
  | nil => exact ⟨c, rfl⟩
  | cons e o ih =>
      have head : ∃ d, setEntry { p with context := c } e = { setEntry p e with context := d } := by
        unfold setEntry
        split
        · exact setOption_context p c _ _
        · exact ⟨c, rfl⟩
      obtain ⟨d, head⟩ := head
      rw [List.foldl_cons, List.foldl_cons, head]
      exact ih _ d

theorem merge_context (p : Preferences) (c : Option Dict) (o : Dict) :
    (∃ f, merge p o = .error f ∧ merge { p with context := c } o = .error f) ∨
    ∃ q d, merge p o = .ok q ∧ merge { p with context := c } o = .ok { q with context := d } := by
  unfold merge
  split
  · exact .inr ⟨p, c, rfl, rfl⟩
  · cases check o with
    | error f => exact .inl ⟨f, rfl, rfl⟩
    | ok u =>
        obtain ⟨d, same⟩ := setEntries_context o p c
        exact .inr ⟨_, d, rfl, congrArg Except.ok same⟩

end Preferences

namespace Node

theorem merged_context (n : Node) (p : Preferences) (c : Option Dict) :
    (∃ f, n.merged p = .error f ∧ n.merged { p with context := c } = .error f) ∨
    ∃ q d, n.merged p = .ok q ∧ n.merged { p with context := c } = .ok { q with context := d } := by
  unfold merged
  cases n.core.prefs with
  | none => exact .inr ⟨p, c, rfl, rfl⟩
  | some o => exact Preferences.merge_context p c o

end Node

variable {B : Bounds} {ε : Effects} {h : Hooks}

namespace Bounds

/-- Evaluators that run alike at a path under preferences, whatever their context. -/
def EvaluatorsAt (B : Bounds) (ε : Effects) (path : Path) (p : Preferences) (e e' : Evaluator) : Prop :=
  ∀ v s s' q q', B.value v → B.Sites s s' → B.Prefs q q' → s.path = path → q.plain = p →
    Alike B ε B.ResultIn (e v s q) (e' v s' q')

/-- What a node does to the preferences. -/
structure MergeIn (B : Bounds) (n : Node) : Prop where
  prefs : ∀ p q, B.prefs p → n.merged p = .ok q → B.prefs q
  fault : ∀ p f, B.prefs p → n.merged p = .error f → B.fault f

/-- A node evaluates alike on both sides if it does from all frames with the merged preferences, also
with its cache around it. -/
theorem evaluators (n n' : Node) (path : Path) (p : Preferences) (merges : B.MergeIn n)
    (core : n'.core.prefs = n.core.prefs) (label : n'.core.label = n.core.label)
    (kind : n'.content.kind = n.content.kind)
    (inside : ∀ v s s' q q' merged, B.value v → B.Sites s s' → B.Prefs q q' → s.path = path →
      n.merged p = .ok merged → q.plain = merged.plain → B.Frames (n.frame v s q) (n'.frame v s' q') →
      Alike B ε B.ResultIn (n.through (n.frame v s q) (Node.settled h n (n.frame v s q)))
        (n'.through (n'.frame v s' q') (Node.settled h n' (n'.frame v s' q')))) :
    B.EvaluatorsAt ε path p (n.evaluate h) (n'.evaluate h) := by
  intro v s s' q q' value sites prefs atPath plain
  obtain ⟨c, rfl⟩ := prefs.context
  have sameMerge : ∀ r, n'.merged r = n.merged r := fun r => by rw [Node.merged, Node.merged, core]
  rw [Node.evaluate_eq, Node.evaluate_eq, sameMerge]
  have below : q = { p with context := q.context } := by
    rw [← plain]
    rfl
  rcases n.merged_context q c with ⟨f, left, right⟩ | ⟨r, d, left, right⟩
  · rw [left, right]
    exact Alike.throw (merges.fault q f prefs.left left)
  · rw [left, right, Eval.lift_ok_bind, Eval.lift_ok_bind]
    have shared : B.Prefs r { r with context := d } := by
      refine ⟨⟨d, rfl⟩, fun share => ?_, merges.prefs q r prefs.left left⟩
      rw [prefs.same share, left] at right
      exact (Except.ok.inj right).symm
    obtain ⟨merged, isMerged, similar⟩ : ∃ merged, n.merged p = .ok merged ∧ r.plain = merged.plain := by
      rcases n.merged_context p q.context with ⟨f, -, fails⟩ | ⟨m, e, lower, upper⟩
      · rw [← below, left] at fails
        contradiction
      · rw [← below, left] at upper
        obtain rfl := Except.ok.inj upper
        exact ⟨m, lower, rfl⟩
    refine inside v s s' r _ merged value sites shared atPath isMerged similar ?_
    exact ⟨kind, label, sites, shared, rfl, rfl, value⟩

end Bounds

end Conform
