import Conform.Proofs.Validation.Lookup

/-!
# The end of a node on two sides

Failover, error override, default, cast, hooks and result, each alike on both sides where what the
settings name stays within bounds.
-/

namespace Conform

/-- What an error override answers, read as issues. -/
def Issue.answered : Value → List Issue
  | .list xs => xs.map ofValue
  | .tuple xs => xs.map ofValue
  | v => [ofValue v]

namespace Bounds

variable (B : Bounds) (ε : Effects) (h : Hooks)

/-- A value whose copies are within bounds, and the same on both sides. -/
structure CopiesIn (v : Value) : Prop where
  met : ∀ n, B.Meets B.value (v.copy n)
  same : ∀ m n, (B.sameCopies → m = n) → v.copy m = v.copy n

/-- A function that makes defaults. Where it takes the parent the sides share their place. -/
structure FallbackCallIn (fn : Fn) : Prop where
  parent : 0 < (h.signature fn).arity → B.samePlace ∧ ∀ v, B.value v → B.CopiesIn v
  call : ∀ parent prefs, Alike B ε B.value (h.fallback fn parent prefs) (h.fallback fn parent prefs)

def FallbackIn : Option Fallback → Prop
  | none => True
  | some .deep => True
  | some (.static v) => B.value v ∧ (v.isMutableContainer → B.CopiesIn v)
  | some (.ref r) => B.ResolvesIn h r
  | some (.call fn) => B.FallbackCallIn ε h fn

def ErrorIn : Option ErrorOverride → Prop
  | none => True
  | some (.raised e) => B.issue (.other (.leaf (.raised e)))
  | some (.call fn) =>
    ∀ errors, B.Issues errors →
      Alike B ε (fun v => B.Issues (Issue.answered v)) (h.override fn errors) (h.override fn errors)

/-- A value and the issues that came up with it. -/
def StateIn (s : Value × List Issue) : Prop := B.value s.1 ∧ B.Issues s.2

end Bounds

variable {B : Bounds} {ε : Effects} {h : Hooks}

namespace Bounds

theorem issues_nil : B.Issues [] := nofun

theorem Issues.append {is js : List Issue} (first : B.Issues is) (second : B.Issues js) :
    B.Issues (is ++ js) := by
  intro i member
  rcases List.mem_append.mp member with left | right
  · exact first i left
  · exact second i right

theorem issues_singleton {i : Issue} (issue : B.issue i) : B.Issues [i] := by
  intro j member
  rwa [List.mem_singleton.mp member]

theorem ancestor (laws : B.Lawful) {s : Site} (site : B.SiteIn s) :
    B.value (s.ancestors.head?.getD .undefined) := by
  cases above : s.ancestors with
  | nil => exact laws.undefined
  | cons a as => exact site.ancestors a (by simp [above])

end Bounds

namespace Alike

theorem copy {v : Value} (copies : B.CopiesIn v) : Alike B ε B.value (Eval.copy v) (Eval.copy v) := by
  intro r r' linked
  have same := copies.same r.copies r'.copies linked.copies
  refine ⟨same, copies.met r.copies, ?_, {}, ε.admits_empty, by simp [Eval.copy, Eval.exec_bind],
    by simp [Eval.copy, Eval.exec_bind]⟩
  exact ⟨linked.tables, fun share => congrArg (· + 1) (linked.copies share), linked.shadow, linked.captured⟩

end Alike

namespace Node

/-- The call of a function that makes a default, with what is passed on where it raises. -/
def callFallback (h : Hooks) (f : Frame) (code : String) (fn : Fn) (parent : Option Value) :
    Eval (Value × List Issue) :=
  let prefs := if 1 < (h.signature fn).arity then some f.prefs else none
  tryCatch ((fun v => (v, [])) <$> h.fallback fn parent prefs) fun fault =>
    pure (.undefined, [.report (f.report code .null [(.str "error", .leaf (.raised fault.toRaised))])])

/-- What gives a default or a failover its value, where defaults are asked for. -/
def source (h : Hooks) (f : Frame) (code : String) : Option Fallback → Eval (Value × List Issue)
  | none => pure (.undefined, [])
  | some .deep => pure (.undefined, [])
  | some (.static v) => (if v.isMutableContainer then Eval.copy v else pure v) >>= fun w => pure (w, [])
  | some (.ref r) => resolve h f .undefined r >>= fun v => pure (v, [])
  | some (.call fn) =>
    (if 0 < (h.signature fn).arity then some <$> Eval.copy (f.site.ancestors.head?.getD .undefined)
      else pure none) >>= callFallback h f code fn

theorem fallback_eq (f : Frame) (code : String) (s : Option Fallback) :
    fallback h f code s = if f.prefs.noDefaults then pure (.undefined, []) else source h f code s := by
  unfold fallback source callFallback
  simp only [Eval.catch_return]
  split
  · rfl
  · rcases s with _ | v | r | fn | _
    · rfl
    · simp only
      split <;> rfl
    · rfl
    · simp only
      split <;> rfl
    · rfl

end Node

namespace Bounds.Frames

variable {f f' : Frame}

theorem flag_eq (frames : B.Frames f f') : f'.prefs.noDefaults = f.prefs.noDefaults := by
  obtain ⟨c, same⟩ := frames.prefs.context
  rw [same]

theorem nothing (laws : B.Lawful) : B.StateIn (.undefined, []) := ⟨laws.undefined, nofun⟩

theorem callFallback (frames : B.Frames f f') (laws : B.Lawful) (code : String) {fn : Fn}
    (bounded : B.FallbackCallIn ε h fn) (parent : Option Value) :
    Alike B ε B.StateIn (Node.callFallback h f code fn parent)
      (Node.callFallback h f' code fn parent) := by
  have samePrefs : (if 1 < (h.signature fn).arity then some f'.prefs else none) =
      if 1 < (h.signature fn).arity then some f.prefs else none := by
    split
    · rename_i takes
      rw [frames.eq (bounded.parent (Nat.lt_of_succ_lt takes)).1]
    · rfl
  unfold Node.callFallback
  simp only [samePrefs, frames.report_eq]
  refine Alike.tryCatch ?_ ?_
  · exact (bounded.call parent _).map fun v value => ⟨value, nofun⟩
  · intro fault _
    refine Alike.pure ⟨laws.undefined, issues_singleton ?_⟩
    exact frames.reported laws f.site code .null _ (by simp [Datum.isText])

theorem source (frames : B.Frames f f') (laws : B.Lawful) (code : String) {s : Option Fallback}
    (bounded : B.FallbackIn ε h s) :
    Alike B ε B.StateIn (Node.source h f code s) (Node.source h f' code s) := by
  have filled : ∀ v, B.value v → B.StateIn (v, []) := fun _ value => ⟨value, nofun⟩
  rcases s with _ | v | r | fn | _
  · exact Alike.pure (nothing laws)
  · refine Alike.bind (Q := B.value) ?_ fun w value => Alike.pure (filled w value)
    split
    · rename_i mutable
      exact Alike.copy (bounded.2 mutable)
    · exact Alike.pure bounded.1
  · exact (frames.resolve laws bounded laws.undefined).bind fun v value => Alike.pure (filled v value)
  · refine Alike.bind (Q := fun _ => True) ?_ fun parent _ => frames.callFallback laws code bounded parent
    split
    · rename_i takes
      obtain ⟨share, copies⟩ := bounded.parent takes
      rw [frames.eq share]
      exact (Alike.copy (copies _ (ancestor laws frames.site.left))).map fun _ _ => trivial
    · exact Alike.pure trivial
  · exact Alike.pure (nothing laws)

theorem fallback (frames : B.Frames f f') (laws : B.Lawful) (code : String) {s : Option Fallback}
    (bounded : B.FallbackIn ε h s) :
    Alike B ε B.StateIn (Node.fallback h f code s) (Node.fallback h f' code s) := by
  rw [Node.fallback_eq, Node.fallback_eq, frames.flag_eq]
  split
  · exact Alike.pure (nothing laws)
  · exact frames.source laws code bounded

theorem overridden {s : Option ErrorOverride} (bounded : B.ErrorIn ε h s) {errors : List Issue}
    (issues : B.Issues errors) :
    Alike B ε B.Issues (Node.overridden h s errors) (Node.overridden h s errors) := by
  rcases s with _ | e | fn
  · exact Alike.pure issues
  · exact Alike.pure (issues_singleton bounded)
  · refine (bounded errors issues).bind fun v answered => ?_
    cases v <;> exact Alike.pure answered

theorem failover (frames : B.Frames f f') (laws : B.Lawful) {core : Core}
    (source : B.FallbackIn ε h core.failover) (error : B.ErrorIn ε h core.error) {v : Value}
    {errors : List Issue} (state : B.StateIn (v, errors)) :
    Alike B ε B.StateIn (Node.failover h core f v errors) (Node.failover h core f' v errors) := by
  unfold Node.failover
  split
  · exact Alike.pure ⟨state.1, nofun⟩
  · refine (frames.fallback laws "any.failover" source).bind fun found bounded => ?_
    obtain ⟨w, more⟩ := found
    simp only
    split
    · exact Alike.pure ⟨bounded.1, nofun⟩
    · exact (overridden error (state.2.append bounded.2)).bind fun is issues => Alike.pure ⟨state.1, issues⟩

theorem fill (frames : B.Frames f f') (laws : B.Lawful) {core : Core}
    (source : B.FallbackIn ε h core.default) {v : Value} {errors : List Issue}
    (state : B.StateIn (v, errors)) :
    Alike B ε B.StateIn (Node.fill h core f v errors) (Node.fill h core f' v errors) := by
  unfold Node.fill
  split
  · exact Alike.pure state
  · exact (frames.fallback laws "any.default" source).bind fun found bounded =>
      Alike.pure ⟨bounded.1, state.2.append bounded.2⟩

theorem cast_eq (frames : B.Frames f f') (core : Core) (v : Value) :
    Node.cast core f' v = Node.cast core f v := by
  unfold Node.cast
  rw [frames.kind]

theorem queue (frames : B.Frames f f') {core : Core}
    (admitted : f.prefs.externals → ∀ fn ∈ core.externals,
      ε.hook ⟨fn, f.site.path, nodeLabel f.label f.site.path f.prefs.errorLabel⟩) :
    Alike B ε (fun _ => True) (Node.queue core f) (Node.queue core f') := by
  obtain ⟨c, same⟩ := frames.prefs.context
  unfold Node.queue
  rw [same, frames.label, frames.site.path]
  simp only
  split
  · rename_i asked
    exact Alike.queue (admitted asked)
  · exact Alike.pure trivial

theorem deliver (frames : B.Frames f f') {core : Core} (admitted : core.result.isSome → ε.captures)
    {v : Value} {errors : List Issue} (laws : B.Lawful) (state : B.StateIn (v, errors)) :
    Alike B ε B.ResultIn (Node.deliver core f v errors) (Node.deliver core f' v errors) := by
  unfold Node.deliver
  rw [frames.site.path, frames.given]
  cases mode : core.result with
  | none => exact Alike.pure ⟨state.1, state.2⟩
  | some m =>
      refine (Alike.capture (admitted (by simp [mode])) state.1).bind fun _ _ => Alike.pure ⟨?_, state.2⟩
      cases m with
      | raw => exact frames.value
      | strip => exact laws.undefined

end Bounds.Frames

end Conform
