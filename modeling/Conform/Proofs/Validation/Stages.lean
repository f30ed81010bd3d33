import Conform.Proofs.Schema.Free

/-!
# The stages of a node

Before its base check a node approaches a value to check, or finishes with one. Only the base check and
the last stage queue hooks.
-/

namespace Conform

/-- Any writes but hooks. -/
def Effects.hookless : Effects := ⟨fun _ => False, fun _ => True, True⟩

/-- A computation that leaves the queue of hooks as it is. -/
def Calm {α : Type} (x : Eval α) : Prop := ∀ r, (x.exec r).2.journal.externals = r.journal.externals

/-- Functions that queue no hooks. -/
structure Hooks.Calm (h : Hooks) : Prop where
  custom : ∀ fn f v, Alike (.free Eq True True) .hookless (fun _ => True) (h.custom fn f v) (h.custom fn f v)
  fallback : ∀ fn parent prefs, Alike (.free Eq True True) .hookless (fun _ => True)
    (h.fallback fn parent prefs) (h.fallback fn parent prefs)
  override : ∀ fn errors, Alike (.free Eq True True) .hookless (fun _ => True) (h.override fn errors)
    (h.override fn errors)

namespace Alike

variable {α : Type} {Q : α → Prop} {x y : Eval α}

theorem wider {B : Bounds} {ε δ : Effects} (alike : Alike B ε Q x y) (more : ∀ w, ε.Admits w → δ.Admits w) :
    Alike B δ Q x y := by
  intro r r' linked
  obtain ⟨outcome, met, linkedAfter, w, admitted, left, right⟩ := alike r r' linked
  exact ⟨outcome, met, linkedAfter, w, more w admitted, left, right⟩

theorem calm (alike : Alike (.free Eq True True) .hookless Q x x) : Calm x := by
  intro r
  have linked := Bounds.free_linked Eq True True r r rfl rfl fun _ => rfl
  obtain ⟨-, -, -, w, admitted, left, -⟩ := alike r r linked
  have none : w.hooks = [] := List.eq_nil_iff_forall_not_mem.mpr admitted.hooks
  rw [left]
  simp [Writes.onto, none]

end Alike

namespace Node

variable (h : Hooks) (n : Node) (f : Frame)

/-- The value that the checks of allowed and denied values let through. -/
def vetted (v : Value) : Eval Verdict := do
  match ← checkAllowed h n.core f v with
  | .finished v errors => return .finished v errors
  | .goOn v errors => checkDenied h n.core f v errors

def approachPresence (v : Value) : Eval Verdict :=
  if v.isUndefined then
    match n.presence f with
    | some .forbidden => pure (.finished v [])
    | some .required => pure (.finished v [.report (f.report "any.required" v [])])
    | some .optional => if isDeep n.core.default then vetted h n f (.dict []) else pure (.finished v [])
    | none => vetted h n f v
  else
    match n.presence f with
    | some .forbidden => pure (.finished v [.report (f.report "any.unknown" v [])])
    | _ => vetted h n f v

/-- The stages before the base check. -/
def approach : Eval Verdict :=
  match n.convert f f.given with
  | .finished v es => pure (.finished v es)
  | .goOn v _ => emptied n f v >>= approachPresence h n f

theorem check_eq (v : Value) : check h n f v = vetted h n f v >>= fun
    | .finished v es => pure (v, es)
    | .goOn v es => checkBase h n f v es := by
  unfold check vetted
  rw [bind_assoc]
  congr 1
  funext verdict
  cases verdict with
  | finished w es => rfl
  | goOn w es => rfl

theorem body_eq : body h n f = approach h n f >>= fun
    | .finished v es => pure (v, es)
    | .goOn v es => checkBase h n f v es := by
  unfold body approach
  cases n.convert f f.given with
  | finished v es => rfl
  | goOn v es =>
      simp only [bind_assoc]
      congr 1
      funext w
      unfold checkPresence approachPresence
      simp only [check_eq]
      by_cases absent : w.isUndefined
      · simp only [absent, if_true]
        rcases n.presence f with _ | p
        · rfl
        · cases p with
          | optional => cases isDeep n.core.default <;> rfl
          | required => rfl
          | forbidden => rfl
      · simp only [absent]
        rcases n.presence f with _ | p
        · rfl
        · cases p <;> rfl

end Node

/-- The settings of a node without its hooks. -/
def Core.unhooked (c : Core) : Core := { c with externals := [] }

variable {h : Hooks}

theorem Hooks.Calm.framed (calm : h.Calm) : h.Framed where
  custom fn f v := (calm.custom fn f v).wider fun w _ => Effects.admits_all w
  fallback fn parent prefs := (calm.fallback fn parent prefs).wider fun w _ => Effects.admits_all w
  override fn errors := (calm.override fn errors).wider fun w _ => Effects.admits_all w

theorem Hooks.Calm.coreIn (calm : h.Calm) (core : Core) (content : Content) (path : Path) (q : Preferences) :
    (Bounds.free Eq True True).CoreIn .hookless h (fun _ => True) core.unhooked content path q := by
  apply Bounds.free_coreIn
  · exact ⟨fun _ _ => trivial, fun v _ _ m n same => by rw [same trivial]⟩
  · refine ⟨fun e _ _ fn _ f f' v frames => ?_, fun fn _ => ⟨fun _ => ⟨trivial, trivial⟩, calm.fallback fn⟩,
      fun fn _ => calm.override fn⟩
    rw [frames.eq trivial]
    exact calm.custom fn _ v
  · exact ⟨fun _ => nofun, fun _ => trivial, fun _ _ _ _ => trivial⟩

namespace Calm

variable {α β : Type}

theorem pure (a : α) : Calm (pure a) := fun _ => rfl

theorem bind {x : Eval α} {g : α → Eval β} (first : Calm x) (then_ : ∀ a, Calm (g a)) : Calm (x >>= g) := by
  intro r
  rw [Eval.exec_bind]
  have here := first r
  rcases ran : x.exec r with ⟨f | a, s⟩
  all_goals rw [ran] at here
  · exact here
  · rw [Eval.andThen_ok, then_ a s]
    exact here

theorem lift (x : Except Fault α) : Calm (liftM x : Eval α) := fun _ => rfl

end Calm

namespace Hooks.Calm

variable (calm : h.Calm) (s : Schema) (f : Frame)

include calm

theorem accepts (t : Schema) (v : Value) (site : Site) (p : Preferences) :
    Conform.Calm (Node.accepts (t.eval h) v site p) := by
  have alike := Bounds.free_alike (calm.framed.everywhere ⟨false, t, site.path, p.forMatching.plain⟩)
  have both := alike v site site _ _ trivial (Bounds.free_sites site) (Bounds.free_prefs p.forMatching) rfl rfl
  exact (Bounds.Frames.accepts both).calm

theorem emptied (v : Value) : Conform.Calm (Node.emptied (s.toNode h) f v) := by
  unfold Node.emptied Schema.toNode
  cases s.empty? with
  | none => exact Conform.Calm.pure v
  | some e => exact (calm.accepts e _ _ _).bind fun _ => Conform.Calm.pure _

theorem vetted (v : Value) : Conform.Calm (Node.vetted h (s.toNode h) f v) := by
  have settings := calm.coreIn s.core s.content f.site.path f.prefs
  have frames : (Bounds.free Eq True True).Frames f f := Bounds.free_frames f
  unfold Node.vetted
  refine Conform.Calm.bind (frames.checkAllowed Bounds.free_lawful settings.allowed trivial).calm fun verdict => ?_
  cases verdict with
  | finished w es => exact Conform.Calm.pure _
  | goOn w es =>
      exact (frames.checkDenied Bounds.free_lawful settings.denied ⟨trivial, Bounds.free_issues es⟩).calm

theorem approach : Conform.Calm (Node.approach h (s.toNode h) f) := by
  unfold Node.approach
  split
  · exact Conform.Calm.pure _
  · refine (calm.emptied s f _).bind fun w => ?_
    unfold Node.approachPresence
    split
    · split
      · exact Conform.Calm.pure _
      · exact Conform.Calm.pure _
      · split
        · exact calm.vetted s f _
        · exact Conform.Calm.pure _
      · exact calm.vetted s f _
    · split
      · exact Conform.Calm.pure _
      · exact calm.vetted s f _

theorem applyRules (kind : f.kind = s.content.kind) (v : Value) (errors : List Issue) :
    Conform.Calm (Node.applyRules h f s.core.rules v errors) := by
  have settings := calm.coreIn s.core s.content f.site.path f.prefs
  have rules := settings.rules
  rw [← kind] at rules
  exact ((Bounds.free_frames f).applyRules Bounds.free_lawful rules trivial trivial
    (Bounds.free_issues errors)).calm

theorem failover (v : Value) (errors : List Issue) : Conform.Calm (Node.failover h s.core f v errors) := by
  have settings := calm.coreIn s.core s.content f.site.path f.prefs
  have frames : (Bounds.free Eq True True).Frames f f := Bounds.free_frames f
  have alike := frames.failover Bounds.free_lawful settings.failover settings.error
    ⟨trivial, Bounds.free_issues errors⟩ (v := v)
  exact alike.calm

theorem fill (v : Value) (errors : List Issue) : Conform.Calm (Node.fill h s.core f v errors) := by
  have settings := calm.coreIn s.core s.content f.site.path f.prefs
  have frames : (Bounds.free Eq True True).Frames f f := Bounds.free_frames f
  have alike := frames.fill Bounds.free_lawful settings.default ⟨trivial, Bounds.free_issues errors⟩ (v := v)
  exact alike.calm

end Hooks.Calm

namespace Node

/-- The hooks that a node queues. -/
def own (n : Node) (f : Frame) : List Pending :=
  if f.prefs.externals then
    n.core.externals.map fun fn => ⟨fn, f.site.path, nodeLabel f.label f.site.path f.prefs.errorLabel⟩
  else []

theorem exec_queue (n : Node) (f : Frame) (r : Run) :
    ((queue n.core f).exec r).2.journal.externals = r.journal.externals ++ n.own f := by
  have queued : ∀ (fns : List Fn) (label : String) (j : Journal Pending Report),
      (fns.foldl (fun j fn => j.queue ⟨fn, f.site.path, label⟩) j).externals =
        j.externals ++ fns.map fun fn => ⟨fn, f.site.path, label⟩ := by
    intro fns label
    induction fns with
    | nil => simp
    | cons fn fns ih =>
        intro j
        rw [List.foldl_cons, ih]
        simp [Journal.queue]
  unfold queue own
  split
  · exact queued _ _ _
  · simp

theorem deliver_calm (core : Core) (f : Frame) (v : Value) (errors : List Issue) :
    Calm (deliver core f v errors) := by
  intro r
  unfold deliver
  cases core.result with
  | none => rfl
  | some mode => rfl

/-- Besides what its body queues a node queues its own hooks. -/
theorem settled_ran (calm : h.Calm) {s : Schema} {f : Frame} {r r' : Run} {result : Result}
    (ran : (settled h (s.toNode h) f).exec r = (.ok result, r')) :
    ∃ state r₂, (body h (s.toNode h) f).exec r = (.ok state, r₂) ∧
      r'.journal.externals = r₂.journal.externals ++ (s.toNode h).own f := by
  obtain ⟨⟨u, errors⟩, r₂, bodyRan, ran⟩ := Eval.bind_ok ran
  obtain ⟨⟨v, es⟩, r₃, failRan, ran⟩ := Eval.bind_ok ran
  obtain ⟨⟨w, fs⟩, r₄, fillRan, ran⟩ := Eval.bind_ok ran
  obtain ⟨x, r₅, castRan, ran⟩ := Eval.bind_ok ran
  obtain ⟨_, r₆, queueRan, delivered⟩ := Eval.bind_ok ran
  refine ⟨(u, errors), r₂, bodyRan, ?_⟩
  have third := calm.failover s f u errors r₂
  have fourth := calm.fill s f v es r₃
  have fifth := Calm.lift (cast s.core f w) r₄
  have sixth := exec_queue (s.toNode h) f r₅
  have last := deliver_calm s.core f x fs r₆
  change (failover h s.core f u errors).exec r₂ = _ at failRan
  change (fill h s.core f v es).exec r₃ = _ at fillRan
  change (liftM (cast s.core f w) : Eval Value).exec r₄ = _ at castRan
  change (deliver s.core f x fs).exec r₆ = _ at delivered
  rw [failRan] at third
  rw [fillRan] at fourth
  rw [castRan] at fifth
  rw [queueRan] at sixth
  rw [delivered] at last
  simp only at third fourth fifth sixth last
  rw [last, sixth, fifth, fourth, third]

/-- A body finishes early, or runs the base check on what its approach lets through. -/
theorem body_ran (calm : h.Calm) {s : Schema} {f : Frame} (kind : f.kind = s.content.kind) {r r₂ : Run}
    {state : Value × List Issue} (ran : (body h (s.toNode h) f).exec r = (.ok state, r₂)) :
    (∃ v es, (approach h (s.toNode h) f).exec r = (.ok (.finished v es), r₂)) ∧
      r₂.journal.externals = r.journal.externals ∨
    ∃ w es r₀ o r₁, (approach h (s.toNode h) f).exec r = (.ok (.goOn w es), r₀) ∧
      ((s.toNode h).base { f with current := w } w).exec r₀ = (.ok o, r₁) ∧
      r₀.journal.externals = r.journal.externals ∧ r₂.journal.externals = r₁.journal.externals := by
  rw [body_eq] at ran
  obtain ⟨verdict, r₀, approached, ran⟩ := Eval.bind_ok ran
  have before := calm.approach s f r
  rw [approached] at before
  cases verdict with
  | finished w es =>
      obtain rfl : r₀ = r₂ := congrArg Prod.snd ran
      exact .inl ⟨⟨w, es, approached⟩, before⟩
  | goOn w es =>
      obtain ⟨o, r₁, based, ran⟩ := Eval.bind_ok ran
      refine .inr ⟨w, es, r₀, o, r₁, approached, based, before, ?_⟩
      rcases o with _ | ⟨u, _ | ⟨i, is⟩⟩
      · have rules := calm.applyRules s f kind w es r₁
        change (applyRules h f s.core.rules w es).exec r₁ = _ at ran
        rwa [ran] at rules
      · have rules := calm.applyRules s f kind u es r₁
        change (applyRules h f s.core.rules u es).exec r₁ = _ at ran
        rwa [ran] at rules
      · obtain rfl : r₁ = r₂ := congrArg Prod.snd ran
        rfl

end Node

end Conform
