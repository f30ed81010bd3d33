import Conform.Proofs.Schema.Keeping
import Conform.Proofs.Validation.Alternatives

/-!
# Schemas on two sides

If every place that an evaluation comes to keeps within bounds, the schema evaluates alike on both sides,
with its caches or without them on the right.
-/

namespace Conform

/-- The effects admitted at a place, where a test may write anything. -/
def Effects.at (tests : Bool) (ε : Effects) : Effects := if tests then .all else ε

namespace Schema

def toNode (h : Hooks) (s : Schema) : Node where
  core := s.core
  content := s.content
  cacheable := s.isCacheable
  empty := evalOption h s.empty?
  base := evalContent h s.core s.content

theorem eval_eq (h : Hooks) (s : Schema) : s.eval h = (s.toNode h).evaluate h := by
  cases s
  rw [eval]
  rfl

/-- A node without a cache does what it does where its cache holds nothing. -/
theorem eval_bare {h : Hooks} {s : Schema} {p q : Preferences} (bare : s.core.cache = none) (merged : s.merged p = .ok q)
    (v : Value) (site : Site) : s.eval h v site p = (s.toNode h).settled h ((s.toNode h).frame v site q) := by
  rw [eval_eq, Node.evaluate_eq]
  have mergedHere : (s.toNode h).merged p = .ok q := merged
  rw [mergedHere, Eval.lift_ok_bind]
  exact Node.through_idle _ _ _ (.inl bare)

end Schema

/-- The base check of a type without child schemas. -/
def Content.leaf (f : Frame) (v : Value) : Content → Except Fault (Option Outcome)
  | .boolean _ _ => .ok (baseBoolean f v)
  | .number => baseNumber f v
  | .string => .ok (baseString f v)
  | .probe => .ok (baseProbe f v)
  | _ => .ok none

namespace Bounds

variable (B : Bounds) (ε : Effects) (h : Hooks)

/-- The content of a node that keeps within bounds, and what its base check lets through. -/
def ContentIn (fit : Value → Prop) : Content → Prop
  | .array _ => ∀ v, Items.isList v → fit v
  | .object keys => (∀ v, Keys.isDict v → fit v) ∧ ∀ ks, keys = some ks → ∀ e ∈ ks, B.key e.1 ∧ B.value e.1
  | .alternatives es _ mode =>
    (∀ v, fit v) ∧ Alternatives.Consolidates B ∧
    (∀ subject bs fromSwitch, .conditional (some subject) bs fromSwitch ∈ es → B.ResolvesIn h subject) ∧
    (mode.isSome → (∀ e ∈ es, ∃ s, e = .attempt s) ∨ B.fault (.noMethod "schema"))
  | content => ∀ f v, B.prefs f.prefs → B.value v → B.Meets (B.BaseIn fit v) (content.leaf f v)

/-- Whether the caches at a place keep evaluations alike, where the node does so without them. -/
def CacheIn (keep : Bool) (s : Schema) (path : Path) (q : Preferences) : Prop :=
  ∀ f f', B.Frames f f' → f.kind = s.content.kind → f.label = s.core.label → f.site.path = path →
    f.prefs.plain = q.plain → f.current = f.given →
    Alike B ε B.ResultIn ((s.toNode h).settled h f) (((s.keeping keep).toNode h).settled h f') →
    Alike B ε B.ResultIn ((s.toNode h).through f ((s.toNode h).settled h f))
      (((s.keeping keep).toNode h).through f' (((s.keeping keep).toNode h).settled h f'))

/-- A place that keeps within bounds. -/
structure PlaceIn (keep : Bool) (place : Place) : Prop where
  merges : B.MergeIn (place.schema.toNode h)
  settings : ∀ q, place.schema.merged place.prefs = .ok q → ∃ fit,
    B.CoreIn (.at place.tests ε) h fit place.schema.core place.schema.content place.path q ∧
    B.ContentIn h fit place.schema.content
  cache : ∀ q, place.schema.merged place.prefs = .ok q →
    B.CacheIn (.at place.tests ε) h keep place.schema place.path q

/-- Parts of a schema that evaluate alike. -/
def PartsAlike (keep tests : Bool) (s : Schema) (path : Path) (q : Preferences) : Prop :=
  ∀ role t, s.Part role t →
    B.EvaluatorsAt (.at (tests || role.tests) ε) (path ++ role.segments) (role.prefs q.plain) (t.eval h)
      ((t.keeping keep).eval h)

end Bounds

variable {B : Bounds} {ε : Effects} {h : Hooks} {f f' : Frame} {keep tests : Bool} {core : Core}
  {empty : Option Schema}

theorem Bounds.CoreIn.congr {fit : Value → Prop} {content : Content} {path : Path} {p q : Preferences}
    (settings : B.CoreIn ε h fit core content path p) (similar : q.plain = p.plain) :
    B.CoreIn ε h fit core content path q := by
  have externals : q.externals = p.externals :=
    (congrArg Preferences.externals similar : q.plain.externals = p.plain.externals)
  have style : q.errorLabel = p.errorLabel :=
    (congrArg Preferences.errorLabel similar : q.plain.errorLabel = p.plain.errorLabel)
  refine { settings with hooks := ?_ }
  rw [externals, style]
  exact settings.hooks

namespace Bounds.PartsAlike

theorem base_array {items : List Schema}
    (parts : B.PartsAlike ε h keep tests (.node core empty (.array items)) f.site.path f.prefs) :
    Items.In B (.at tests ε) f.site.path f.prefs.plain (Schema.evalEach h items)
      (Schema.evalEach h (Schema.keepingEach keep items)) := by
  apply Schema.evalEach_forall₂ keep
  intro s member i
  simpa [Role.tests, Role.segments, Role.prefs] using parts (.item i) s (.item i member)

theorem base_object {keys : Option (List (Value × Schema))}
    (parts : B.PartsAlike ε h keep tests (.node core empty (.object keys)) f.site.path f.prefs)
    (named : ∀ ks, keys = some ks → ∀ e ∈ ks, B.key e.1 ∧ B.value e.1) :
    Keys.In B (.at tests ε) f.site.path f.prefs.plain (Schema.evalKeys h keys)
      (Schema.evalKeys h (Schema.keepingKeys keep keys)) := by
  cases keys with
  | none => exact trivial
  | some ks =>
      apply Schema.evalKeyList_forall₂ keep
      intro k s member
      refine ⟨rfl, rfl, ?_, (named ks rfl _ member).1, (named ks rfl _ member).2⟩
      simpa [Role.tests, Role.segments, Role.prefs] using parts (.key k) s (.key member)

theorem option_at {path : Path} {p : Preferences} {o : Option Schema}
    (alike : ∀ s, o = some s → B.EvaluatorsAt ε path p (s.eval h) ((s.keeping keep).eval h)) :
    Alternatives.OptionAt B ε path p (Schema.evalOption h o)
      (Schema.evalOption h (Schema.keepingOption keep o)) := by
  cases o with
  | none => exact trivial
  | some s => exact alike s rfl

theorem base_alternatives {es : List Alternative} {chain : ChainState} {mode : Option MatchMode}
    (parts : B.PartsAlike ε h keep tests (.node core empty (.alternatives es chain mode)) f.site.path f.prefs)
    (resolves : ∀ subject bs fromSwitch, .conditional (some subject) bs fromSwitch ∈ es →
      B.ResolvesIn h subject) :
    List.Forall₂ (Alternatives.EntryIn B (.at tests ε) h f.site.path f.prefs.plain)
      (Schema.evalAlternatives h es) (Schema.evalAlternatives h (Schema.keepingAlternatives keep es)) := by
  apply Schema.evalAlternatives_forall₂ keep
  · intro s member
    exact .attempt (by simpa [Role.tests, Role.segments, Role.prefs] using parts .entry s (.attempt member))
  · intro subject bs fromSwitch member
    refine .conditional (fun r same => resolves r bs fromSwitch (same ▸ member)) ?_
    apply Schema.evalBranches_forall₂ keep
    intro test yes no branch
    refine ⟨?_, option_at fun s same => ?_, option_at fun s same => ?_⟩
    · simpa [Role.tests, Role.segments, Role.prefs, Effects.at] using parts .test test (.test member branch)
    · subst same
      simpa [Role.tests, Role.segments, Role.prefs] using parts .entry s (.onMatch member branch)
    · subst same
      simpa [Role.tests, Role.segments, Role.prefs] using parts .entry s (.onMiss member branch)

theorem attempts {es : List Alternative} (each : ∀ e ∈ es, ∃ s, e = .attempt s) :
    ∀ e ∈ Schema.evalAlternatives h es, Alternatives.isAttempt e := by
  induction es with
  | nil => exact nofun
  | cons e es ih =>
      obtain ⟨s, rfl⟩ := each e (by simp)
      intro d member
      rcases List.mem_cons.mp member with rfl | rest
      · exact trivial
      · exact ih (fun a below => each a (by simp [below])) d rest

theorem base (frames : B.Frames f f') (laws : B.Lawful) {fit : Value → Prop} {content : Content}
    (parts : B.PartsAlike ε h keep tests (.node core empty content) f.site.path f.prefs)
    (bounded : B.ContentIn h fit content) {v : Value} (value : B.value v) :
    Alike B (.at tests ε) (B.BaseIn fit v) (Schema.evalContent h core content f v)
      (Schema.evalContent h (core.keeping keep) (Schema.keepingContent keep content) f' v) := by
  have leaf : ∀ c : Content, content = c → B.Meets (B.BaseIn fit v) (c.leaf f v) →
      c.leaf f' v = c.leaf f v →
      Alike B (.at tests ε) (B.BaseIn fit v) (liftM (c.leaf f v)) (liftM (c.leaf f' v)) := by
    intro c _ met same
    rw [same]
    exact Alike.lift met
  have unknown : (core.keeping keep).unknown = core.unknown := by cases keep <;> rfl
  cases content with
  | array items =>
      exact (Items.base_alike frames laws parts.base_array value).mono fun o => BaseIn.mono bounded
  | object keys =>
      rw [Schema.evalContent, Schema.keepingContent, Schema.evalContent, unknown]
      exact (Keys.base_alike frames laws core.unknown (parts.base_object bounded.2) value).mono
        fun o => BaseIn.mono bounded.1
  | alternatives es chain mode =>
      obtain ⟨anything, consolidates, resolves, counted⟩ := bounded
      exact (Alternatives.base_alike frames laws consolidates mode (parts.base_alternatives resolves)
        (fun counts => (counted counts).imp_left attempts) value).mono
          fun o => BaseIn.mono fun v _ => anything v
  | any => exact leaf .any rfl (bounded f v frames.prefs.left value) rfl
  | boolean truthy falsy =>
      refine leaf (.boolean truthy falsy) rfl (bounded f v frames.prefs.left value) ?_
      simp only [Content.leaf, baseBoolean, frames.fail_eq]
  | number =>
      refine leaf .number rfl (bounded f v frames.prefs.left value) ?_
      simp only [Content.leaf, baseNumber, frames.fail_eq]
  | string =>
      refine leaf .string rfl (bounded f v frames.prefs.left value) ?_
      simp only [Content.leaf, baseString, frames.fail_eq]
  | probe =>
      refine leaf .probe rfl (bounded f v frames.prefs.left value) ?_
      simp only [Content.leaf, baseProbe, frames.fail_eq]

theorem emptyIn (frames : B.Frames f f') (laws : B.Lawful) {content : Content} {q : Preferences}
    (parts : B.PartsAlike ε h keep tests (.node core empty content) f.site.path q) :
    B.EmptyIn f.site f'.site (Schema.evalOption h empty)
      (Schema.evalOption h (Schema.keepingOption keep empty)) := by
  cases empty with
  | none => exact trivial
  | some e =>
      intro v value
      have alike := parts .empty e .empty
      simp only [Role.tests, Bool.or_true, Effects.at, if_true] at alike
      exact alike v _ _ _ _ value frames.site ((Bounds.Prefs.standard laws).matching laws)
        (by simp [Role.segments]) rfl

end Bounds.PartsAlike

namespace Schema

theorem presence_keeping (n : Node) (f : Frame) :
    Node.presence { n with content := keepingContent keep n.content } f = n.presence f := by
  obtain ⟨core, content, cacheable, empty, base⟩ := n
  unfold Node.presence
  cases core.presence with
  | some p => rfl
  | none =>
      cases content with
      | alternatives es chain mode => cases chain <;> rfl
      | _ => rfl

/-- What a node does where its cache holds nothing depends on what is below it through its evaluators
alone. -/
theorem settled_keeping (core : Core) (empty : Option Schema) (content : Content) (f : Frame) :
    Node.settled h (((Schema.node core empty content).keeping keep).toNode h) f =
      Node.settled h { (Schema.node core empty content).toNode h with
        empty := evalOption h (keepingOption keep empty)
        base := evalContent h (core.keeping keep) (keepingContent keep content) } f := by
  have shape := Node.settled_content (h := h)
    { (Schema.node core empty content).toNode h with
      empty := evalOption h (keepingOption keep empty)
      base := evalContent h (core.keeping keep) (keepingContent keep content) } f
    (keepingContent keep content) (by cases content <;> rfl) (presence_keeping _ f)
  rw [← shape]
  cases keep <;> rfl

/-- The parts of a node carry the node. -/
theorem settled_step (laws : B.Lawful) {s : Schema} {path : Path} {p q : Preferences}
    (here : B.PlaceIn ε h keep ⟨tests, s, path, p⟩) (merged : s.merged p = .ok q)
    (parts : B.PartsAlike ε h keep tests s path q) (frames : B.Frames f f') (kind : f.kind = s.content.kind)
    (label : f.label = s.core.label) (atPath : f.site.path = path) (similar : f.prefs.plain = q.plain) :
    Alike B (.at tests ε) B.ResultIn ((s.toNode h).settled h f) (((s.keeping keep).toNode h).settled h f') := by
  obtain ⟨core, empty, content⟩ := s
  obtain ⟨fit, settings, bounded⟩ := here.settings q merged
  have settingsHere := settings.congr similar
  rw [← atPath] at settingsHere parts
  have partsHere : B.PartsAlike ε h keep tests (.node core empty content) f.site.path f.prefs := by
    intro role t part
    rw [similar]
    exact parts role t part
  have nodes : B.NodesIn (.at tests ε) h fit ((Schema.node core empty content).toNode h)
      { (Schema.node core empty content).toNode h with
        empty := evalOption h (keepingOption keep empty)
        base := evalContent h (core.keeping keep) (keepingContent keep content) } f f' := by
    refine ⟨rfl, rfl, frames, kind, label, settingsHere, partsHere.emptyIn frames laws, ?_⟩
    intro w isIn
    exact Bounds.PartsAlike.base (frames.withCurrent w) laws partsHere bounded isIn
  rw [settled_keeping]
  exact nodes.settled laws

variable (keep) in
/-- A schema evaluates alike on both sides if every place below it keeps within bounds. -/
theorem eval_alike (laws : B.Lawful) (s : Schema) (tests : Bool) (path : Path) (p : Preferences)
    (places : Place.Everywhere (B.PlaceIn ε h keep) ⟨tests, s, path, p⟩) :
    B.EvaluatorsAt (.at tests ε) path p (s.eval h) ((s.keeping keep).eval h) := by
  induction s using parts_induction generalizing tests path p with
  | step s ih =>
  have here := places.here
  have core : (s.keeping keep).core.prefs = s.core.prefs := by
    cases s
    cases keep <;> rfl
  have label : (s.keeping keep).core.label = s.core.label := by
    cases s
    cases keep <;> rfl
  have kind : (s.keeping keep).content.kind = s.content.kind := by
    obtain ⟨core, empty, content⟩ := s
    cases content <;> rfl
  rw [eval_eq, eval_eq]
  apply Bounds.evaluators _ _ path p here.merges core label kind
  intro v site site' q q' merged value sites prefs atPath isMerged similar frames
  have parts : B.PartsAlike ε h keep tests s path merged := fun role t part =>
    ih role t part _ _ _ (places.below (.part part isMerged))
  have settled := settled_step laws here isMerged parts frames rfl rfl atPath similar
  exact here.cache merged isMerged _ _ frames rfl rfl atPath similar rfl settled

variable (keep) in
/-- What a schema does where its own cache holds nothing is alike on both sides. -/
theorem settled_alike (laws : B.Lawful) {s : Schema} {path : Path} {p q : Preferences}
    (places : Place.Everywhere (B.PlaceIn ε h keep) ⟨tests, s, path, p⟩) (merged : s.merged p = .ok q)
    (frames : B.Frames f f') (kind : f.kind = s.content.kind) (label : f.label = s.core.label)
    (atPath : f.site.path = path) (similar : f.prefs.plain = q.plain) :
    Alike B (.at tests ε) B.ResultIn ((s.toNode h).settled h f) (((s.keeping keep).toNode h).settled h f') := by
  have parts : B.PartsAlike ε h keep tests s path q := fun role t part =>
    eval_alike keep laws t _ _ _ (places.below (.part part merged))
  exact settled_step laws places.here merged parts frames kind label atPath similar

end Schema

end Conform
