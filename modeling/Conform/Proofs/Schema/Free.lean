import Conform.Proofs.Schema.Alike
import Conform.Proofs.Validation.RuleTests

/-!
# Schemas without bounds on data

Where nothing is asked of the data, a node keeps within bounds as soon as its functions do, what it may
write is admitted, and what it reads besides its value is the same on both sides.
-/

namespace Conform

/-- Functions that do nothing. -/
def Hooks.idle : Hooks where
  adjust _ v := .ok v
  custom _ _ v := pure v
  signature _ := {}
  fallback _ _ _ := pure .null
  override _ _ := pure .null
  external _ v := pure (some v)

namespace Bounds

def free (tables : Tables → Tables → Prop) (samePlace sameCopies : Prop) : Bounds where
  value _ := True
  key _ := True
  issue _ := True
  fault _ := True
  prefs _ := True
  tables := tables
  samePlace := samePlace
  sameCopies := sameCopies

variable {tables : Tables → Tables → Prop} {place copies : Prop}

theorem free_meets {α : Type} {Q : α → Prop} {o : Except Fault α} (all : ∀ a, Q a) :
    (free tables place copies).Meets Q o := by
  cases o with
  | ok a => exact all a
  | error f => exact trivial

theorem free_issues (is : List Issue) : (free tables place copies).Issues is := fun _ _ => trivial

theorem free_result (r : Result) : (free tables place copies).ResultIn r := ⟨trivial, free_issues _⟩

theorem free_site (s : Site) : (free tables place copies).SiteIn s :=
  ⟨fun _ _ => trivial, fun _ _ => trivial⟩

theorem free_sites (s : Site) : (free tables place copies).Sites s s := ⟨rfl, fun _ => rfl, free_site s⟩

theorem free_prefs (p : Preferences) : (free tables place copies).Prefs p p :=
  ⟨⟨p.context, rfl⟩, fun _ => rfl, trivial⟩

theorem free_frames (f : Frame) : (free tables place copies).Frames f f :=
  ⟨rfl, rfl, free_sites f.site, free_prefs f.prefs, rfl, rfl, trivial⟩

theorem free_linked (tables : Tables → Tables → Prop) (place copies : Prop) (r r' : Run)
    (same : tables r.caches r'.caches) (counts : r.copies = r'.copies)
    (shadows : place → r.journal.shadow = r'.journal.shadow) :
    (free tables place copies).Linked r r' :=
  ⟨same, fun _ => counts, shadows, fun s _ => ShadowTree.holds_all (fun _ => trivial) s.tree⟩

theorem free_lawful : (free tables place copies).Lawful where
  undefined := trivial
  list _ := ⟨fun _ _ _ => trivial, fun _ => trivial⟩
  tuple _ := ⟨fun _ _ _ => trivial, fun _ => trivial⟩
  dict _ := ⟨fun _ _ _ => ⟨trivial, trivial⟩, fun _ => trivial⟩
  index _ := trivial
  standard := trivial
  matching _ _ := trivial
  context _ _ _ _ := trivial
  reported _ _ _ _ _ _ _ _ := trivial

end Bounds

/-- The references whose data choose among alternatives. -/
def Content.subjects : Content → List Reference
  | .alternatives es _ _ => Alternative.subjects es
  | _ => []

/-- What a node reads besides its value is the same on both sides. -/
structure Core.ReadsIn (place copies : Prop) (core : Core) : Prop where
  refs : ∀ r ∈ core.refs, place
  static : ∀ v, core.default = some (.static v) ∨ core.failover = some (.static v) →
    v.isMutableContainer → ∀ m n, (copies → m = n) → v.copy m = v.copy n

/-- The functions of a node run alike. A rule with references may be given any function. -/
structure Core.CallsIn (B : Bounds) (ε : Effects) (h : Hooks) (core : Core) : Prop where
  custom : ∀ e ∈ core.rules, e.name = .custom → ∀ fn, (e.refs = [] → Rule.method? e.args = some fn) →
    ∀ f f' v, B.Frames f f' → Alike B ε (fun _ => True) (h.custom fn { f with current := v } v)
      (h.custom fn { f' with current := v } v)
  fallback : ∀ fn, core.default = some (.call fn) ∨ core.failover = some (.call fn) →
    (0 < (h.signature fn).arity → B.samePlace ∧ B.sameCopies) ∧
    ∀ parent prefs, Alike B ε (fun _ => True) (h.fallback fn parent prefs) (h.fallback fn parent prefs)
  error : ∀ fn, core.error = some (.call fn) → ∀ errors,
    Alike B ε (fun _ => True) (h.override fn errors) (h.override fn errors)

/-- What a node may write at a path under preferences is admitted. -/
structure Core.WritesIn (ε : Effects) (core : Core) (path : Path) (q : Preferences) : Prop where
  hooks : q.externals → ∀ fn ∈ core.externals, ε.hook ⟨fn, path, nodeLabel core.label path q.errorLabel⟩
  captures : core.result.isSome → ε.captures
  warnings : ∀ e ∈ core.rules, e.warn.truthy ∨ e.name = .warning → ∀ r, ε.warning r

theorem Core.WritesIn.all (core : Core) (path : Path) (q : Preferences) : core.WritesIn .all path q :=
  ⟨fun _ _ _ => trivial, fun _ => trivial, fun _ _ _ _ => trivial⟩

namespace Bounds

variable {tables : Tables → Tables → Prop} {place copies : Prop} {ε : Effects} {h : Hooks} {core : Core}
  {content : Content} {path : Path} {q : Preferences}

theorem free_set (s : ValueSet) (reads : ∀ r ∈ s.refs, place) : (free tables place copies).SetIn h s :=
  ⟨fun _ _ => trivial, fun r member => ⟨reads r member, fun _ _ _ _ _ _ _ _ => free_meets fun _ => trivial⟩⟩

theorem free_fallback {s : Option Fallback} (refs : ∀ r, s = some (.ref r) → place)
    (static : ∀ v, s = some (.static v) → v.isMutableContainer → ∀ m n, (copies → m = n) → v.copy m = v.copy n)
    (call : ∀ fn, s = some (.call fn) → (0 < (h.signature fn).arity → place ∧ copies) ∧
      ∀ parent prefs, Alike (free tables place copies) ε (fun _ => True) (h.fallback fn parent prefs)
        (h.fallback fn parent prefs)) : (free tables place copies).FallbackIn ε h s := by
  rcases s with _ | v | r | fn | _
  · exact trivial
  · exact ⟨trivial, fun mutable => ⟨fun _ => free_meets fun _ => trivial, static v rfl mutable⟩⟩
  · exact ⟨refs r rfl, fun _ _ _ _ _ _ _ _ => free_meets fun _ => trivial⟩
  · obtain ⟨parent, alike⟩ := call fn rfl
    refine ⟨fun takes => ⟨(parent takes).1, fun v _ => ?_⟩, alike⟩
    exact ⟨fun _ => free_meets fun _ => trivial, fun m n same => by rw [same (parent takes).2]⟩
  · exact trivial

theorem free_rule {e : RuleEntry} (member : e ∈ core.rules) (reads : core.ReadsIn place copies)
    (calls : core.CallsIn (free tables place copies) ε h) (writes : core.WritesIn ε path q) :
    (free tables place copies).RuleIn ε h (fun _ => True) content.kind e
      (fun refs args => e.refs = [] → refs = [] ∧ Rule.method? args = Rule.method? e.args) where
  refs a below := by
    refine ⟨reads.refs a.2 ?_, fun _ _ _ _ _ _ _ _ => free_meets fun _ => trivial⟩
    simp only [Core.refs, List.mem_append, List.mem_flatMap, List.mem_map]
    exact .inl (.inl (.inl (.inl ⟨e, member, a, below, rfl⟩)))
  checked _ _ _ _ := free_meets fun _ => trivial
  given none := ⟨none, rfl⟩
  resolved _ _ _ _ _ ready _ none := nomatch (ready none).1
  message _ _ := trivial
  warns warn r _ := writes.warnings e member (.inl warn) _
  test f f' v args frames _ _ _ ready := by
    have replied : ∀ r : Reply, (free tables place copies).ReplyIn (fun _ => True) r := by
      intro r
      cases r with
      | value => exact ⟨trivial, trivial⟩
      | reports => exact fun _ _ => trivial
    have inner := frames.withCurrent v
    by_cases custom : e.name = .custom
    · rw [custom, Rule.test_custom, Rule.test_custom]
      cases method : Rule.method? args with
      | none => exact Alike.throw trivial
      | some fn =>
          have alike := calls.custom e member custom fn (fun none => (ready none).2 ▸ method) f f' v frames
          simp only [Rule.call, inner.fail_eq]
          exact Alike.tryCatch (alike.map fun _ _ => replied _) fun _ _ => Alike.pure (replied _)
    · by_cases warning : e.name = .warning
      · rw [warning, Rule.test_warning, Rule.test_warning, Rule.warningOf_eq inner]
        exact (Alike.warn (writes.warnings e member (.inr warning) _)).bind fun _ _ =>
          Alike.pure (replied _)
      · rw [Rule.test_verdict custom warning, Rule.test_verdict custom warning, Rule.verdict_eq inner]
        exact Alike.lift (free_meets fun _ => replied _)

theorem free_coreIn (reads : core.ReadsIn place copies)
    (calls : core.CallsIn (free tables place copies) ε h) (writes : core.WritesIn ε path q) :
    (free tables place copies).CoreIn ε h (fun _ => True) core content path q where
  convert := ⟨fun _ _ _ _ _ _ => ⟨trivial, free_issues _⟩, fun _ _ _ _ _ _ => ⟨trivial, free_issues _⟩⟩
  trimmed _ _ := trivial
  allowed s same := free_set s fun r member => reads.refs r (by simp [Core.refs, Core.setRefs, same, member])
  denied s same := free_set s fun r member => reads.refs r (by simp [Core.refs, Core.setRefs, same, member])
  rules e member := ⟨_, free_rule member reads calls writes⟩
  default := free_fallback (fun r same => reads.refs r (by simp [Core.refs, Fallback.refs, same]))
    (fun v same => reads.static v (.inl same)) fun fn same => calls.fallback fn (.inl same)
  failover := free_fallback (fun r same => reads.refs r (by simp [Core.refs, Fallback.refs, same]))
    (fun v same => reads.static v (.inr same)) fun fn same => calls.fallback fn (.inr same)
  error := by
    rcases error : core.error with _ | e | fn
    · exact trivial
    · exact trivial
    · exact fun errors _ => (calls.error fn error errors).mono fun _ _ => free_issues _
  cast _ _ _ _ _ := free_meets fun _ => trivial
  hooks := writes.hooks
  captures := writes.captures

theorem free_contentIn (reads : ∀ r ∈ content.subjects, place) :
    (free tables place copies).ContentIn h (fun _ => True) content := by
  have leaf : ∀ (f : Frame) (v : Value),
      (free tables place copies).Meets ((free tables place copies).BaseIn (fun _ => True) v)
        (content.leaf f v) := by
    intro f v
    apply free_meets
    rintro (_ | ⟨w, _ | ⟨e, es⟩⟩)
    · exact trivial
    · exact ⟨trivial, trivial⟩
    · exact ⟨trivial, free_issues _⟩
  cases content with
  | array items => exact fun _ _ => trivial
  | object keys => exact ⟨fun _ _ => trivial, fun _ _ _ _ => ⟨trivial, trivial⟩⟩
  | alternatives es chain mode =>
      refine ⟨fun _ => trivial, fun _ _ _ _ => free_meets fun _ => free_issues _, ?_, fun _ => .inr trivial⟩
      intro subject bs fromSwitch member
      refine ⟨reads subject ?_, fun _ _ _ _ _ _ _ _ => free_meets fun _ => trivial⟩
      exact List.mem_filterMap.mpr ⟨_, member, rfl⟩
  | any => exact fun f v _ _ => leaf f v
  | boolean truthy falsy => exact fun f v _ _ => leaf f v
  | number => exact fun f v _ _ => leaf f v
  | string => exact fun f v _ _ => leaf f v
  | probe => exact fun f v _ _ => leaf f v

/-- A place in a schema without bounds on data: what is read there besides the value is the same on both
sides, functions run alike, and what is written is admitted. -/
structure FreeIn (tables : Tables → Tables → Prop) (place copies : Prop) (ε : Effects) (h : Hooks)
    (p : Place) : Prop where
  reads : p.schema.core.ReadsIn place copies
  subjects : ∀ r ∈ p.schema.content.subjects, place
  calls : p.schema.core.CallsIn (free tables place copies) (.at p.tests ε) h
  writes : ∀ q, p.schema.merged p.prefs = .ok q → p.schema.core.WritesIn (.at p.tests ε) p.path q

theorem FreeIn.placeIn {p : Place} {keep : Bool} (free : FreeIn tables place copies ε h p)
    (cache : ∀ q, p.schema.merged p.prefs = .ok q →
      (Bounds.free tables place copies).CacheIn (.at p.tests ε) h keep p.schema p.path q) :
    (Bounds.free tables place copies).PlaceIn ε h keep p where
  merges := ⟨fun _ _ _ _ => trivial, fun _ _ _ _ => trivial⟩
  settings q merged := ⟨_, free_coreIn free.reads free.calls (free.writes q merged), free_contentIn free.subjects⟩
  cache := cache

/-- A cache whose table both sides share makes no difference. -/
theorem free_cache {s : Schema} (tests : Bool) (shares : ∀ slot t, s.core.cache = some (.cache slot) →
    slot.table = some t → (free tables place copies).Shares t) :
    (free tables place copies).CacheIn (.at tests ε) h true s path q := by
  intro f f' frames _ _ _ _ _ alike
  rw [Schema.keeping_true] at alike ⊢
  exact Alike.through shares frames rfl rfl (fun _ _ => trivial) alike

theorem free_same : (free Eq place copies).tables = (free Eq place copies).SameTables := by
  funext ts ts'
  exact propext ⟨fun same => ⟨same, fun _ _ _ _ _ _ => free_result _⟩, fun same => same.1⟩

/-- A schema runs alike from any two runs with the same tables, if every place below it may. -/
theorem free_alike {s : Schema} {tests : Bool} {p : Preferences}
    (all : Place.Everywhere (FreeIn Eq place copies ε h) ⟨tests, s, path, p⟩) :
    (free Eq place copies).EvaluatorsAt (.at tests ε) path p (s.eval h) (s.eval h) := by
  have alike := Schema.eval_alike true free_lawful s tests path p (B := free Eq place copies)
    (all.imp fun at_ bounded => bounded.placeIn fun q merged =>
      free_cache at_.tests fun _ t _ _ => shares_same free_same t)
  rwa [Schema.keeping_true] at alike

end Bounds

/-- The functions of a schema add to the journal at most, and do not look at the hooks and warnings in
it. -/
structure Hooks.Framed (h : Hooks) : Prop where
  custom : ∀ fn f v, Alike (.free Eq True True) .all (fun _ => True) (h.custom fn f v) (h.custom fn f v)
  fallback : ∀ fn parent prefs,
    Alike (.free Eq True True) .all (fun _ => True) (h.fallback fn parent prefs) (h.fallback fn parent prefs)
  override : ∀ fn errors,
    Alike (.free Eq True True) .all (fun _ => True) (h.override fn errors) (h.override fn errors)

/-- Functions that run alike under the same tables, or tables that only a part tells apart, keep every place
within bounds. -/
theorem Bounds.free_everywhere {tables : Tables → Tables → Prop} {h : Hooks}
    (custom : ∀ fn f v, Alike (.free tables True True) .all (fun _ => True) (h.custom fn f v) (h.custom fn f v))
    (fallback : ∀ fn parent prefs, Alike (.free tables True True) .all (fun _ => True)
      (h.fallback fn parent prefs) (h.fallback fn parent prefs))
    (override : ∀ fn errors, Alike (.free tables True True) .all (fun _ => True) (h.override fn errors)
      (h.override fn errors)) (start : Place) :
    Place.Everywhere (Bounds.FreeIn tables True True .all h) start := by
  intro p _
  have all : Effects.at p.tests .all = .all := by
    unfold Effects.at
    split <;> rfl
  refine ⟨⟨fun _ _ => trivial, fun v _ _ m n same => by rw [same trivial]⟩, fun _ _ => trivial, ?_, fun _ _ => ?_⟩
  · rw [all]
    refine ⟨fun e _ _ fn _ f f' v frames => ?_, fun fn _ => ⟨fun _ => ⟨trivial, trivial⟩, fallback fn⟩,
      fun fn _ => override fn⟩
    rw [frames.eq trivial]
    exact custom fn _ v
  · rw [all]
    exact .all _ _ _

theorem Hooks.Framed.everywhere {h : Hooks} (framed : h.Framed) (start : Place) :
    Place.Everywhere (Bounds.FreeIn Eq True True .all h) start :=
  Bounds.free_everywhere framed.custom framed.fallback framed.override start

end Conform
