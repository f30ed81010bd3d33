import Conform.Proofs.Overrides
import Conform.Proofs.Schema.Free
import Conform.Proofs.Validation.Entry
import Conform.Proofs.Validation.Scalars
import Conform.Proofs.Datum.Every
import Conform.Proofs.Number.Regular

/-!
# Schemas with and without their caches

A table that serves one node, at one path and under one set of preferences, holds nothing but what that
node answers. If the node looks at its value alone and writes nothing, its answers may be kept.
-/

namespace Conform

/-- Results for the datum are kept under the key. -/
def CacheKey.Covers (j : CacheKey) (v : Value) : Prop :=
  ∃ k, CacheKey.ofDatum? v = some k ∧ (j = k ∨ j.same k)

namespace Memo

/-- Data that containers of them belong to, and that their keys tell apart. -/
structure Told (D : Value → Prop) : Prop where
  undefined : D .undefined
  list : ∀ xs, D (.list xs) ↔ ∀ x ∈ xs, D x
  tuple : ∀ xs, D (.tuple xs) ↔ ∀ x ∈ xs, D x
  dict : ∀ es, D (.dict es) ↔ ∀ e ∈ es, D e.1 ∧ D e.2
  apart : ∀ (j : CacheKey) v w, D v → D w → j.Covers v → j.Covers w → v = w

/-- The node that a table serves, with its path and the preferences that it checks with, without their
context. -/
structure Served where
  schema : Schema
  path : Path
  prefs : Preferences

namespace Served

structure Asked (n : Served) (f : Frame) : Prop where
  kind : f.kind = n.schema.content.kind
  label : f.label = n.schema.core.label
  path : f.site.path = n.path
  prefs : f.prefs.plain = n.prefs
  current : f.current = f.given

/-- What the node does without caches. -/
def settled (h : Hooks) (n : Served) (f : Frame) : Eval Result := (n.schema.uncached.toNode h).settled h f

/-- The node gives the result for the value, wherever and whenever it is asked. -/
def Answers (h : Hooks) (n : Served) (v : Value) (result : Result) : Prop :=
  ∀ f r, n.Asked f → f.given = v → ((n.settled h f).exec r).1 = .ok result

end Served

/-- Places that look at their value alone and write nothing. -/
def Closed (h : Hooks) : Place → Prop := Bounds.FreeIn (fun _ _ => True) False False .quiet h

variable {h : Hooks} {D : Value → Prop}

theorem closed_uncached {start : Place} (closed : Place.Everywhere (Closed h) start) :
    Place.Everywhere ((Bounds.free (fun _ _ => True) False False).PlaceIn .quiet h true)
      (start.keeping false) := by
  refine closed.keeping.imp ?_
  rintro _ ⟨⟨tests, ⟨core, empty, content⟩, path, p⟩, rfl, free⟩
  obtain ⟨reads, subjects, calls, writes⟩ := free
  have freeHere : Bounds.FreeIn (fun _ _ => True) False False .quiet h
      (Place.keeping false ⟨tests, .node core empty content, path, p⟩) := by
    refine ⟨⟨reads.refs, reads.static⟩, ?_, ⟨calls.custom, calls.fallback, calls.error⟩, fun q merged => ?_⟩
    · intro r member
      apply subjects r
      cases content with
      | alternatives es chain mode =>
          have below : r ∈ Alternative.subjects (Schema.keepingAlternatives false es) := member
          rwa [Schema.subjects_keeping] at below
      | _ => exact member
    · have written := writes q ((Schema.merged_keeping (.node core empty content) p).symm.trans merged)
      exact ⟨written.hooks, written.captures, written.warnings⟩
  refine freeHere.placeIn fun q merged f f' _ _ _ _ _ _ alike => ?_
  rw [Schema.keeping_true] at alike ⊢
  change Alike _ _ _ (pure none >>= _) (pure none >>= _)
  rw [pure_bind, pure_bind]
  exact alike.bind fun result bounded => Alike.pure bounded

/-- A closed node gives one result for one value, and leaves the journal as it is. -/
theorem settled_closed {n : Served} {p q : Preferences} (merged : n.schema.merged p = .ok q)
    (served : n.prefs = q.plain) (closed : Place.Everywhere (Closed h) ⟨false, n.schema, n.path, p⟩)
    {f f' : Frame} (asked : n.Asked f) (asked' : n.Asked f') (given : f'.given = f.given) (r r' : Run) :
    ((n.settled h f).exec r).1 = ((n.settled h f').exec r').1 ∧
      ((n.settled h f).exec r).2.journal = r.journal := by
  have prefs : f'.prefs.plain = f.prefs.plain := asked'.prefs.trans asked.prefs.symm
  have frames : (Bounds.free (fun _ _ => True) False False).Frames f f' := by
    refine ⟨asked'.kind.trans asked.kind.symm, asked'.label.trans asked.label.symm, ?_, ?_, given, ?_, trivial⟩
    · exact ⟨asked'.path.trans asked.path.symm, nofun, Bounds.free_site _⟩
    · refine ⟨⟨f'.prefs.context, ?_⟩, nofun, trivial⟩
      exact congrArg (fun plain : Preferences => { plain with context := f'.prefs.context }) prefs
    · rw [asked'.current, asked.current, given]
  have label : n.schema.uncached.core.label = n.schema.core.label := by
    obtain ⟨⟨core, empty, content⟩, path, prefs⟩ := n
    rfl
  have kind : n.schema.uncached.content.kind = n.schema.content.kind := by
    obtain ⟨⟨core, empty, content⟩, path, prefs⟩ := n
    cases content <;> rfl
  have alike := Schema.settled_alike true Bounds.free_lawful (closed_uncached closed)
    ((Schema.merged_keeping n.schema p).trans merged) frames (asked.kind.trans kind.symm)
    (asked.label.trans label.symm) asked.path (asked.prefs.trans served)
  rw [Schema.keeping_true] at alike
  have linked : (Bounds.free (fun _ _ => True) False False).Linked r r' :=
    ⟨trivial, nofun, nofun, fun s _ => ShadowTree.holds_all (fun _ => trivial) s.tree⟩
  obtain ⟨outcome, -, -, w, admitted, left, -⟩ := alike r r' linked
  rw [Effects.quiet_admits w admitted, Writes.onto_empty] at left
  exact ⟨outcome, left⟩

variable (h D) (serving : Nat → Option Served)

/-- What the table `t` may hold under a key: the answer of the node that it serves. -/
structure Right (t : Nat) (j : CacheKey) (result : Result) : Prop where
  value : D result.value
  answer : ∀ n, serving t = some n → n.schema.isCacheable ∧ ∃ v, D v ∧ j.Covers v ∧ n.Answers h v result

/-- The left side has tables with right answers, the right side has none. -/
def bounds : Bounds where
  value := D
  key _ := True
  issue _ := True
  fault _ := True
  prefs p := ∀ es, p.context = some es → D (.dict es)
  tables ts _ := Run.Kept (Right h D serving) ts
  samePlace := True
  sameCopies := False

/-- A place whose data stay told apart and whose cache, if it is asked, serves the node there alone. A
node whose answers are kept is closed. -/
structure Steady (place : Place) : Prop where
  merges : (bounds h D serving).MergeIn (place.schema.toNode h)
  settings : ∀ q, place.schema.merged place.prefs = .ok q → ∃ fit,
    (bounds h D serving).CoreIn .all h fit place.schema.core place.schema.content place.path q ∧
    (bounds h D serving).ContentIn h fit place.schema.content
  unfit : ∀ q, place.schema.merged place.prefs = .ok q → place.schema.core.cache = some .unfit → !q.cache
  served : ∀ q, place.schema.merged place.prefs = .ok q → q.cache → ∀ slot t,
    place.schema.core.cache = some (.cache slot) → slot.table = some t →
    serving t = some ⟨place.schema, place.path, q.plain⟩ ∧
    (place.schema.isCacheable → Place.Everywhere (Closed h) ⟨false, place.schema, place.path, place.prefs⟩)

variable {h D serving}

theorem Told.lawful (told : Told D) : (bounds h D serving).Lawful where
  undefined := told.undefined
  list := told.list
  tuple := told.tuple
  dict := told.dict
  index _ := trivial
  standard := nofun
  matching _ inner := inner
  context _ inner es some := inner es some
  reported _ _ _ _ _ _ _ _ := trivial

theorem covers_key {v : Value} {j k : CacheKey} (key : CacheKey.ofDatum? v = some k)
    (entry : j = k ∨ j.same k) : j.Covers v := ⟨k, key, entry⟩

variable {n : Served} {f : Frame} {t : Nat} {slot : CacheSlot} {r r' : Run}

/-- A cache that finds something hands out what the node answers. -/
theorem hit (told : Told D) {p q : Preferences} (merged : n.schema.merged p = .ok q)
    (prefs : n.prefs = q.plain) (serves : serving t = some n)
    (closed : n.schema.isCacheable → Place.Everywhere (Closed h) ⟨false, n.schema, n.path, p⟩)
    (asked : n.Asked f) (value : D f.given) (linked : (bounds h D serving).Linked r r') {result : Result}
    (found : ((r.cacheOf slot t).get f.given).1 = some result) :
    Agree (bounds h D serving) .all (bounds h D serving).ResultIn r r'
      (.ok result, r.putCache t ((r.cacheOf slot t).get f.given).2) ((n.settled h f).exec r') := by
  obtain ⟨held, left⟩ := (linked.tables.cacheOf slot t).get f.given
  obtain ⟨j, k, key, same, right⟩ := held result found
  obtain ⟨cacheable, v, valueOf, covers, answers⟩ := right.answer n serves
  have given : f.given = v := told.apart j f.given v value valueOf (covers_key key (.inr same)) covers
  have outcome := answers f r' asked given
  obtain ⟨-, journal⟩ := settled_closed merged prefs (closed cacheable) asked asked rfl r' r'
  have bounded : (bounds h D serving).ResultIn result := ⟨right.value, fun _ _ => trivial⟩
  refine ⟨outcome.symm, bounded, ⟨linked.tables.putCache left, nofun, ?_, ?_⟩, {}, Effects.all.admits_empty,
    by simp, by simp [journal]⟩
  · rw [journal]
    exact linked.shadow
  · exact linked.captured

/-- What a node answers may be kept. -/
theorem right_of_answer {p q : Preferences} (merged : n.schema.merged p = .ok q)
    (prefs : n.prefs = q.plain) (serves : serving t = some n) (cacheable : n.schema.isCacheable)
    (closed : Place.Everywhere (Closed h) ⟨false, n.schema, n.path, p⟩) (asked : n.Asked f)
    (value : D f.given) {result : Result} (answer : ((n.settled h f).exec r').1 = .ok result)
    (bounded : D result.value) {j k : CacheKey} (key : CacheKey.ofDatum? f.given = some k)
    (entry : j = k ∨ j.same k) : Right h D serving t j result := by
  refine ⟨bounded, fun m servesM => ?_⟩
  obtain rfl := Option.some.inj (serves.symm.trans servesM)
  refine ⟨cacheable, f.given, value, covers_key key entry, fun f' s asked' given => ?_⟩
  obtain ⟨same, -⟩ := settled_closed merged prefs closed asked' asked given.symm s r'
  exact same.trans answer

/-- The table of a node around what the node does is what it does. -/
theorem through_table (told : Told D) {p q : Preferences} (merged : n.schema.merged p = .ok q)
    (prefs : n.prefs = q.plain) (serves : serving t = some n)
    (closed : n.schema.isCacheable → Place.Everywhere (Closed h) ⟨false, n.schema, n.path, p⟩)
    (asked : n.Asked f) (value : D f.given) (asks : f.prefs.cache) (store : n.schema.core.cache = some (.cache slot))
    (table : slot.table = some t) {x : Eval Result}
    (alike : Alike (bounds h D serving) .all (bounds h D serving).ResultIn x (n.settled h f)) :
    Alike (bounds h D serving) .all (bounds h D serving).ResultIn ((n.schema.toNode h).through f x)
      (n.settled h f) := by
  have storeHere : (n.schema.toNode h).core.cache = some (.cache slot) := store
  have cacheable : (n.schema.toNode h).cacheable = n.schema.isCacheable := rfl
  intro r r' linked
  unfold Node.through Node.consult
  simp only [storeHere, asks, if_true]
  rw [Eval.exec_bind, Eval.exec_cached?, table]
  simp only [Eval.andThen_ok]
  cases found : ((r.cacheOf slot t).get f.given).1 with
  | some result =>
      have agree := hit told merged prefs serves closed asked value linked found
      simpa using agree
  | none =>
      obtain ⟨-, left⟩ := (linked.tables.cacheOf slot t).get f.given
      have linkedAsked : (bounds h D serving).Linked (r.putCache t ((r.cacheOf slot t).get f.given).2) r' :=
        ⟨linked.tables.putCache left, nofun, linked.shadow, linked.captured⟩
      obtain ⟨outcome, met, linkedAfter, w, admitted, leftJournal, rightJournal⟩ := alike _ _ linkedAsked
      simp only
      rw [Eval.exec_bind]
      rcases ran : x.exec (r.putCache t ((r.cacheOf slot t).get f.given).2) with ⟨o, s⟩
      rw [ran] at outcome met linkedAfter leftJournal
      simp only at outcome met linkedAfter leftJournal
      cases o with
      | error fault => exact ⟨outcome, met, linkedAfter, w, admitted, leftJournal, rightJournal⟩
      | ok result =>
          rw [Eval.andThen_ok, Eval.exec_bind]
          unfold Node.retain
          rw [storeHere, cacheable]
          simp only [asks, Bool.true_and]
          by_cases keeps : n.schema.isCacheable
          · simp only [keeps, if_true]
            rw [Eval.exec_keep, table]
            simp only [Eval.andThen_ok, Eval.exec_pure]
            have holds := (linkedAfter.tables.cacheOf slot t).set f.given fun j k key entry =>
              right_of_answer merged prefs serves keeps (closed keeps) asked value outcome.symm met.value key entry
            exact ⟨outcome, met, ⟨linkedAfter.tables.putCache holds, nofun, linkedAfter.shadow,
              linkedAfter.captured⟩, w, admitted, leftJournal, rightJournal⟩
          · simp only [keeps]
            exact ⟨outcome, met, linkedAfter, w, admitted, leftJournal, rightJournal⟩

theorem Steady.cacheIn (told : Told D) {place : Place} (steady : Steady h D serving place)
    {q : Preferences} (merged : place.schema.merged place.prefs = .ok q) :
    (bounds h D serving).CacheIn .all h false place.schema place.path q := by
  intro f f' frames kind label atPath similar current alike
  obtain rfl := frames.eq trivial
  have asks : f'.prefs.cache = q.cache :=
    (congrArg Preferences.cache similar : f'.prefs.plain.cache = q.plain.cache)
  have bare : ((place.schema.keeping false).toNode h).core.cache = none := by
    cases place.schema
    rfl
  rw [Node.through_idle _ f' _ (.inl bare)]
  cases store : place.schema.core.cache with
  | none => rwa [Node.through_idle _ f' _ (.inl store)]
  | some kept =>
      by_cases unasked : q.cache = false
      · rwa [Node.through_idle _ f' _ (.inr (.inl (asks.trans unasked)))]
      · have asksHere : q.cache = true := by simpa using unasked
        cases kept with
        | unfit => simpa [asksHere] using steady.unfit q merged store
        | cache slot =>
            cases table : slot.table with
            | none => rwa [Node.through_idle _ f' _ (.inr (.inr ⟨slot, store, table⟩))]
            | some t =>
                obtain ⟨serves, closed⟩ := steady.served q merged asksHere slot t store table
                exact through_table told merged rfl serves closed ⟨kind, label, atPath, similar, current⟩
                  frames.value (asks.trans asksHere) store table alike

theorem Steady.placeIn (told : Told D) {place : Place} (steady : Steady h D serving place) :
    (bounds h D serving).PlaceIn .all h false place := by
  have all : Effects.at place.tests .all = .all := by
    unfold Effects.at
    split <;> rfl
  refine ⟨steady.merges, ?_, fun q merged => ?_⟩
  · rw [all]
    exact steady.settings
  · rw [all]
    exact steady.cacheIn told merged

/-! ## Histories of calls -/

structure Call where
  value : Value
  options : Dict

/-- The answers of a schema to calls one after the other, from a run that keeps its tables. -/
def answers (h : Hooks) (s : Schema) : List Call → Run → List (Except Fault Answer)
  | [], _ => []
  | c :: cs, r =>
    let (answer, after) := (Validation.validate h s c.value c.options).exec r
    answer :: answers h s cs after

/-- A call whose data are told apart and under whose preferences every place is steady. -/
structure Call.Steady (h : Hooks) (D : Value → Prop) (serving : Nat → Option Served) (s : Schema)
    (c : Call) : Prop where
  value : D c.value
  context : ∀ p es, ({} : Preferences).merge c.options = .ok p → p.context = some es → D (.dict es)
  places : ∀ p, ({} : Preferences).merge c.options = .ok p →
    Place.Everywhere (Memo.Steady h D serving) ⟨false, s, [], p.plain⟩

/-- Without its caches the schema answers the call alike, and the tables stay right. -/
theorem Call.Steady.agree (told : Told D) {s : Schema} {c : Call} (steady : c.Steady h D serving s)
    (r r' : Run) (kept : Run.Kept (Right h D serving) r.caches) :
    ((Validation.validate h s c.value c.options).exec r).1 =
        ((Validation.validate h s.uncached c.value c.options).exec r').1 ∧
      Run.Kept (Right h D serving) ((Validation.validate h s c.value c.options).exec r).2.caches := by
  rw [Validation.exec_validate, Validation.exec_validate]
  cases chosen : Validation.chosen c.options with
  | error f => exact ⟨rfl, kept⟩
  | ok p =>
      have merged : ({} : Preferences).merge c.options = .ok p := Validation.merge_of_chosen chosen
      have alike := Schema.eval_alike false told.lawful s false [] p.plain
        ((steady.places p merged).imp fun place at_ => at_.placeIn told)
      have site : (bounds h D serving).Sites {} {} := ⟨rfl, fun _ => rfl, ⟨nofun, nofun⟩⟩
      have prefs : (bounds h D serving).Prefs p p :=
        ⟨⟨p.context, rfl⟩, fun _ => rfl, fun es some => steady.context p es merged some⟩
      have linked : (bounds h D serving).Linked (Validation.fresh r) (Validation.fresh r') :=
        ⟨kept, nofun, fun _ => rfl, nofun⟩
      obtain ⟨outcome, -, linkedAfter, w, -, left, right⟩ :=
        alike c.value {} {} p p steady.value site prefs rfl rfl _ _ linked
      have uncached : s.keeping false = s.uncached := rfl
      rw [uncached] at outcome right
      simp only
      rcases ran : (s.eval h c.value {} p).exec (Validation.fresh r) with ⟨o, after⟩
      rcases ran' : (s.uncached.eval h c.value {} p).exec (Validation.fresh r') with ⟨o', after'⟩
      rw [ran] at outcome linkedAfter left
      rw [ran'] at outcome right
      have journals : after'.journal = after.journal := right.trans left.symm
      obtain rfl : o = o' := outcome
      cases o with
      | error f => exact ⟨rfl, linkedAfter.tables⟩
      | ok result =>
          have same : Validation.conclude c.value result after.journal =
              Validation.conclude c.value result after'.journal := by rw [journals]
          exact ⟨same, linkedAfter.tables⟩

def accepted : Except Fault Answer → Bool
  | .ok a => a.failure.isNone
  | .error _ => false

end Memo

end Conform
