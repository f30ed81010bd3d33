import Conform.Proofs.Strict.Nodes
import Conform.Proofs.ValueSets.Histories

/-!
# The last word on a text

A text node that does not tell upper from lower case enters texts as they are spelled: a text that is denied leaves the
allowed values in this spelling alone. As the allowed values are asked first, an older allowance in another spelling
outlives the denial.
-/

namespace Conform

open Datum ValueSet

/-! ## Calls -/

/-- A call that allows texts, restricts a node to texts, or denies them. -/
inductive Saying where
  | allow (texts : List String)
  | valid (texts : List String)
  | deny (texts : List String)

namespace Saying

def call : Saying → Call
  | allow texts => { name := "allow", args := texts.map .str }
  | valid texts => { name := "valid", args := texts.map .str }
  | deny texts => { name := "invalid", args := texts.map .str }

/-- What the call makes of the allowed values. -/
def events : Saying → List Event
  | allow texts | valid texts => texts.map fun t => .entered (.str t)
  | deny texts => texts.map fun t => .dropped (.str t)

/-- A text node that does not tell upper from lower case, made by a chain of calls. -/
def told (said : List Saying) : Except Fault Schema :=
  Script.run ({ name := "string" } :: { name := "insensitive" } :: said.map call)

/-- Whether the last call about a text, in this spelling, has allowed it. -/
def allowedLast (said : List Saying) (t : String) : Bool := standing (said.flatMap events) (.str t)

end Saying

/-! ## What the calls leave -/

/-- The same about the opposite set. -/
def ValueSet.Event.flip : Event → Event
  | .entered v => .dropped v
  | .dropped v => .entered v

theorem flip_flip : ValueSet.Event.flip ∘ ValueSet.Event.flip = id := by
  funext e
  cases e <;> rfl

/-- A text node with allowed and denied values that does not tell upper from lower case. -/
def Schema.caseless (only : Bool) (allowed denied : Option ValueSet) : Schema :=
  .node { insensitive := true, only, allowed, denied } none .string

/-- Two sets that hold what a history and the opposite one leave. -/
structure Heard (events : List Event) (own other : Option ValueSet) : Prop where
  own : orEmpty own = ofValues (replay events)
  other : orEmpty other = ofValues (replay (events.map Event.flip))

namespace Heard

variable {events : List Event} {own other : Option ValueSet}

theorem symm (heard : Heard events own other) : Heard (events.map Event.flip) other own := by
  refine ⟨heard.other, ?_⟩
  rw [List.map_map, flip_flip, List.map_id]
  exact heard.own

theorem enter (heard : Heard events own other) (v : Value) :
    Heard (events ++ [.entered v]) (Core.enter (.literal v) own other).1 (Core.enter (.literal v) own other).2 := by
  constructor
  · show (orEmpty own).add (.literal v) = _
    rw [heard.own, add_ofValues, replay_snoc]
  · have removed : orEmpty (other.map (ValueSet.remove (.literal v))) = (orEmpty other).remove (.literal v) := by
      cases other <;> rfl
    show orEmpty (other.map (ValueSet.remove (.literal v))) = _
    rw [removed, heard.other, remove_ofValues, List.map_append, List.map_singleton, Event.flip, replay_snoc]

end Heard

/-- Two sets with texts entered into the first one, each taken out of the second. -/
def enterTexts (texts : List String) (own other : Option ValueSet) : Option ValueSet × Option ValueSet :=
  texts.foldl (fun sets t => Core.enter (.literal (.str t)) sets.1 sets.2) (own, other)

theorem enterAll_texts (texts : List String) (own other : Option ValueSet) (only : Bool) :
    Core.enterAll (texts.map .str) own other only =
      .ok ((enterTexts texts own other).1, (enterTexts texts own other).2, only) := by
  have each : ∀ sets : Option ValueSet × Option ValueSet, (texts.map Datum.str).foldlM (fun sets t => do
      require (!Term.isOverride t) "Override must be the first value"
      return Core.enter (Term.member t) sets.1 sets.2) sets = Except.ok (enterTexts texts sets.1 sets.2) := by
    induction texts with
    | nil => exact fun _ => rfl
    | cons t ts ih => exact fun sets => ih _
  have unmarked : (((texts.map Datum.str).head?.map Term.isOverride).getD false) = false := by
    cases texts <;> rfl
  unfold Core.enterAll
  simp only [unmarked, Bool.false_eq_true, if_false]
  rw [each]
  simp [bind, Except.bind, pure, Except.pure]

theorem Heard.enterTexts {events : List Event} {own other : Option ValueSet} (heard : Heard events own other)
    (texts : List String) : Heard (events ++ texts.map fun t => .entered (.str t))
      (Conform.enterTexts texts own other).1 (Conform.enterTexts texts own other).2 := by
  induction texts generalizing events own other with
  | nil => rwa [List.map_nil, List.append_nil]
  | cons t ts ih =>
      rw [List.map_cons, List.append_cons]
      exact ih (heard.enter (.str t))

theorem Heard.leaveTexts {events : List Event} {own other : Option ValueSet} (heard : Heard events own other)
    (texts : List String) : Heard (events ++ texts.map fun t => .dropped (.str t))
      (Conform.enterTexts texts other own).2 (Conform.enterTexts texts other own).1 := by
  have dropped : (events.map Event.flip ++ texts.map fun t => Event.entered (.str t)).map Event.flip =
      events ++ texts.map fun t => Event.dropped (.str t) := by
    rw [List.map_append, List.map_map, List.map_map, flip_flip, List.map_id]
    rfl
  exact dropped ▸ (heard.symm.enterTexts texts).symm

namespace Schema

variable {only : Bool} {allowed denied : Option ValueSet}

theorem caseless_allow (texts : List String) :
    Script.apply (caseless only allowed denied) (Saying.allow texts).call =
      .ok (caseless only (enterTexts texts allowed denied).1 (enterTexts texts allowed denied).2) := by
  show (caseless only allowed denied).allow (texts.map .str) = _
  unfold allow change?
  show (do return node (← Core.allow (texts.map .str) { insensitive := true, only, allowed, denied }) none .string) = _
  unfold Core.allow
  rw [enterAll_texts]
  rfl

theorem caseless_deny (texts : List String) :
    Script.apply (caseless only allowed denied) (Saying.deny texts).call =
      .ok (caseless only (enterTexts texts denied allowed).2 (enterTexts texts denied allowed).1) := by
  show (do return node (← Core.deny (texts.map .str) { insensitive := true, only, allowed, denied }) none .string) = _
  unfold Core.deny
  rw [enterAll_texts]
  rfl

theorem caseless_valid {texts : List String} {s : Schema}
    (runs : Script.apply (caseless only allowed denied) (Saying.valid texts).call = .ok s) :
    s = caseless true (enterTexts texts allowed denied).1 (enterTexts texts allowed denied).2 := by
  change (caseless only allowed denied).valid (texts.map .str) = .ok s at runs
  unfold valid at runs
  obtain ⟨_, -, runs⟩ := bind_eq_ok.mp runs
  obtain ⟨t, allows, runs⟩ := bind_eq_ok.mp runs
  obtain rfl := Except.ok.inj (allows.symm.trans (caseless_allow texts))
  exact (Except.ok.inj runs).symm

/-- A text node that does not tell upper from lower case, with the sets that a history leaves. -/
def Follows (events : List Event) (s : Schema) : Prop :=
  ∃ only allowed denied, s = caseless only allowed denied ∧ Heard events allowed denied

theorem Follows.call {events : List Event} {s t : Schema} (follows : s.Follows events) (c : Saying)
    (runs : Script.apply s c.call = .ok t) : t.Follows (events ++ c.events) := by
  obtain ⟨only, allowed, denied, rfl, heard⟩ := follows
  cases c with
  | allow texts =>
      obtain rfl := Except.ok.inj (runs.symm.trans (caseless_allow texts))
      exact ⟨_, _, _, rfl, heard.enterTexts texts⟩
  | valid texts =>
      obtain rfl := caseless_valid runs
      exact ⟨_, _, _, rfl, heard.enterTexts texts⟩
  | deny texts =>
      obtain rfl := Except.ok.inj (runs.symm.trans (caseless_deny texts))
      exact ⟨_, _, _, rfl, heard.leaveTexts texts⟩

/-- However such a node is made, its sets follow the calls. -/
theorem told_follows {said : List Saying} {n : Schema} (told : Saying.told said = .ok n) :
    n.Follows (said.flatMap Saying.events) := by
  have run : ∀ (said : List Saying) (s : Schema) (before : List Event), s.Follows before →
      (said.map Saying.call).foldlM Script.apply s = .ok n → n.Follows (before ++ said.flatMap Saying.events) := by
    intro said
    induction said with
    | nil =>
        intro s before follows runs
        obtain rfl := Except.ok.inj runs
        rwa [List.flatMap_nil, List.append_nil]
    | cons c said ih =>
        intro s before follows runs
        obtain ⟨t, applied, runs⟩ := bind_eq_ok.mp runs
        rw [List.flatMap_cons, ← List.append_assoc]
        exact ih t _ (follows.call c applied) runs
  exact run said (caseless false none none) [] ⟨false, none, none, rfl, rfl, rfl⟩ told

end Schema

/-! ## Look-ups without case -/

theorem sameEntry_text {x : Value} {v : String} (nonempty : v ≠ "") :
    sameEntry true x (.str v) ↔ ∃ u, x = .str u ∧ Text.fold u = Text.fold v := by
  cases x with
  | str u => simp [sameEntry, nonempty]
  | _ => simp [sameEntry, deepEqual, isUndefined, isNull]

/-- Some spelling of a text stands in a history. -/
def StandsSpelled (events : List Event) (v : String) : Prop :=
  ∃ u, standing events (.str u) ∧ Text.fold u = Text.fold v

/-- Without case a set has a text exactly if some spelling of it stands in the history of the set. -/
theorem hasLiteral_replay {h : List Event} (sound : Sound h) {v : String} (nonempty : v ≠ "") :
    (ofValues (replay h)).hasLiteral true (.str v) ↔ StandsSpelled h v := by
  have listed : ∀ u : String, .str u ∈ replay h ↔ standing h (.str u) := by
    intro u
    rw [← holds_replay sound rfl, holds_iff]
    constructor
    · exact fun member => ⟨_, member, by simp [deepEqual]⟩
    · rintro ⟨x, member, equal⟩
      cases x <;> simp [deepEqual, isUndefined, isNull] at equal
      exact equal ▸ member
  rw [hasLiteral_iff, literalValues_ofValues]
  constructor
  · rintro ⟨x, member, same⟩
    obtain ⟨u, rfl, folded⟩ := (sameEntry_text nonempty).mp same
    exact ⟨u, (listed u).mp member, folded⟩
  · rintro ⟨u, stands, folded⟩
    exact ⟨.str u, (listed u).mpr stands, (sameEntry_text nonempty).mpr ⟨u, rfl, folded⟩⟩

namespace Schema

/-- Whatever the run, a schema gives a result on a value, without errors exactly under a condition. -/
def Judges (h : Hooks) (s : Schema) (v : Value) (site : Site) (p : Preferences) (accepts : Prop) : Prop :=
  ∀ r, ∃ a, ((s.eval h v site p).exec r).1 = .ok a ∧ (a.errors = [] ↔ accepts)

end Schema

namespace Node

variable {h : Hooks} {n : Node} {f : Frame} {v : Value}

/-- The checks of a value that base check and rules let through: it passes if it is allowed, or if neither only allowed
values pass nor this one is denied. -/
theorem check_lists (refs : n.core.refs = []) (passes : ∀ es, checkBase h n f v es = pure (v, es)) :
    ∃ w es, check h n f v = pure (w, es) ∧ (es = [] ↔ (orEmpty n.core.allowed).hasLiteral n.core.insensitive v ∨
      (n.core.only && n.core.allowed.isSome) = false ∧
        (orEmpty n.core.denied).hasLiteral n.core.insensitive v = false) := by
  have absent : (orEmpty none).hasLiteral n.core.insensitive v = false := rfl
  have asked : ∀ es, ∃ es', proceed h n f v es = pure (v, es') ∧
      (es' = [] ↔ es = [] ∧ (orEmpty n.core.denied).hasLiteral n.core.insensitive v = false) := by
    intro es
    rw [proceed, checkDenied_eq refs]
    cases n.core.denied with
    | none => exact ⟨es, passes es, by simp [absent]⟩
    | some t =>
        simp only [orEmpty, Option.getD_some, hasLiteral, pure_bind]
        cases t.findLiteral? n.core.insensitive v with
        | none => exact ⟨es, passes es, by simp⟩
        | some u =>
            cases f.prefs.abortEarly with
            | true => exact ⟨_, rfl, by simp⟩
            | false => exact ⟨_, passes _, by simp⟩
  rw [check_proceed, checkAllowed_eq refs]
  cases n.core.allowed with
  | none =>
      obtain ⟨es, checked, clean⟩ := asked []
      exact ⟨v, es, checked, clean.trans (by simp [absent])⟩
  | some s =>
      simp only [orEmpty, Option.getD_some, hasLiteral, pure_bind]
      cases s.findLiteral? n.core.insensitive v with
      | some u => exact ⟨_, [], rfl, by simp⟩
      | none =>
          cases n.core.only with
          | false =>
              obtain ⟨es, checked, clean⟩ := asked []
              exact ⟨v, es, checked, clean.trans (by simp [orEmpty, hasLiteral])⟩
          | true =>
              cases f.prefs.abortEarly with
              | true => exact ⟨_, _, rfl, by simp⟩
              | false =>
                  let missed := f.report "any.only" v [(.str "valids", .list (s.values true))]
                  obtain ⟨es, checked, clean⟩ := asked [.report missed]
                  exact ⟨v, es, checked, clean.trans (by simp)⟩

end Node

namespace Schema

variable {only : Bool} {allowed denied : Option ValueSet} {h : Hooks} {site : Site} {p : Preferences}

theorem caseless_refs (unreferenced : (orEmpty allowed).refs = [] ∧ (orEmpty denied).refs = []) :
    (caseless only allowed denied).core.refs = [] := by
  have own : Core.setRefs allowed = [] := by
    cases allowed with
    | none => rfl
    | some s => exact unreferenced.1
  have other : Core.setRefs denied = [] := by
    cases denied with
    | none => rfl
    | some s => exact unreferenced.2
  show [] ++ Core.setRefs allowed ++ Core.setRefs denied ++ [] ++ [] = []
  rw [own, other]
  rfl

/-- Such a node checks of a text only whether its sets have it. -/
theorem caseless_passes {v : String} (nonempty : v ≠ "") (f : Frame) (es : List Issue) :
    Node.checkBase h ((caseless only allowed denied).toNode h) f (.str v) es = pure (.str v, es) := by
  have based : ((caseless only allowed denied).toNode h).base { f with current := .str v } (.str v) = pure none := by
    show (pure (baseString { f with current := .str v } (.str v)) : Eval (Option Outcome)) = _
    rw [baseString_text nonempty]
  unfold Node.checkBase
  rw [based]
  rfl

theorem caseless_judges (unreferenced : (orEmpty allowed).refs = [] ∧ (orEmpty denied).refs = []) {v : String}
    (nonempty : v ≠ "") : (caseless only allowed denied).Judges h (.str v) site p (p.presence ≠ .forbidden ∧
      ((orEmpty allowed).hasLiteral true (.str v) ∨
        (only && allowed.isSome) = false ∧ (orEmpty denied).hasLiteral true (.str v) = false)) := by
  let n := (caseless only allowed denied).toNode h
  let f := n.frame (.str v) site p
  have refs : n.core.refs = [] := caseless_refs unreferenced
  have settings : n.core.Direct := ⟨Core.isPlain.plain rfl, refs, rfl, rfl, rfl, rfl, rfl, rfl⟩
  have converted : n.convert f (.str v) = .goOn (.str v) [] := by
    cases converts : p.convert with
    | false => exact Node.convert_strict _ converts _
    | true => exact Node.convert_coerce rfl rfl converts rfl
  have ran : (caseless only allowed denied).eval h (.str v) site p =
      Node.underPresence h n f p.presence (.str v) >>= fun s => pure ⟨s.1, s.2⟩ := by
    rw [eval_eq]
    exact Node.evaluate_unconverted settings rfl converted rfl
  obtain ⟨w, es, checked, clean⟩ := Node.check_lists refs (caseless_passes nonempty f)
  intro r
  rw [ran]
  have present : (Datum.str v : Value).isUndefined = false := rfl
  unfold Node.underPresence
  rw [present, checked]
  cases p.presence with
  | forbidden => exact ⟨_, rfl, by simp⟩
  | optional | required => exact ⟨⟨w, es⟩, rfl, clean.trans (and_iff_right nofun).symm⟩

end Schema

/-! ## Texts that differ in case alone -/

theorem Saying.events_sound (said : List Saying) : Sound (said.flatMap events) := by
  intro e member
  obtain ⟨c, -, inside⟩ := List.mem_flatMap.mp member
  cases c with
  | allow texts | valid texts | deny texts =>
      obtain ⟨t, -, rfl⟩ := List.mem_map.mp inside
      rfl

theorem ValueSet.Sound.flip {events : List Event} (sound : Sound events) : Sound (events.map Event.flip) := by
  intro e member
  obtain ⟨d, inside, rfl⟩ := List.mem_map.mp member
  have same : d.flip.value = d.value := by cases d <;> rfl
  exact same ▸ sound d inside

theorem Heard.judges {events : List Event} {allowed denied : Option ValueSet} (heard : Heard events allowed denied)
    (sound : Sound events) {v : String} (nonempty : v ≠ "") (only : Bool) (h : Hooks) (site : Site) (p : Preferences) :
    (Schema.caseless only allowed denied).Judges h (.str v) site p (p.presence ≠ .forbidden ∧
      (StandsSpelled events v ∨ (only && allowed.isSome) = false ∧ ¬ StandsSpelled (events.map Event.flip) v)) := by
  intro r
  obtain ⟨a, ran, clean⟩ := Schema.caseless_judges (h := h) (p := p)
    ⟨congrArg refs heard.own, congrArg refs heard.other⟩ nonempty r
  refine ⟨a, ran, clean.trans (and_congr_right fun _ => ?_)⟩
  have own : (orEmpty allowed).hasLiteral true (.str v) ↔ StandsSpelled events v := by
    rw [heard.own]
    exact hasLiteral_replay sound nonempty
  have other : (orEmpty denied).hasLiteral true (.str v) = false ↔ ¬ StandsSpelled (events.map Event.flip) v := by
    rw [heard.other, ← Bool.not_eq_true]
    exact not_congr (hasLiteral_replay sound.flip nonempty)
  rw [own, other]

theorem StandsSpelled.entered {events : List Event} {v w : String} (alike : Text.fold v = Text.fold w) :
    StandsSpelled (events ++ [.entered (.str w)]) v := by
  refine ⟨w, ?_, alike.symm⟩
  rw [standing_snoc]
  simp [Event.value, Event.isEntry, deepEqual]

theorem standsSpelled_dropped {events : List Event} {v w : String} (alike : Text.fold v = Text.fold w) :
    StandsSpelled (events ++ [.dropped (.str w)]) v ↔
      ∃ u, u ≠ w ∧ Text.fold u = Text.fold w ∧ standing events (.str u) := by
  unfold StandsSpelled
  refine exists_congr fun u => ?_
  rw [standing_snoc, alike]
  by_cases same : w = u
  · simp [Event.value, Event.isEntry, deepEqual, same]
  · simp [Event.value, deepEqual, same, Ne.symm same, and_comm]

theorem Schema.Judges.congr {h : Hooks} {s : Schema} {v : Value} {site : Site} {p : Preferences}
    {accepts accepts' : Prop} (judges : s.Judges h v site p accepts) (same : accepts ↔ accepts') :
    s.Judges h v site p accepts' := by
  rwa [← propext same]

/-- A text node that does not tell upper from lower case accepts a text once one was allowed that differs from it in case
alone. Once such a text was denied it accepts the text exactly if another spelling still counts as allowed. -/
theorem last_word_on_text {said : List Saying} {n : Schema} (told : Saying.told said = .ok n) {v w : String}
    (nonempty : w ≠ "") (alike : Text.fold v = Text.fold w) :
    (∃ m, Script.apply n (Saying.deny [w]).call = .ok m ∧ ∀ h site p, m.Judges h (.str v) site p
      (p.presence ≠ .forbidden ∧ ∃ u, u ≠ w ∧ Text.fold u = Text.fold w ∧ Saying.allowedLast said u)) ∧
    ∃ m, Script.apply n (Saying.allow [w]).call = .ok m ∧ ∀ h site p, m.Judges h (.str v) site p
      (p.presence ≠ .forbidden) := by
  have nonempty' : v ≠ "" := by
    rintro rfl
    exact nonempty (Text.fold_eq_empty alike.symm)
  have sound := Saying.events_sound said
  obtain ⟨only, allowed, denied, rfl, heard⟩ := Schema.told_follows told
  refine ⟨⟨_, Schema.caseless_deny [w], fun h site p => ?_⟩, ⟨_, Schema.caseless_allow [w], fun h site p => ?_⟩⟩
  · have sound' := sound.append (List.forall_mem_singleton.mpr rfl : Sound [Event.dropped (.str w)])
    refine ((heard.leaveTexts [w]).judges sound' nonempty' only h site p).congr (and_congr_right fun _ => ?_)
    have denies : StandsSpelled ((said.flatMap Saying.events ++ [Event.dropped (.str w)]).map Event.flip) v := by
      rw [List.map_append]
      exact StandsSpelled.entered alike
    exact (or_iff_left fun clear => clear.2 denies).trans (standsSpelled_dropped alike)
  · have sound' := sound.append (List.forall_mem_singleton.mpr rfl : Sound [Event.entered (.str w)])
    refine ((heard.enterTexts [w]).judges sound' nonempty' only h site p).congr ?_
    exact and_iff_left (.inl (.entered alike))

/-- Denied after it was allowed, and allowed again. -/
theorem last_word_after_denial :
    let said : List Saying := [.allow ["ABC"], .deny ["ABC"]]
    ∃ n, Saying.told said = .ok n ∧ "abc" ≠ "" ∧ Text.fold "Abc" = Text.fold "abc" ∧
      (∃ m a, Script.apply n (Saying.deny ["abc"]).call = .ok m ∧
        ((m.eval .idle (.str "Abc") {} {}).exec {}).1 = .ok a ∧ a.errors ≠ []) ∧
      ∃ m a, Script.apply n (Saying.allow ["abc"]).call = .ok m ∧
        ((m.eval .idle (.str "Abc") {} {}).exec {}).1 = .ok a ∧ a.errors = [] := by
  intro said
  have told : Saying.told said = .ok _ := rfl
  have alike : Text.fold "Abc" = Text.fold "abc" := by decide +kernel
  have none : ∀ u, Saying.allowedLast said u = false := by
    intro u
    by_cases same : "ABC" = u
    · subst same
      rfl
    · simp [said, Saying.allowedLast, Saying.events, standing, Event.value, deepEqual, same]
  obtain ⟨⟨m, denied, rejects⟩, ⟨m', allowed, accepts⟩⟩ := last_word_on_text told (by decide) alike
  obtain ⟨a, ran, clean⟩ := rejects .idle {} {} {}
  obtain ⟨a', ran', clean'⟩ := accepts .idle {} {} {}
  have optional : ({} : Preferences).presence ≠ .forbidden := by decide
  refine ⟨_, told, by decide, alike, ⟨m, a, denied, ran, fun empty => ?_⟩, ⟨m', a', allowed, ran', clean'.mpr optional⟩⟩
  obtain ⟨-, u, -, -, stands⟩ := clean.mp empty
  exact Bool.false_ne_true ((none u).symm.trans stands)

/-- A denied text is accepted, and turned into the other spelling, if that was allowed before. -/
theorem older_spelling_accepted : ∃ n m, Saying.told [.allow ["ABC"]] = .ok n ∧
    Script.apply n (Saying.deny ["abc"]).call = .ok m ∧
    ((m.eval .idle (.str "abc") {} {}).exec {}).1 = .ok ⟨.str "ABC", []⟩ :=
  ⟨_, _, rfl, rfl, rfl⟩

end Conform
