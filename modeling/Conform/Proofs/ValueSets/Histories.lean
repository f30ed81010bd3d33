import Mathlib.Data.List.Pairwise
import Conform.Proofs.ValueSets.Construction

/-!
# Value sets and their histories

A set of literal values holds what was entered into it and not dropped since, each value where it was entered first, and
answers like a set of classes of deeply equal values.
-/

namespace Conform

open Datum

namespace ValueSet

/-! ## Histories -/

/-- A value is entered into a set, or what equals it is dropped. -/
inductive Event where
  | entered (v : Value)
  | dropped (v : Value)

namespace Event

def value : Event → Value
  | entered v => v
  | dropped v => v

def isEntry : Event → Bool
  | entered _ => true
  | dropped _ => false

def drops (v : Value) : Event → Bool
  | entered _ => false
  | dropped w => deepEqual v w

end Event

/-- Whether the last event about what equals a value has entered it. -/
def standing (h : List Event) (v : Value) : Bool :=
  ((h.reverse.find? fun e => deepEqual e.value v).map Event.isEntry).getD false

/-- The entries of another set, entered or dropped one after the other. -/
def entering (s : Option ValueSet) : List Event := (orEmpty s).literalValues.map .entered

def dropping (s : Option ValueSet) : List Event := (orEmpty s).literalValues.map .dropped

/-- Sets that are built from literal values, each with its history. -/
inductive Follows : List Event → ValueSet → Prop
  | ofList {vs : List Value} (sound : ∀ v ∈ vs, v.isSound) : Follows (vs.map .entered) (ofList (vs.map .literal))
  | add {h : List Event} {s : ValueSet} (before : Follows h s) {v : Value} (sound : v.isSound) :
      Follows (h ++ [.entered v]) (s.add (.literal v))
  | remove {h : List Event} {s : ValueSet} (before : Follows h s) {v : Value} (sound : v.isSound) :
      Follows (h ++ [.dropped v]) (s.remove (.literal v))
  | clone {h : List Event} {s : ValueSet} (before : Follows h s) : Follows h s.clone
  | concat {g h : List Event} {s t u : ValueSet} (first : Follows g s) (second : Follows h t)
      (joined : s.concat t = .ok u) : Follows (g ++ entering (some t)) u
  | merge {h : List Event} {s : ValueSet} (before : Follows h s) {added removed : Option ValueSet}
      {past : ValueSet → List Event} (entered : ∀ t ∈ added, Follows (past t) t)
      (dropped : ∀ t ∈ removed, Follows (past t) t) :
      Follows (h ++ entering added ++ dropping removed) (s.merge added removed)

/-! ## What a history leaves -/

def Event.apply (vs : List Value) : Event → List Value
  | entered v => if vs.any fun w => deepEqual w v then vs else vs ++ [v]
  | dropped v => vs.filter fun w => !deepEqual w v

def replay (h : List Event) : List Value := h.foldl Event.apply []

variable {h : List Event} {vs : List Value} {v w y : Value}

theorem replay_snoc (h : List Event) (e : Event) : replay (h ++ [e]) = e.apply (replay h) := by
  rw [replay, List.foldl_append]
  rfl

theorem mem_replay (member : w ∈ replay h) : ∃ e ∈ h, e.value = w := by
  induction h using List.reverseRecOn with
  | nil => cases member
  | append_singleton h e ih =>
      rw [replay_snoc] at member
      have origin : w ∈ replay h ∨ e.value = w := by
        cases e with
        | entered v =>
            rw [Event.apply] at member
            split at member
            · exact .inl member
            · exact (List.mem_append.mp member).imp_right fun last => (List.mem_singleton.mp last).symm
        | dropped v => exact .inl (List.mem_filter.mp member).1
      rcases origin with old | new
      · obtain ⟨d, isIn, same⟩ := ih old
        exact ⟨d, List.mem_append_left _ isIn, same⟩
      · exact ⟨e, List.mem_append_right _ (List.mem_singleton_self e), new⟩

theorem replay_pairwise (h : List Event) : (replay h).Pairwise fun v w => deepEqual v w = false := by
  induction h using List.reverseRecOn with
  | nil => exact List.Pairwise.nil
  | append_singleton h e ih =>
      rw [replay_snoc]
      cases e with
      | entered v =>
          rw [Event.apply]
          split
          · exact ih
          · rename_i fresh
            simp only [List.any_eq_true, not_exists, not_and, Bool.not_eq_true] at fresh
            exact List.pairwise_append.mpr ⟨ih, List.pairwise_singleton _ _, fun w member u last => by
              rw [List.mem_singleton.mp last]
              exact fresh w member⟩
      | dropped v => exact ih.filter _

def holds (vs : List Value) (y : Value) : Bool := vs.any fun v => deepEqual v y

theorem holds_iff : holds vs y ↔ ∃ v ∈ vs, deepEqual v y := List.any_eq_true

theorem holds_entered (sound : v.isSound) : holds (Event.apply vs (.entered v)) y ↔ holds vs y ∨ deepEqual v y := by
  rw [Event.apply]
  split
  · -- The value that is there already answers for the one that is not entered.
    rename_i present
    refine ⟨.inl, fun either => either.elim id fun equal => ?_⟩
    obtain ⟨w, member, same⟩ := holds_iff.mp present
    exact holds_iff.mpr ⟨w, member, deepEqual_trans (isTidy_of_isSound sound) same equal⟩
  · simp [holds]

theorem holds_dropped (sounds : ∀ w ∈ vs, w.isSound) (sound : v.isSound) (sound' : y.isSound) :
    holds (Event.apply vs (.dropped v)) y ↔ holds vs y ∧ deepEqual v y = false := by
  have tidy := isTidy_of_isSound sound
  have tidy' := isTidy_of_isSound sound'
  simp only [Event.apply, holds_iff, List.mem_filter, Bool.not_eq_true']
  -- What answers and the value that is dropped are equal to each other if both are equal to what is looked up.
  constructor
  · rintro ⟨w, ⟨member, other⟩, equal⟩
    refine ⟨⟨w, member, equal⟩, Bool.eq_false_iff.mpr fun same => ?_⟩
    rw [deepEqual_trans tidy' equal (deepEqual_symm tidy tidy' same)] at other
    cases other
  · rintro ⟨⟨w, member, equal⟩, other⟩
    refine ⟨w, ⟨member, Bool.eq_false_iff.mpr fun same => ?_⟩, equal⟩
    have tidy'' := isTidy_of_isSound (sounds w member)
    rw [deepEqual_trans tidy'' (deepEqual_symm tidy'' tidy same) equal] at other
    cases other

theorem holds_enteredAll {ws : List Value} (sounds : ∀ w ∈ ws, w.isSound) :
    holds ((ws.map Event.entered).foldl Event.apply vs) y ↔ holds vs y ∨ holds ws y := by
  induction ws generalizing vs with
  | nil => simp [holds]
  | cons w ws ih =>
      obtain ⟨here, rest⟩ := List.forall_mem_cons.mp sounds
      rw [List.map_cons, List.foldl_cons, ih rest, holds_entered here]
      simp [holds, or_assoc]

theorem apply_sound {e : Event} (sounds : ∀ v ∈ vs, v.isSound) (sound : e.value.isSound) :
    ∀ v ∈ e.apply vs, v.isSound := by
  intro w member
  cases e with
  | entered v =>
      rw [Event.apply] at member
      split at member
      · exact sounds w member
      · rcases List.mem_append.mp member with old | last
        · exact sounds w old
        · rw [List.mem_singleton.mp last]
          exact sound
  | dropped v => exact sounds w (List.mem_filter.mp member).1

theorem holds_droppedAll {ws : List Value} (sounds : ∀ v ∈ vs, v.isSound) (sounds' : ∀ w ∈ ws, w.isSound)
    (sound : y.isSound) : holds ((ws.map Event.dropped).foldl Event.apply vs) y ↔ holds vs y ∧ holds ws y = false := by
  induction ws generalizing vs with
  | nil => simp [holds]
  | cons w ws ih =>
      obtain ⟨here, rest⟩ := List.forall_mem_cons.mp sounds'
      rw [List.map_cons, List.foldl_cons, ih (apply_sound (e := .dropped w) sounds here) rest, holds_dropped sounds here sound]
      simp [holds, and_assoc]

/-! ## Replaying against the history -/

def Sound (h : List Event) : Prop := ∀ e ∈ h, e.value.isSound

theorem Sound.replayed (sound : Sound h) : ∀ v ∈ replay h, v.isSound := by
  intro v member
  obtain ⟨e, isIn, rfl⟩ := mem_replay member
  exact sound e isIn

theorem Sound.snoc {e : Event} (sound : Sound (h ++ [e])) : Sound h ∧ e.value.isSound :=
  ⟨fun d member => sound d (List.mem_append_left _ member), sound e (List.mem_append_right _ (List.mem_singleton_self e))⟩

theorem standing_snoc (h : List Event) (e : Event) (y : Value) :
    standing (h ++ [e]) y = if deepEqual e.value y then e.isEntry else standing h y := by
  unfold standing
  rw [List.reverse_append, List.reverse_singleton, List.singleton_append, List.find?_cons]
  cases deepEqual e.value y <;> rfl

theorem holds_replay (sound : Sound h) (sound' : y.isSound) : holds (replay h) y ↔ standing h y := by
  induction h using List.reverseRecOn with
  | nil => simp [replay, holds, standing]
  | append_singleton h e ih =>
      obtain ⟨before, here⟩ := sound.snoc
      rw [replay_snoc, standing_snoc]
      cases e with
      | entered v =>
          rw [holds_entered (v := v) here, ih before]
          cases same : deepEqual v y <;> simp [Event.value, Event.isEntry, same]
      | dropped v =>
          rw [holds_dropped (v := v) before.replayed here sound', ih before]
          cases same : deepEqual v y <;> simp [Event.value, Event.isEntry, same]

def ofValues (vs : List Value) : ValueSet := { literals := vs.map .literal }

variable {s t : ValueSet}

theorem literalValues_ofValues (vs : List Value) : (ofValues vs).literalValues = vs := by
  simp [literalValues, ofValues, Function.comp_def, Member.value]

theorem add_ofValues (vs : List Value) (v : Value) :
    (ofValues vs).add (.literal v) = ofValues (Event.apply vs (.entered v)) := by
  rw [add, addLiteral, literalValues_ofValues, Event.apply, Member.value]
  by_cases present : vs.any fun w => deepEqual w v
  · rw [if_pos present, if_pos present]
  · rw [if_neg present, if_neg present]
    simp [ofValues]

theorem remove_ofValues (vs : List Value) (v : Value) :
    (ofValues vs).remove (.literal v) = ofValues (Event.apply vs (.dropped v)) := by
  simp [remove, ofValues, Event.apply, List.filter_map, Function.comp_def, Member.value]

theorem addAll_ofValues (vs ws : List Value) : (ws.map Member.literal).foldl (fun t m => add m t) (ofValues vs) =
    ofValues ((ws.map Event.entered).foldl Event.apply vs) := by
  induction ws generalizing vs with
  | nil => rfl
  | cons w ws ih => rw [List.map_cons, List.foldl_cons, add_ofValues, ih, List.map_cons, List.foldl_cons]

theorem removeAll_ofValues (vs ws : List Value) :
    (ws.map Member.literal).foldl (fun t m => remove m t) (ofValues vs) =
      ofValues ((ws.map Event.dropped).foldl Event.apply vs) := by
  induction ws generalizing vs with
  | nil => rfl
  | cons w ws ih => rw [List.map_cons, List.foldl_cons, remove_ofValues, ih, List.map_cons, List.foldl_cons]

theorem members_ofValues (vs : List Value) : (ofValues vs).members = vs.map .literal := by simp [members, ofValues]

theorem ofList_literals (vs : List Value) : ofList (vs.map .literal) = ofValues (replay (vs.map .entered)) := by
  rw [replay, ← addAll_ofValues, ofList, ofLists, List.foldl_map, List.foldl_map]
  rfl

theorem concat_ofValues (apart : vs.Pairwise fun v w => deepEqual v w = false) (ws : List Value) :
    (ofValues vs).concat (ofValues ws) = .ok (ofValues ((ws.map Event.entered).foldl Event.apply vs)) := by
  have plain : (ofValues vs).Plain := ⟨rfl, by rwa [literalValues_ofValues]⟩
  have entered := addAll_ofValues vs ws
  rw [List.foldl_map] at entered
  calc (ofValues vs).concat (ofValues ws)
      = .ok { (ws.map Member.literal).foldl (fun t m => t.addLiteral m) (ofValues vs) with replaces := false } :=
        plain.concat rfl
    _ = .ok { ws.foldl (fun t w => t.add (.literal w)) (ofValues vs) with replaces := false } := by
        rw [List.foldl_map]
        rfl
    _ = .ok (ofValues ((ws.map Event.entered).foldl Event.apply vs)) := by
        rw [entered]
        rfl

theorem members_of_values {o : Option ValueSet} (each : ∀ t ∈ o, ∃ us, t = ofValues us) :
    (o.map ValueSet.members).getD [] = (orEmpty o).literalValues.map .literal := by
  cases o with
  | none => rfl
  | some t =>
      obtain ⟨us, rfl⟩ := each t rfl
      show (ofValues us).members = (ofValues us).literalValues.map .literal
      rw [members_ofValues, literalValues_ofValues]

theorem merge_ofValues (vs : List Value) {added removed : Option ValueSet}
    (entered : ∀ t ∈ added, ∃ us, t = ofValues us) (dropped : ∀ t ∈ removed, ∃ us, t = ofValues us) :
    (ofValues vs).merge added removed = ofValues ((entering added ++ dropping removed).foldl Event.apply vs) := by
  rw [merge, members_of_values entered, members_of_values dropped, List.foldl_append, entering, dropping,
    ← removeAll_ofValues, ← addAll_ofValues]
  rfl

theorem replay_append (h k : List Event) : replay (h ++ k) = k.foldl Event.apply (replay h) := List.foldl_append ..

theorem Sound.append {g k : List Event} (left : Sound g) (right : Sound k) : Sound (g ++ k) :=
  List.forall_mem_append.mpr ⟨left, right⟩

theorem entries_sound {o : Option ValueSet} {past : ValueSet → List Event}
    (each : ∀ t ∈ o, t = ofValues (replay (past t)) ∧ Sound (past t)) : ∀ v ∈ (orEmpty o).literalValues, v.isSound := by
  cases o with
  | none => exact List.forall_mem_nil _
  | some t =>
      obtain ⟨same, sound⟩ := each t rfl
      rw [orEmpty, Option.getD_some, same, literalValues_ofValues]
      exact sound.replayed

/-- Sets from literal values hold what their history leaves, and nothing else. -/
theorem Follows.eq_ofValues (follows : Follows h s) : s = ofValues (replay h) ∧ Sound h := by
  -- The set is written as the list of its values, on which a step of a set is a step of the replay.
  induction follows with
  | ofList sound => exact ⟨ofList_literals _, List.forall_mem_map.mpr sound⟩
  | @add h s before v sound ih =>
      obtain ⟨rfl, past⟩ := ih
      rw [add_ofValues, replay_snoc]
      exact ⟨rfl, past.append (List.forall_mem_singleton.mpr sound)⟩
  | @remove h s before v sound ih =>
      obtain ⟨rfl, past⟩ := ih
      rw [remove_ofValues, replay_snoc]
      exact ⟨rfl, past.append (List.forall_mem_singleton.mpr sound)⟩
  | clone before ih => exact ih
  | @concat g h s t u first second joined ih ih' =>
      obtain ⟨rfl, past⟩ := ih
      obtain ⟨rfl, past'⟩ := ih'
      rw [concat_ofValues (replay_pairwise g)] at joined
      obtain rfl := Except.ok.inj joined
      rw [replay_append, entering, orEmpty, Option.getD_some, literalValues_ofValues]
      exact ⟨rfl, past.append (List.forall_mem_map.mpr past'.replayed)⟩
  | @merge h s before added removed past entered dropped ih ihAdded ihRemoved =>
      obtain ⟨rfl, sound⟩ := ih
      rw [merge_ofValues _ (fun t member => ⟨_, (ihAdded t member).1⟩) fun t member => ⟨_, (ihRemoved t member).1⟩,
        List.append_assoc, replay_append]
      have entries : Sound (entering added) := List.forall_mem_map.mpr (entries_sound ihAdded)
      have others : Sound (dropping removed) := List.forall_mem_map.mpr (entries_sound ihRemoved)
      exact ⟨rfl, sound.append (entries.append others)⟩

/-! ## Answers -/

theorem findLiteral?_eq (s : ValueSet) (y : Value) :
    s.findLiteral? false y = s.literalValues.find? fun v => deepEqual v y := rfl

theorem hasLiteral_eq (s : ValueSet) (y : Value) : s.hasLiteral false y = holds s.literalValues y := by
  rw [hasLiteral, findLiteral?_eq, List.isSome_find?]
  rfl

/-- What a set answers about a value, and what becomes of the answer when the set is changed. -/
structure Answers (resolve : Reference → Except Fault Value) (s : ValueSet) (y : Value) : Prop where
  has : s.has resolve false y = .ok (s.hasLiteral false y)
  lookup : s.lookup resolve false y = .ok ((s.findLiteral? false y).map fun v => ⟨v, none⟩)
  found : ∀ v, s.findLiteral? false y = some v ↔ v ∈ s.literalValues ∧ deepEqual v y
  only : ∀ v ∈ s.literalValues, ∀ w ∈ s.literalValues, deepEqual v y → deepEqual w y → v = w
  added : ∀ x, x.isSound → (s.add (.literal x)).has resolve false y = .ok (s.hasLiteral false y || deepEqual x y)
  removed : ∀ x, x.isSound → (s.remove (.literal x)).has resolve false y = .ok (s.hasLiteral false y && !deepEqual x y)
  cloned : s.clone.has resolve false y = s.has resolve false y
  joined : ∀ {h t}, Follows h t →
    ∃ u, s.concat t = .ok u ∧ u.has resolve false y = .ok (s.hasLiteral false y || t.hasLiteral false y)
  merged : ∀ {past : ValueSet → List Event} {added removed}, (∀ t ∈ added, Follows (past t) t) →
    (∀ t ∈ removed, Follows (past t) t) → (s.merge added removed).has resolve false y =
      .ok ((s.hasLiteral false y || (orEmpty added).hasLiteral false y) && !(orEmpty removed).hasLiteral false y)

variable {resolve : Reference → Except Fault Value}

theorem has_ofValues (vs : List Value) : (ofValues vs).has resolve false y = .ok (holds vs y) := by
  rw [has_alone rfl, hasLiteral_eq, literalValues_ofValues]

theorem replay_unlike (sound : Sound h) : (replay h).Pairwise Unlike :=
  (replay_pairwise h).imp_of_mem fun first second apart =>
    unlike_of_tidy (isTidy_of_isSound (sound.replayed _ first)) (isTidy_of_isSound (sound.replayed _ second)) (.inl apart)

theorem replay_unique (past : Sound h) (sound : y.isSound) :
    ∀ v ∈ replay h, ∀ w ∈ replay h, deepEqual v y → deepEqual w y → v = w := by
  intro v first w second left right
  by_contra different
  have symm : Std.Symm (α := Value) Unlike := ⟨fun _ _ unlike => unlike.symm⟩
  have unlike := (replay_unlike past).forall first second different
  have tidy := isTidy_of_isSound sound
  have back := deepEqual_symm (isTidy_of_isSound (past.replayed w second)) tidy right
  exact Bool.false_ne_true (unlike.1.symm.trans (deepEqual_trans tidy left back))

theorem Follows.answers (follows : Follows h s) (sound : y.isSound) : s.Answers resolve y := by
  obtain ⟨rfl, past⟩ := follows.eq_ofValues
  have unique := replay_unique past sound
  have literal : (ofValues (replay h)).hasLiteral false y = holds (replay h) y := by
    rw [hasLiteral_eq, literalValues_ofValues]
  constructor
  · exact has_alone rfl
  · exact lookup_alone rfl
  · intro v
    rw [findLiteral?_eq, literalValues_ofValues]
    constructor
    · intro found
      have equal := List.find?_some found
      exact ⟨List.mem_of_find?_eq_some found, equal⟩
    · rintro ⟨member, equal⟩
      have isFound : ((replay h).find? fun v => deepEqual v y).isSome := List.find?_isSome.mpr ⟨v, member, equal⟩
      obtain ⟨w, found⟩ := Option.isSome_iff_exists.mp isFound
      have equal' := List.find?_some found
      rw [found, unique w (List.mem_of_find?_eq_some found) v member equal' equal]
  · rwa [literalValues_ofValues]
  · intro x sound'
    rw [add_ofValues, has_ofValues, literal]
    congr 1
    rw [Bool.eq_iff_iff, holds_entered sound', Bool.or_eq_true]
  · intro x sound'
    rw [remove_ofValues, has_ofValues, literal]
    congr 1
    rw [Bool.eq_iff_iff, holds_dropped past.replayed sound' sound, Bool.and_eq_true, Bool.not_eq_true']
  · rfl
  · intro g t follows'
    obtain ⟨rfl, past'⟩ := follows'.eq_ofValues
    refine ⟨_, concat_ofValues (replay_pairwise h) _, ?_⟩
    rw [has_ofValues, literal, hasLiteral_eq, literalValues_ofValues]
    congr 1
    rw [Bool.eq_iff_iff, holds_enteredAll past'.replayed, Bool.or_eq_true]
  · intro past' added removed entered dropped
    have entries := entries_sound fun t member => (entered t member).eq_ofValues
    have others := entries_sound fun t member => (dropped t member).eq_ofValues
    have between : Sound (h ++ entering added) := past.append (List.forall_mem_map.mpr entries)
    rw [merge_ofValues _ (fun t member => ⟨_, (entered t member).eq_ofValues.1⟩)
      fun t member => ⟨_, (dropped t member).eq_ofValues.1⟩, has_ofValues, literal, hasLiteral_eq, hasLiteral_eq]
    congr 1
    rw [Bool.eq_iff_iff, List.foldl_append, ← replay_append, dropping, holds_droppedAll between.replayed others sound,
      replay_append, entering, holds_enteredAll entries, Bool.and_eq_true, Bool.or_eq_true, Bool.not_eq_true']

end ValueSet

end Conform
