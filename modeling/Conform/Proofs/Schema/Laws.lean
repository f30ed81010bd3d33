import Conform.Proofs.Schema.Built

/-!
# What the steps of the builders keep

Every node that can be made has checked rules, of which those that may stand once stand once, hashable keys, and a
chain state that is the run of its entries. Each is proved by induction on the steps that make nodes.
-/

namespace Conform

/-! ## Settings -/

/-- A name stands twice only where its rule may be given more than once. -/
def RuleEntry.Once (kind : Kind) (rules : List RuleEntry) : Prop :=
  rules.Pairwise fun a b => a.name = b.name → (b.spec kind).multiple

namespace RuleEntry.Once

variable {kind : Kind} {rules : List RuleEntry}

theorem put (once : Once kind rules) {spec : RuleSpec} {e : RuleEntry} (name : spec.name = e.name)
    (multiple : spec.multiple = (e.spec kind).multiple) : Once kind (Schema.putRule spec e rules) := by
  unfold Schema.putRule
  by_cases several : spec.multiple
  · rw [if_pos several]
    refine List.pairwise_append.mpr ⟨once, List.pairwise_singleton _ _, fun d _ last isLast _ => ?_⟩
    obtain rfl := List.mem_singleton.mp isLast
    exact multiple ▸ several
  · rw [if_neg several]
    refine List.pairwise_append.mpr ⟨once.filter _, List.pairwise_singleton _ _, fun d old last isLast same => ?_⟩
    obtain rfl := List.mem_singleton.mp isLast
    have other := (List.mem_filter.mp old).2
    simp [name, same] at other

theorem rule? {core : Core} (once : Once kind core.rules) {e : RuleEntry} (member : e ∈ core.rules)
    (single : (e.spec kind).multiple = false) : core.rule? e.name = some e := by
  obtain ⟨before, after, split⟩ := List.append_of_mem member
  have later : ∀ d ∈ after, ¬ (d.name == e.name) := by
    intro d isLater same
    rw [Once, split] at once
    have apart := (List.pairwise_cons.mp (List.pairwise_append.mp once).2.1).1 d isLater
    have name : e.name = d.name := (beq_iff_eq.mp same).symm
    have several := apart name
    have specs : (d.spec kind).multiple = (e.spec kind).multiple := by
      unfold RuleEntry.spec
      rw [name]
    rw [specs, single] at several
    cases several
  have missed : after.reverse.find? (fun d => d.name == e.name) = none :=
    List.find?_eq_none.mpr fun d isLater => later d (List.mem_reverse.mp isLater)
  rw [Core.rule?, split, List.reverse_append, List.reverse_cons, List.append_assoc, List.find?_append, missed]
  simp

end RuleEntry.Once

namespace Core.Made

variable {kind : Kind} {core : Core}

theorem formed (made : core.Made kind) : core.Formed kind := by
  induction made with
  | bare => exact ⟨List.forall_mem_nil _, nofun⟩
  | setting _ agrees ih => exact ih.congr agrees.rules agrees.prefs
  | allow _ runs ih => exact ih.allow _ _ runs
  | deny _ runs ih => exact ih.deny _ _ runs
  | @prefs kind c options _ distinct context _ checked ih =>
      refine ⟨ih.rules, fun o is => ?_⟩
      obtain rfl := Option.some.inj is
      refine Preferences.admits_merge ?_ (Preferences.admits_of_check checked distinct context)
      cases own : c.prefs with
      | none => exact List.forall_mem_nil _
      | some p => exact ih.prefs p own
  | rule _ known readable entry ih =>
      have new := (Schema.ruleEntry_formed known readable _ entry).2
      exact ⟨fun e member => (Schema.mem_putRule member).elim (ih.rules e) (· ▸ new), ih.prefs⟩
  | @amend kind c r _ last warn message ih =>
      refine ⟨fun e member => ?_, ih.prefs⟩
      rcases List.mem_append.mp member with before | amended
      · exact ih.rules e (List.mem_of_mem_dropLast before)
      · obtain rfl := List.mem_singleton.mp amended
        exact (ih.rules r (List.mem_of_getLast? last)).amend _ _
  | merge _ _ fits runs first second => exact Schema.mergeCore_formed first second fits _ runs

theorem once (made : core.Made kind) : RuleEntry.Once kind core.rules := by
  induction made with
  | bare => exact List.Pairwise.nil
  | setting _ agrees ih => exact agrees.rules ▸ ih
  | allow _ runs ih => exact (Core.allow_keeps runs).1 ▸ ih
  | deny _ runs ih => exact (Core.deny_keeps runs).1 ▸ ih
  | prefs _ _ _ _ _ ih => exact ih
  | @rule kind c name spec given e _ known _ entry ih =>
      obtain ⟨checked, -, made⟩ := bind_eq_ok.mp entry
      obtain rfl := Except.ok.inj made
      have named : spec.name = name := by simpa using List.find?_some known
      refine ih.put rfl ?_
      rw [RuleEntry.spec, named, known]
      rfl
  | @amend kind c r _ last warn message ih =>
      have split : c.rules = c.rules.dropLast ++ [r] := (List.dropLast_append_getLast? r last).symm
      have before := ih
      rw [RuleEntry.Once, split, List.pairwise_append] at before
      refine List.pairwise_append.mpr ⟨before.1, List.pairwise_singleton _ _, fun d isBefore amended isLast => ?_⟩
      obtain rfl := List.mem_singleton.mp isLast
      exact before.2.2 d isBefore r (List.mem_singleton_self r)
  | @merge kind other own source c _ _ _ runs first _ =>
      rw [Schema.mergeCore_rules runs, Schema.mergeRules]
      generalize source.rules = added
      generalize own.rules = rules at first
      -- The rules of the source are put in one by one, each in place of one that is there already.
      induction added generalizing rules with
      | nil => exact first
      | cons e added ih => exact ih _ (first.put rfl rfl)

end Core.Made

/-! ## Contents -/

namespace Layout.Made

variable {joins : List Value → List Value → Prop} {layout : Layout}

theorem hashable (made : layout.Made joins) : ∀ ks, layout = .keys (some ks) → ∀ k ∈ ks, k.isHashable := by
  induction made with
  | keyless =>
      rintro _ ⟨⟩
      exact List.forall_mem_nil _
  | @declare key declared _ hashable ih =>
      rintro _ ⟨⟩ k member
      rcases List.mem_append.mp member with old | last
      · exact ih declared rfl k (List.mem_filter.mp old).1
      · exact List.mem_singleton.mp last ▸ hashable
  | @merged own source _ _ _ first second =>
      rintro _ ⟨⟩
      exact List.forall_mem_append.mpr ⟨first own rfl, second source rfl⟩
  | _ => nofun

theorem counted (made : layout.Made joins) :
    ∀ slots chain mode, layout = .entries slots chain mode → mode.isSome → ∀ e ∈ slots, e = .attempt := by
  induction made with
  | listed =>
      rintro _ _ _ ⟨⟩
      nofun
  | @append slots e chain _ mode _ _ _ counts ih =>
      rintro _ _ _ ⟨⟩ isSome
      exact List.forall_mem_append.mpr ⟨ih slots chain mode rfl isSome, List.forall_mem_singleton.mpr (counts isSome)⟩
  | mode _ _ counts =>
      rintro _ _ _ ⟨⟩
      exact counts
  | concat _ _ _ counts =>
      rintro _ _ _ ⟨⟩
      exact counts
  | _ => nofun

end Layout.Made

namespace Schema

variable {joins : List Value → List Value → Prop} {s : Schema}

theorem Made.formed (made : s.Made joins) : s.FormedBelow := by
  intro t below
  obtain ⟨core, layout⟩ := made t below
  refine ⟨core.formed, ?_⟩
  cases content : t.content with
  | object keys =>
      cases keys with
      | none => trivial
      | some ks =>
          rw [content] at layout
          exact fun e member => layout.hashable _ rfl e.1 (List.mem_map_of_mem member)
  | alternatives es chain mode =>
      cases mode with
      | none => trivial
      | some m =>
          rw [content] at layout
          intro e member
          have slot := layout.counted _ chain (some m) rfl rfl e.slot (List.mem_map_of_mem member)
          exact Alternative.slot_attempt.mp slot
  | _ => trivial

theorem Built.formed (built : s.Built) : s.FormedBelow := built.made.formed

end Schema

end Conform
