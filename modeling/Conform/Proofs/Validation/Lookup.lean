import Conform.Proofs.Validation.Frames

/-!
# Looking up references and value sets

A node finds the same through a reference on both sides if they share their place; without references
the place does not matter.
-/

namespace Conform

namespace Bounds

variable (B : Bounds) (h : Hooks)

/-- A reference that finds data within bounds, for sides that share their place. -/
structure ResolvesIn (r : Reference) : Prop where
  same : B.samePlace
  met : ∀ shadow context v s, (∀ t, shadow = some t → t.Holds B.value) →
    (∀ es, context = some es → B.value (.dict es)) → B.value v → B.SiteIn s →
    B.Meets B.value (r.resolve h.adjust shadow context v s)

structure SetIn (s : ValueSet) : Prop where
  literals : ∀ v ∈ s.literalValues, B.value v
  refs : ∀ r ∈ s.refs, B.ResolvesIn h r

def FoundIn (found : Option Found) : Prop := ∀ x, found = some x → B.value x.value

end Bounds

variable {B : Bounds} {h : Hooks} {ε : Effects}

namespace ValueSet

theorem inRefs_congr {g k : Reference → Except Fault Value} {insensitive : Bool} {v : Value}
    {rs : List Reference} (agree : ∀ r ∈ rs, g r = k r) :
    lookup.inRefs g insensitive v rs = lookup.inRefs k insensitive v rs := by
  induction rs with
  | nil => rfl
  | cons r rs ih =>
      rw [lookup.inRefs, lookup.inRefs, agree r (by simp), ih fun q member => agree q (by simp [member])]

theorem lookup_congr {g k : Reference → Except Fault Value} {insensitive : Bool} {v : Value}
    {s : ValueSet} (agree : ∀ r ∈ s.refs, g r = k r) :
    s.lookup g insensitive v = s.lookup k insensitive v := by
  rw [lookup, lookup, inRefs_congr agree]

theorem candidates_in (laws : B.Lawful) (r : Reference) {v : Value} (value : B.value v) :
    ∀ w ∈ candidates r v, B.value w := by
  intro w member
  unfold candidates at member
  split at member
  · obtain ⟨e, entry, rfl⟩ := List.mem_map.mp member
    exact ((laws.dict _).mp value e entry).1
  · exact (laws.list _).mp value w member
  · exact (laws.tuple _).mp value w member
  · rwa [List.mem_singleton.mp member]

theorem inRefs_in (laws : B.Lawful) {g : Reference → Except Fault Value} {insensitive : Bool}
    {v : Value} {rs : List Reference} (resolves : ∀ r ∈ rs, B.Meets B.value (g r)) :
    B.Meets B.FoundIn (lookup.inRefs g insensitive v rs) := by
  induction rs with
  | nil => exact nofun
  | cons r rs ih =>
      have rest := ih fun q member => resolves q (by simp [member])
      have head := resolves r (by simp)
      rw [lookup.inRefs]
      cases resolved : g r with
      | error f =>
          rw [resolved] at head
          exact head
      | ok w =>
          rw [resolved] at head
          simp only [bind, Except.bind, pure, Except.pure]
          split
          · exact rest
          · split
            · rename_i found
              intro x isFound
              obtain rfl := Option.some.inj isFound
              exact candidates_in laws r head _ (List.mem_of_find?_eq_some found)
            · exact rest

theorem lookup_in (laws : B.Lawful) {g : Reference → Except Fault Value} {insensitive : Bool}
    {v : Value} {s : ValueSet} (literals : ∀ w ∈ s.literalValues, B.value w)
    (resolves : ∀ r ∈ s.refs, B.Meets B.value (g r)) :
    B.Meets B.FoundIn (s.lookup g insensitive v) := by
  unfold lookup
  split
  · rename_i found
    intro x isFound
    obtain rfl := Option.some.inj isFound
    exact literals _ (List.mem_of_find?_eq_some found)
  · exact inRefs_in laws resolves

end ValueSet

namespace Bounds.Frames

variable {f f' : Frame}

theorem resolve (frames : B.Frames f f') (laws : B.Lawful) {r : Reference}
    (resolves : B.ResolvesIn h r) {v : Value} (value : B.value v) :
    Alike B ε B.value (Node.resolve h f v r) (Node.resolve h f' v r) := by
  obtain rfl := frames.eq resolves.same
  apply Alike.reading (fun s => r.resolve h.adjust s f'.prefs.context v f'.site)
    (fun s => r.resolve h.adjust s f'.prefs.context v f'.site)
  intro s s' shared holds
  obtain rfl := shared resolves.same
  exact ⟨rfl, resolves.met s _ v _ holds (laws.context _ frames.prefs.left) value frames.site.left⟩

theorem find (frames : B.Frames f f') (laws : B.Lawful) {s : ValueSet} (set : B.SetIn h s)
    (insensitive : Bool) {v : Value} (value : B.value v) :
    Alike B ε B.FoundIn (Node.find h f insensitive v s) (Node.find h f' insensitive v s) := by
  apply Alike.reading
    (fun t => s.lookup (fun r => r.resolve h.adjust t f.prefs.context v f.site) insensitive v)
    (fun t => s.lookup (fun r => r.resolve h.adjust t f'.prefs.context v f'.site) insensitive v)
  intro t t' shared holds
  constructor
  · apply ValueSet.lookup_congr
    intro r member
    obtain rfl := frames.eq (set.refs r member).same
    obtain rfl := shared (set.refs r member).same
    rfl
  · apply ValueSet.lookup_in laws set.literals
    intro r member
    exact (set.refs r member).met t _ v _ holds (laws.context _ frames.prefs.left) value frames.site.left

end Bounds.Frames

end Conform
