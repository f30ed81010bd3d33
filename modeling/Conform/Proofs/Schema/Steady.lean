import Conform.Proofs.Datum.Copies
import Conform.Proofs.Schema.Nodes
import Conform.Proofs.Schema.Free

/-!
# Copies that cannot be told apart

Each copying makes the entities in a datum anew, but functions and patterns are shared, so copies of data that hold no
other entities are the same. A schema that fills in no others gives the same however many copies were made before.
-/

namespace Conform

/-- Whether copies of an entity are the entity itself. -/
def Entity.isShared : Entity → Bool
  | fn _ | pattern _ | deepDefault => true
  | _ => false

theorem Entity.copied_shared {a : Entity} (shared : a.isShared) (n : Nat) : a.copied n = a := by
  cases a with
  | fn | pattern | deepDefault => rfl
  | _ => cases shared

theorem Datum.copy_shared {v : Value} (shared : v.allLeaves Entity.isShared) (m n : Nat) : v.copy m = v.copy n := by
  have same : ∀ n, v.map (Entity.copied n) = v := fun n =>
    map_old (fun _ shared => Entity.copied_shared shared n) v shared
  rw [copy, copy, same, same]

/-- Whether what is filled in is the same each time. -/
def Fallback.isSteady : Option Fallback → Bool
  | some (.static v) => !v.isMutableContainer || v.allLeaves Entity.isShared
  | _ => true

def Core.isSteady (core : Core) : Bool := Fallback.isSteady core.default && Fallback.isSteady core.failover

theorem Core.copy_steady {core : Core} (steady : core.isSteady) {v : Value}
    (static : core.default = some (.static v) ∨ core.failover = some (.static v)) (mutable : v.isMutableContainer)
    (m n : Nat) : v.copy m = v.copy n := by
  have shared : v.allLeaves Entity.isShared := by
    rw [isSteady, Bool.and_eq_true] at steady
    rcases static with same | same
    · simpa [Fallback.isSteady, same, mutable] using steady.1
    · simpa [Fallback.isSteady, same, mutable] using steady.2
  exact Datum.copy_shared shared m n

namespace Schema

variable {s t : Schema}

theorem core_refs_subset (s : Schema) : s.core.refs ⊆ s.refs := by
  obtain ⟨core, empty, content⟩ := s
  intro x isRef
  rw [refs, List.append_assoc]
  exact List.mem_append_left _ isRef

theorem subjects_subset (s : Schema) : s.content.subjects ⊆ s.refs := by
  obtain ⟨core, empty, content⟩ := s
  intro x isRef
  cases content with
  | alternatives es chain mode => exact List.mem_append_right _ (List.mem_append_right _ isRef)
  | _ => cases isRef

end Schema

theorem Effects.at_all (tests : Bool) : Effects.at tests .all = .all := by
  unfold Effects.at
  split <;> rfl

variable {place copies : Prop}

/-- A node without functions that resolves references only where the place is shared, and fills in what copying makes
anew only where copies are counted alike. -/
theorem Bounds.plain_placeIn {h : Hooks} {p : Place} (plain : p.schema.core.Plain) (reads : place ∨ p.schema.refs = [])
    (steady : copies ∨ p.schema.core.isSteady) : (free (fun _ _ => True) place copies).PlaceIn .all h true p := by
  have shared : ∀ {rs : List Reference}, rs ⊆ p.schema.refs → ∀ r ∈ rs, place := by
    intro rs below r member
    rcases reads with shared | unreferenced
    · exact shared
    · rw [unreferenced] at below
      cases below member
  have static : ∀ v, p.schema.core.default = some (.static v) ∨ p.schema.core.failover = some (.static v) →
      v.isMutableContainer → ∀ m n, (copies → m = n) → v.copy m = v.copy n := by
    intro v static mutable m n counts
    rcases steady with counted | steady
    · rw [counts counted]
    · exact Core.copy_steady steady static mutable m n
  have free : FreeIn (fun _ _ => True) place copies .all h p := by
    refine ⟨⟨shared p.schema.core_refs_subset, static⟩, shared p.schema.subjects_subset, ⟨?_, ?_, ?_⟩, fun q _ => ?_⟩
    · exact fun e member custom => absurd custom (plain.custom e member)
    · exact fun fn call => absurd call (plain.fallback fn)
    · exact fun fn call => absurd call (plain.error fn)
    · rw [Effects.at_all]
      exact .all _ _ _
  refine free.placeIn fun q _ f f' frames _ _ _ _ _ alike => ?_
  rwa [Schema.keeping_true, Node.through_idle _ _ _ (.inl plain.cache),
    Node.through_idle _ _ _ (.inl plain.cache)] at *

/-- Without functions and caches a schema gives one outcome and writes the same at a path. Where it has no references,
what is around the value may differ, and where it is steady, the number of copies. -/
theorem Schema.plain_alike (h : Hooks) {s : Schema} (plain : s.all fun core _ => core.isPlain)
    (reads : place ∨ s.refs = []) (steady : copies ∨ s.all fun core _ => core.isSteady) (path : Path) (p : Preferences) :
    (Bounds.free (fun _ _ => True) place copies).EvaluatorsAt .all path p.plain (s.eval h) (s.eval h) := by
  have places : Place.Everywhere ((Bounds.free (fun _ _ => True) place copies).PlaceIn .all h true)
      ⟨false, s, path, p.plain⟩ := by
    refine Place.everywhere_below fun at_ below => ?_
    refine Bounds.plain_placeIn (Core.isPlain.plain (all_below plain below)) ?_ ?_
    · refine reads.imp_right fun (unreferenced : s.refs = []) => List.subset_nil.mp ?_
      exact unreferenced ▸ refs_below below
    · exact steady.imp_right fun steady => all_below steady below
  have alike := eval_alike true Bounds.free_lawful s false path p.plain places
  rwa [keeping_true] at alike

end Conform
