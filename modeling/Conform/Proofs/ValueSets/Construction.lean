import Conform.Proofs.ValueSets
import Conform.Proofs.Datum.Equivalence

/-!
# Ways to build a value set

Members added one after the other, sets of one member merged, and sets of one member joined are the same set, as long
as references are added. A list of members taken at once, and joined sets that were made so, hold references as values
among others: such a set answers alike where the references answer as they do when they are compared themselves.
-/

namespace Conform

open Datum

def Member.isRef : Member → Bool
  | .literal _ => false
  | .ref _ => true

namespace ValueSet

/-! ## Ways to build a set -/

def inTurn (ms : List Member) : ValueSet := ms.foldl (fun s m => s.add m) {}

/-- The sets of one member, joined. -/
def joined (single : Member → ValueSet) (ms : List Member) : Except Fault ValueSet :=
  ms.foldlM (fun s m => s.concat (single m)) {}

def merged (single : Member → ValueSet) (ms : List Member) : ValueSet :=
  ms.foldl (fun s m => s.merge (some (single m)) none) {}

def added (m : Member) : ValueSet := add m {}

def listed (m : Member) : ValueSet := ofList [m]

variable {s t : ValueSet} {m : Member} {ms : List Member} {y : Value} {insensitive : Bool}

theorem members_added (m : Member) : (added m).members = [m] := by cases m <;> rfl

theorem members_listed (m : Member) : (listed m).members = [m] := rfl

/-! ## Merged and joined sets -/

theorem merge_single (alone : t.members = [m]) : s.merge (some t) none = s.add m := by
  rw [merge, Option.map_some, Option.getD_some, alone]
  rfl

theorem merged_eq_inTurn {single : Member → ValueSet} (alone : ∀ m, (single m).members = [m]) (ms : List Member) :
    merged single ms = inTurn ms :=
  List.foldl_ext _ _ _ fun _ m _ => merge_single (alone m)

/-- A set that replaces no other one, and that is entered again as it is. -/
structure Plain (s : ValueSet) : Prop where
  joins : s.replaces = false
  apart : s.literalValues.Pairwise fun v w => deepEqual v w = false

theorem plain_empty : Plain {} := ⟨rfl, List.Pairwise.nil⟩

theorem addLiteral_eq (m : Member) (s : ValueSet) : s.addLiteral m = s ∨
    (∀ v ∈ s.literalValues, deepEqual v m.value = false) ∧
      s.addLiteral m = { s with literals := s.literals ++ [m] } := by
  by_cases present : s.literalValues.any fun w => deepEqual w m.value
  · exact .inl (if_pos present)
  · refine .inr ⟨fun v member => ?_, if_neg present⟩
    simp only [List.any_eq_true, not_exists, not_and] at present
    exact Bool.eq_false_iff.mpr (present v member)

theorem Plain.addLiteral (plain : s.Plain) (m : Member) : (s.addLiteral m).Plain := by
  rcases addLiteral_eq m s with same | ⟨fresh, entered⟩
  · rwa [same]
  · rw [entered]
    refine ⟨plain.joins, ?_⟩
    rw [literalValues, List.map_append]
    refine List.pairwise_append.mpr ⟨plain.apart, List.pairwise_singleton _ _, fun v member w last => ?_⟩
    obtain rfl := List.mem_singleton.mp last
    exact fresh v member

theorem Plain.add (plain : s.Plain) (m : Member) : (s.add m).Plain := by
  cases m with
  | literal v => exact plain.addLiteral _
  | ref r =>
      rcases add_refs r s with same | ⟨-, entered⟩
      · rwa [same]
      · rw [entered]
        exact ⟨plain.joins, plain.apart⟩

theorem ofLists_snoc (ms : List Member) (refs : List Reference) (m : Member) :
    ofLists (ms ++ [m]) refs = (ofLists ms refs).addLiteral m := by
  rw [ofLists, List.foldl_append]
  rfl

theorem ofLists_apart (refs : List Reference)
    (apart : (ms.map Member.value).Pairwise fun v w => deepEqual v w = false) :
    ofLists ms refs = { literals := ms, refs } := by
  induction ms using List.reverseRecOn with
  | nil => rfl
  | append_singleton ms m ih =>
      rw [List.map_append] at apart
      obtain ⟨before, -, last⟩ := List.pairwise_append.mp apart
      rw [ofLists_snoc, ih before, addLiteral, if_neg]
      simpa [literalValues] using fun n member => last _ (List.mem_map_of_mem member) _ (List.mem_singleton_self _)

theorem Plain.again (plain : s.Plain) : ofLists s.literals s.refs = s := by
  rw [ofLists_apart s.refs plain.apart, ← plain.joins]

theorem Plain.concat (plain : s.Plain) (joins : t.replaces = false) : s.concat t =
    .ok { t.refs.foldl (fun u r => u.addRef r) (t.literals.foldl (fun u m => u.addLiteral m) s) with replaces := false } := by
  rw [ValueSet.concat, plain.again, joins, plain.joins]
  rfl

theorem Plain.concat_listed (plain : s.Plain) (m : Member) : s.concat (listed m) = .ok (s.addLiteral m) := by
  rw [plain.concat rfl, ← (plain.addLiteral m).joins]
  rfl

theorem Plain.concat_added (plain : s.Plain) (m : Member) : s.concat (added m) = .ok (s.add m) := by
  rw [plain.concat (by cases m <;> rfl), ← (plain.add m).joins]
  cases m <;> rfl

/-- Joining sets of one member goes on with each as a step does that keeps the set plain. -/
theorem joined_eq {single : Member → ValueSet} {step : ValueSet → Member → ValueSet}
    (joins : ∀ s m, Plain s → s.concat (single m) = .ok (step s m)) (keeps : ∀ s m, Plain s → (step s m).Plain)
    (ms : List Member) : joined single ms = .ok (ms.foldl step {}) := by
  have run : ∀ s, Plain s → ms.foldlM (fun s m => s.concat (single m)) s = .ok (ms.foldl step s) := by
    induction ms with
    | nil => exact fun s _ => rfl
    | cons m ms ih =>
        intro s plain
        rw [List.foldlM_cons, joins s m plain]
        exact ih _ (keeps s m plain)
  exact run {} plain_empty

theorem joined_added (ms : List Member) : joined added ms = .ok (inTurn ms) :=
  joined_eq (fun _ m plain => plain.concat_added m) (fun _ m plain => plain.add m) ms

theorem joined_listed (ms : List Member) : joined listed ms = .ok (ofList ms) :=
  joined_eq (fun _ m plain => plain.concat_listed m) (fun _ m plain => plain.addLiteral m) ms

/-! ## What the entries answer -/

theorem text?_of_equal {v w : Value} (equal : deepEqual w v) : w.text? = v.text? := by
  cases w with
  | str s =>
      cases v <;> simp only [deepEqual, Bool.false_eq_true] at equal
      rw [beq_iff_eq.mp equal]
  | undefined | null | bool | int | float | bytes | date | clock | moment | list | tuple | set | dict | leaf =>
      cases v with
      | str => simp [deepEqual, isUndefined, isNull] at equal
      | _ => rfl

theorem sameEntry_of_noText {v : Value} (noText : v.text? = none) : sameEntry insensitive v y = deepEqual v y := by
  cases v with
  | str => cases noText
  | _ => cases insensitive <;> rfl

theorem sameEntry_of_equal {v w : Value} (tidy : v.isTidy) (equal : deepEqual w v)
    (same : sameEntry insensitive v y) : sameEntry insensitive w y := by
  have texts := text?_of_equal equal
  cases text : v.text? with
  | none =>
      rw [sameEntry_of_noText text] at same
      rw [sameEntry_of_noText (texts.trans text)]
      exact deepEqual_trans tidy equal same
  | some a =>
      obtain rfl : w = v := by
        cases v <;> cases text
        cases w <;> cases texts
        rfl
      exact same

theorem hasLiteral_iff : s.hasLiteral insensitive y ↔ ∃ v ∈ s.literalValues, sameEntry insensitive v y :=
  List.find?_isSome

theorem hasLiteral_addLiteral (tidy : sameEntry insensitive m.value y → m.value.isTidy) : (s.addLiteral m).hasLiteral insensitive y ↔
    s.hasLiteral insensitive y ∨ sameEntry insensitive m.value y := by
  by_cases present : s.literalValues.any fun w => deepEqual w m.value
  · rw [addLiteral, if_pos present]
    refine ⟨.inl, fun either => either.elim id fun same => ?_⟩
    obtain ⟨w, member, equal⟩ := List.any_eq_true.mp present
    exact hasLiteral_iff.mpr ⟨w, member, sameEntry_of_equal (tidy same) equal same⟩
  · rw [addLiteral, if_neg present]
    simp [hasLiteral_iff, literalValues, or_and_right, exists_or]

theorem hasLiteral_add (tidy : sameEntry insensitive m.value y → m.value.isTidy) : (s.add m).hasLiteral insensitive y ↔
    s.hasLiteral insensitive y ∨ m.isRef = false ∧ sameEntry insensitive m.value y := by
  cases m with
  | literal v =>
      show (s.addLiteral (.literal v)).hasLiteral insensitive y ↔ _
      rw [hasLiteral_addLiteral tidy]
      simp [Member.isRef]
  | ref r =>
      have same : (s.add (.ref r)).literals = s.literals := by
        rcases add_refs r s with same | ⟨-, entered⟩
        · rw [same]
        · rw [entered]
      simp [hasLiteral_iff, literalValues, same, Member.isRef]

theorem hasLiteral_foldl {step : ValueSet → Member → ValueSet} {admits counts : Member → Prop} (admitted : ∀ m ∈ ms, admits m)
    (each : ∀ s m, admits m → ((step s m).hasLiteral insensitive y ↔ s.hasLiteral insensitive y ∨ counts m)) :
    (ms.foldl step s).hasLiteral insensitive y ↔ s.hasLiteral insensitive y ∨ ∃ m ∈ ms, counts m := by
  induction ms generalizing s with
  | nil => simp
  | cons m ms ih =>
      obtain ⟨here, rest⟩ := List.forall_mem_cons.mp admitted
      rw [List.foldl_cons, ih rest, each s m here, or_assoc, List.exists_mem_cons_iff]

theorem hasLiteral_ofList (tidy : ∀ m ∈ ms, m.value.isTidy) :
    (ofList ms).hasLiteral insensitive y ↔ ∃ m ∈ ms, sameEntry insensitive m.value y := by
  have step : ∀ (s : ValueSet) (m : Member), m.value.isTidy →
      ((s.addLiteral m).hasLiteral insensitive y ↔ s.hasLiteral insensitive y ∨ sameEntry insensitive m.value y) :=
    fun s m tidy => hasLiteral_addLiteral fun _ => tidy
  rw [ofList, ofLists, hasLiteral_foldl tidy step]
  exact or_iff_right Bool.false_ne_true

theorem hasLiteral_inTurn (tidy : ∀ m ∈ ms, m.value.isTidy) : (inTurn ms).hasLiteral insensitive y ↔
    ∃ m ∈ ms, m.isRef = false ∧ sameEntry insensitive m.value y := by
  have step : ∀ (s : ValueSet) (m : Member), m.value.isTidy → ((s.add m).hasLiteral insensitive y ↔
      s.hasLiteral insensitive y ∨ m.isRef = false ∧ sameEntry insensitive m.value y) :=
    fun s m tidy => hasLiteral_add fun _ => tidy
  rw [inTurn, hasLiteral_foldl tidy step]
  exact or_iff_right Bool.false_ne_true

/-! ## What the references answer -/

theorem addLiteral_refs (m : Member) (s : ValueSet) : (s.addLiteral m).refs = s.refs := by
  rw [addLiteral]
  split <;> rfl

theorem ofList_refs (ms : List Member) : (ofList ms).refs = [] := by
  rw [ofList]
  induction ms using List.reverseRecOn with
  | nil => rfl
  | append_singleton ms m ih => rw [ofLists_snoc, addLiteral_refs, ih]

theorem addRef_refs (r : Reference) (same : s.refs = t.refs) : (s.addRef r).refs = (t.addRef r).refs := by
  rw [addRef, addRef, same]
  split
  · exact same
  · rfl

/-- The references of a set are those that are there when the references alone are added. -/
theorem inTurn_refs (ms : List Member) : (inTurn ms).refs = (inTurn (ms.filter Member.isRef)).refs := by
  have run : ∀ s t : ValueSet, s.refs = t.refs → (ms.foldl (fun s m => s.add m) s).refs =
      ((ms.filter Member.isRef).foldl (fun s m => s.add m) t).refs := by
    induction ms with
    | nil => exact fun s t same => same
    | cons m ms ih =>
        intro s t same
        cases m with
        | literal v => exact ih _ _ ((addLiteral_refs _ s).trans same)
        | ref r => exact ih _ _ (addRef_refs r same)
  exact run {} {} rfl

variable {resolve : Reference → Except Fault Value}

theorem has_entered (entered : s.hasLiteral insensitive y) : s.has resolve insensitive y = .ok true := by
  obtain ⟨v, found⟩ := Option.isSome_iff_exists.mp entered
  rw [has, lookup, found]
  rfl

theorem has_missing (missing : s.hasLiteral insensitive y = false) : s.has resolve insensitive y =
    (return (← lookup.inRefs resolve insensitive y s.refs).isSome) := by
  have none : s.findLiteral? insensitive y = none := by
    rw [← Option.isNone_iff_eq_none, ← Option.isSome_eq_false_iff]
    exact missing
  rw [has, lookup, none]

theorem has_of_refs (first : s.hasLiteral insensitive y = false) (second : t.hasLiteral insensitive y = false)
    (same : s.refs = t.refs) : s.has resolve insensitive y = t.has resolve insensitive y := by
  rw [has_missing first, has_missing second, same]

theorem lookup_alone (alone : s.refs = []) : s.lookup resolve insensitive y =
    .ok ((s.findLiteral? insensitive y).map fun v => ⟨v, none⟩) := by
  rw [lookup, alone]
  cases s.findLiteral? insensitive y <;> rfl

theorem has_alone (alone : s.refs = []) : s.has resolve insensitive y = .ok (s.hasLiteral insensitive y) := by
  cases known : s.hasLiteral insensitive y with
  | true => exact has_entered known
  | false =>
      rw [has_missing known, alone]
      rfl

theorem has_ofList (tidy : ∀ m ∈ ms, m.value.isTidy) :
    (ofList ms).has resolve insensitive y = .ok (ms.any fun m => sameEntry insensitive m.value y) := by
  rw [has_alone (ofList_refs ms)]
  congr 1
  rw [Bool.eq_iff_iff, hasLiteral_ofList tidy, List.any_eq_true]

theorem has_inTurn_missing (tidy : ∀ m ∈ ms, m.value.isTidy)
    (none : ∀ m ∈ ms, m.isRef = false → sameEntry insensitive m.value y = false) :
    (inTurn ms).has resolve insensitive y = (inTurn (ms.filter Member.isRef)).has resolve insensitive y := by
  have unknown : ∀ ns : List Member, (∀ n ∈ ns, n ∈ ms) → (inTurn ns).hasLiteral insensitive y = false := by
    intro ns among
    refine Bool.eq_false_iff.mpr fun known => ?_
    obtain ⟨n, member, plain, same⟩ := (hasLiteral_inTurn fun n member => tidy n (among n member)).mp known
    exact Bool.false_ne_true ((none n (among n member) plain).symm.trans same)
  apply has_of_refs
  · exact unknown ms fun n member => member
  · exact unknown _ fun n member => (List.mem_filter.mp member).1
  · exact inTurn_refs ms

/-- Merged sets of one member and joined sets to which the member was added are the set with each member added in turn,
and joined sets of a listed member are the set of the list. Both sets give the same answer exactly if a value among the
members equals what is looked up, or the references answer as they do when they are compared with it themselves. -/
theorem construction_agrees_iff (tidy : ∀ m ∈ ms, m.value.isTidy) :
    (joined added ms = .ok (inTurn ms) ∧ merged added ms = inTurn ms ∧ merged listed ms = inTurn ms ∧
      joined listed ms = .ok (ofList ms)) ∧
    ((ofList ms).has resolve insensitive y = (inTurn ms).has resolve insensitive y ↔
      (∃ v, .literal v ∈ ms ∧ sameEntry insensitive v y) ∨
        (inTurn (ms.filter Member.isRef)).has resolve insensitive y =
          .ok ((ms.filter Member.isRef).any fun m => sameEntry insensitive m.value y)) := by
  refine ⟨⟨joined_added ms, merged_eq_inTurn members_added ms, merged_eq_inTurn members_listed ms, joined_listed ms⟩, ?_⟩
  rw [has_ofList tidy]
  -- A value among the members answers in both sets alike; without one both answers are those of the references.
  by_cases literal : ∃ v, .literal v ∈ ms ∧ sameEntry insensitive v y
  · obtain ⟨v, member, same⟩ := literal
    have known := (hasLiteral_inTurn tidy).mpr ⟨_, member, rfl, same⟩
    rw [has_entered known, List.any_eq_true.mpr ⟨_, member, same⟩]
    exact iff_of_true rfl (.inl ⟨v, member, same⟩)
  · have none : ∀ m ∈ ms, m.isRef = false → sameEntry insensitive m.value y = false := by
      intro m member plain
      cases m with
      | literal v => exact Bool.eq_false_iff.mpr fun same => literal ⟨v, member, same⟩
      | ref r => cases plain
    have asked : (ms.any fun m => sameEntry insensitive m.value y) =
        (ms.filter Member.isRef).any fun m => sameEntry insensitive m.value y := by
      rw [List.any_filter, Bool.eq_iff_iff, List.any_eq_true, List.any_eq_true]
      refine exists_congr fun m => and_congr_right fun member => ?_
      cases plain : m.isRef with
      | true => rw [Bool.true_and]
      | false => rw [none m member plain, Bool.false_and]
    rw [or_iff_right literal, asked, has_inTurn_missing tidy none]
    exact eq_comm

/-- Beside a value that answers, a reference does not matter. -/
theorem one_found_beside_reference :
    let ms := [.ref siblingReference, .literal (.int 1)]
    (∀ m ∈ ms, m.value.isTidy) ∧ ∀ resolve, (ofList ms).has resolve false (.int 1) = (inTurn ms).has resolve false (.int 1) := by
  intro ms
  have tidy : ∀ m ∈ ms, m.value.isTidy := by simp [ms, Member.value, isTidy]
  refine ⟨tidy, fun resolve => (construction_agrees_iff tidy).2.mpr (.inl ⟨.int 1, ?_, rfl⟩)⟩
  exact List.mem_cons_of_mem _ (List.mem_singleton_self _)

/-- A listed reference to a five is not resolved. The same reference finds the five when it is added or merged. -/
theorem listed_reference_unresolved :
    let resolve := fun r : Reference =>
      r.resolve (fun _ v => .ok v) none none (.int 5) ⟨[.str "b"], [.dict [(.str "k", .int 5)]]⟩
    let ms := [.ref siblingReference]
    (ofList ms).has resolve false (.int 5) = .ok false ∧ (inTurn ms).has resolve false (.int 5) = .ok true ∧
      (merged listed ms).has resolve false (.int 5) = .ok true :=
  ⟨rfl, rfl, rfl⟩

end ValueSet

end Conform
