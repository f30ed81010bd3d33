import Conform.Preferences
import Conform.Proofs.Datum.Entries

/-!
# Overrides of preferences

An override is valid if each of its entries sets an option to a value of its type. An override that names neither
messages nor a context leaves both as they were.
-/

namespace Conform.Preferences

/-! ## Valid entries -/

/-- An entry that sets an option other than the context to a value of its type. -/
def Admits (e : Value × Value) : Prop :=
  ∃ name type, e.1 = .str name ∧ name ≠ "context" ∧ options.lookup name = some type ∧ optionMistakes name e.2 type = []

theorem options_lookup : ∀ p ∈ options, options.lookup p.1 = some p.2 := by
  simp only [options, List.forall_mem_cons]
  exact ⟨rfl, rfl, rfl, rfl, rfl, rfl, rfl, rfl, rfl, rfl, rfl, rfl, rfl, nofun⟩

theorem foldl_isSome {α β : Type} {f : Option β → α → Option β} (gives : ∀ best a, (f best a).isSome) (x : α)
    (xs : List α) (best : Option β) : ((x :: xs).foldl f best).isSome := by
  induction xs generalizing x best with
  | nil => exact gives best x
  | cons y ys ih => exact ih y (f best x)

theorem shallowest?_eq_none {ms : List Mistake} : shallowest? ms = none ↔ ms = [] := by
  cases ms with
  | nil => exact ⟨fun _ => rfl, fun _ => rfl⟩
  | cons m ms =>
      have found : (shallowest? (m :: ms)).isSome := by
        refine foldl_isSome (fun best a => ?_) m ms none
        cases best with
        | none => rfl
        | some b =>
            simp only
            split <;> rfl
      constructor
      · intro absent
        simp [absent] at found
      · exact nofun

theorem check_eq_ok {o : Dict} : check o = .ok () ↔ mistakes o = [] := by
  rw [← shallowest?_eq_none]
  unfold check
  cases shallowest? (mistakes o) <;> simp

theorem strangerMistakes_eq_nil {o : Dict} :
    strangerMistakes o = [] ↔ ∀ e ∈ o, ∃ name, e.1 = .str name ∧ (options.lookup name).isSome := by
  have known : ∀ name, (options.any fun p => p.1 == name) = (options.lookup name).isSome := by
    intro name
    induction options with
    | nil => rfl
    | cons p ps ih =>
        rw [List.any_cons, ih, List.lookup_cons, Bool.beq_comm]
        cases name == p.1 <;> rfl
  have listed : strangerMistakes o = [] ↔ strangers o = [] := by
    unfold strangerMistakes
    cases strangers o with
    | nil => simp
    | cons k ks => simp
  -- The strangers are sorted before they are told, which plays no part in whether there are any.
  rw [listed, strangers, ← List.length_eq_zero_iff, List.length_mergeSort, List.length_eq_zero_iff,
    List.filter_eq_nil_iff]
  constructor
  · intro each e member
    have ours := each e.1 (List.mem_map_of_mem member)
    cases key : e.1 with
    | str name =>
        rw [key] at ours
        exact ⟨name, rfl, by simpa [known] using ours⟩
    | _ => simp [key] at ours
  · intro each k member
    obtain ⟨e, inside, rfl⟩ := List.mem_map.mp member
    obtain ⟨name, key, option⟩ := each e inside
    simp [key, known, option]

theorem find?_text {name : String} {o : Dict} {v : Value} (found : Datum.find? (.str name) o = some v) :
    (.str name, v) ∈ o := by
  induction o with
  | nil => cases found
  | cons e o ih =>
      obtain ⟨j, w⟩ := e
      rw [Datum.find?] at found
      split at found
      · rename_i same
        rw [Datum.sameKey_str.mp same, Option.some.inj found]
        simp
      · exact List.mem_cons_of_mem _ (ih found)

theorem find?_of_mem {name : String} {o : Dict} {v : Value} (distinct : (o.map Prod.fst).Nodup)
    (member : (.str name, v) ∈ o) : Datum.find? (.str name) o = some v := by
  induction o with
  | nil => cases member
  | cons e o ih =>
      obtain ⟨j, w⟩ := e
      rw [List.map_cons, List.nodup_cons] at distinct
      rw [Datum.find?]
      rcases List.mem_cons.mp member with same | below
      · cases same
        rw [if_pos (Datum.sameKey_str.mpr rfl)]
      · rw [if_neg, ih distinct.2 below]
        intro same
        obtain rfl := Datum.sameKey_str.mp same
        exact distinct.1 (List.mem_map.mpr ⟨_, below, rfl⟩)

theorem check_of_admits {o : Dict} (admits : ∀ e ∈ o, Admits e) : check o = .ok () := by
  rw [check_eq_ok, mistakes, List.append_eq_nil_iff, strangerMistakes_eq_nil, List.flatMap_eq_nil_iff]
  constructor
  · intro e member
    obtain ⟨name, type, key, -, option, -⟩ := admits e member
    exact ⟨name, key, option ▸ rfl⟩
  · rintro ⟨name, type⟩ member
    simp only
    split
    · rename_i v found
      obtain ⟨other, type', key, -, option, fine⟩ := admits (.str name, v) (find?_text found)
      obtain rfl : name = other := Datum.str.inj key
      obtain rfl : type = type' := Option.some.inj ((options_lookup (name, type) member).symm.trans option)
      exact fine
    · rfl

theorem merge_of_admits {o : Dict} (admits : ∀ e ∈ o, Admits e) (p : Preferences) :
    p.merge o = .ok (o.foldl setEntry p) := by
  unfold merge
  rw [check_of_admits admits]
  cases o <;> rfl

theorem admits_of_check {o : Dict} (checked : check o = .ok ()) (distinct : (o.map Prod.fst).Nodup)
    (context : Datum.hasKey (.str "context") o = false) : ∀ e ∈ o, Admits e := by
  rw [check_eq_ok, mistakes, List.append_eq_nil_iff, strangerMistakes_eq_nil, List.flatMap_eq_nil_iff] at checked
  intro e member
  obtain ⟨name, key, option⟩ := checked.1 e member
  obtain ⟨type, option⟩ := Option.isSome_iff_exists.mp option
  have found : Datum.find? (.str name) o = some e.2 := find?_of_mem distinct (key ▸ member)
  refine ⟨name, type, key, ?_, option, ?_⟩
  · rintro rfl
    simp [Datum.hasKey, found] at context
  · obtain ⟨before, after, split, -⟩ := List.lookup_eq_some_iff.mp option
    have fine := checked.2 (name, type) (by simp [split])
    simpa only [found] using fine

theorem mem_insert_text {name : String} {v : Value} {o : Dict} {e : Value × Value}
    (member : e ∈ Datum.insert (.str name) v o) : e ∈ o ∨ e = (.str name, v) := by
  induction o with
  | nil => exact .inr (List.mem_singleton.mp member)
  | cons d o ih =>
      obtain ⟨j, w⟩ := d
      rw [Datum.insert] at member
      split at member
      · rename_i same
        rcases List.mem_cons.mp member with rfl | old
        · exact .inr (by rw [Datum.sameKey_str.mp same])
        · exact .inl (List.mem_cons_of_mem _ old)
      · rcases List.mem_cons.mp member with rfl | rest
        · exact .inl (List.mem_cons_self ..)
        · exact (ih rest).imp_left (List.mem_cons_of_mem _)

theorem admits_merge {o p : Dict} (below : ∀ e ∈ o, Admits e) (above : ∀ e ∈ p, Admits e) :
    ∀ e ∈ Datum.mergeEntries o p, Admits e := by
  unfold Datum.mergeEntries
  induction p generalizing o with
  | nil => exact below
  | cons d p ih =>
      rw [List.foldl_cons]
      refine ih (fun e member => ?_) fun e member => above e (by simp [member])
      obtain ⟨name, type, key, context, option, fine⟩ := above d (by simp)
      rw [key] at member
      rcases mem_insert_text member with old | rfl
      · exact below e old
      · exact ⟨name, type, rfl, context, option, fine⟩

theorem context_of_admits {o : Dict} (admits : ∀ e ∈ o, Admits e) : Datum.hasKey (.str "context") o = false := by
  unfold Datum.hasKey
  cases found : Datum.find? (.str "context") o with
  | none => rfl
  | some v =>
      obtain ⟨name, type, key, context, -⟩ := admits _ (find?_text found)
      exact absurd (Datum.str.inj key).symm context

/-! ## What an override leaves -/

theorem setOption_keeps (p : Preferences) {name : String} (v : Value) (messages : name ≠ "messages")
    (context : name ≠ "context") :
    (p.setOption name v).messages = p.messages ∧ (p.setOption name v).context = p.context := by
  unfold setOption
  split
  all_goals first
    | exact ⟨rfl, rfl⟩
    | exact absurd rfl messages
    | exact absurd rfl context

theorem setOption_externals (p : Preferences) {name : String} (v : Value) (other : name ≠ "externals") :
    (p.setOption name v).externals = p.externals := by
  unfold setOption
  split
  all_goals first
    | rfl
    | exact absurd rfl other

theorem not_named {name : String} {o : Dict} (absent : Datum.hasKey (.str name) o = false) : ∀ e ∈ o, e.1 ≠ .str name := by
  rintro ⟨j, v⟩ member rfl
  induction o with
  | nil => cases member
  | cons d o ih =>
      unfold Datum.hasKey at absent ih
      rw [Datum.find?] at absent
      split at absent
      · cases absent
      · rename_i different
        rcases List.mem_cons.mp member with rfl | rest
        · exact different (Datum.isKey_str name).itself
        · exact ih absent rest

/-- What no entry of an override changes stays. -/
theorem setEntries_leaves {α : Type} {read : Preferences → α} {o : Dict}
    (leaves : ∀ e ∈ o, ∀ (p : Preferences) name, e.1 = .str name → read (p.setOption name e.2) = read p)
    (p : Preferences) : read (o.foldl setEntry p) = read p := by
  induction o generalizing p with
  | nil => rfl
  | cons e o ih =>
      have head : read (setEntry p e) = read p := by
        unfold setEntry
        split
        · rename_i name same
          exact leaves e (List.mem_cons_self ..) p name same
        · rfl
      exact (ih (fun d member => leaves d (List.mem_cons_of_mem _ member)) _).trans head

theorem merge_externals {p q : Preferences} {o : Dict} (merged : p.merge o = .ok q)
    (unnamed : Datum.hasKey (.str "externals") o = false) : q.externals = p.externals := by
  have entries : (o.foldl setEntry p).externals = p.externals := setEntries_leaves
    (fun e member p name key => setOption_externals p e.2 fun is => not_named unnamed e member (is ▸ key)) p
  unfold merge at merged
  split at merged
  · cases merged
    rfl
  · cases checked : check o with
    | error f => simp [checked, bind, Except.bind] at merged
    | ok u =>
        rw [checked] at merged
        cases merged
        exact entries

end Conform.Preferences
