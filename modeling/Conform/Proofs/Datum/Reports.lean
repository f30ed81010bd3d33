import Conform.Proofs.Answering
import Conform.Proofs.Datum.Copies

/-!
# Data without reports

Reports come to be while data are validated, and data from outside hold none. Nor do the data that are found in such
data, copied from them or converted.
-/

namespace Conform

namespace Entity

/-- Whether an entity is a report or a copy of one. -/
def isReport : Entity → Bool
  | report _ => true
  | copy _ e => e.isReport
  | _ => false

theorem isReport_copied (n : Nat) (e : Entity) : (e.copied n).isReport = e.isReport := by cases e <;> rfl

end Entity

namespace Datum

section

variable {α : Type} {p : α → Bool} {xs : List (Datum α)} {es : Entries α}

theorem allLeavesEach_iff : allLeavesEach p xs ↔ ∀ x ∈ xs, x.allLeaves p := by
  induction xs with
  | nil => simp [allLeavesEach]
  | cons x xs ih => simp [allLeavesEach, ih]

theorem allLeavesEntries_iff : allLeavesEntries p es ↔ ∀ e ∈ es, e.1.allLeaves p ∧ e.2.allLeaves p := by
  induction es with
  | nil => simp [allLeavesEntries]
  | cons e es ih => simp [allLeavesEntries, ih, and_assoc]

theorem mem_listed {x : Datum α} (member : x ∈ listed xs) : x ∈ xs := by
  unfold listed at member
  split at member
  · obtain ⟨e, paired, rfl⟩ := Listing.mem_bySlot member
    exact (List.of_mem_zip paired).2
  · exact member

mutual

theorem allLeaves_relisted (v : Datum α) (all : v.allLeaves p) : v.relisted.allLeaves p := by
  cases v with
  | list xs | tuple xs =>
      rw [allLeaves] at all
      rw [relisted, allLeaves]
      exact allLeaves_relistedEach xs all
  | set z xs =>
      rw [allLeaves] at all
      rw [relisted, allLeaves]
      have each := allLeavesEach_iff.mp (allLeaves_relistedEach xs all)
      exact allLeavesEach_iff.mpr fun x member => each x (mem_listed member)
  | dict es =>
      rw [allLeaves] at all
      rw [relisted, allLeaves]
      exact allLeaves_relistedEntries es all
  | _ => exact all

theorem allLeaves_relistedEach : ∀ xs : List (Datum α), allLeavesEach p xs → allLeavesEach p (relistedEach xs)
  | [], _ => rfl
  | x :: xs, all => by
      rw [allLeavesEach, Bool.and_eq_true] at all
      rw [relistedEach, allLeavesEach, Bool.and_eq_true]
      exact ⟨allLeaves_relisted x all.1, allLeaves_relistedEach xs all.2⟩

theorem allLeaves_relistedEntries : ∀ es : Entries α, allLeavesEntries p es → allLeavesEntries p (relistedEntries es)
  | [], _ => rfl
  | (k, v) :: es, all => by
      simp only [allLeavesEntries, Bool.and_eq_true] at all
      simp only [relistedEntries, allLeavesEntries, Bool.and_eq_true]
      exact ⟨⟨allLeaves_relisted k all.1.1, allLeaves_relisted v all.1.2⟩, allLeaves_relistedEntries es all.2⟩

end

end

/-- Whether there is no report in a datum. -/
def isReportFree (v : Value) : Bool := v.allLeaves fun e => !e.isReport

variable {v w k : Value} {xs : List Value} {es : Dict}

theorem isReportFree_list : (list xs).isReportFree ↔ ∀ x ∈ xs, x.isReportFree := by
  rw [isReportFree, allLeaves, allLeavesEach_iff]
  rfl

theorem isReportFree_tuple : (tuple xs).isReportFree ↔ ∀ x ∈ xs, x.isReportFree := by
  rw [isReportFree, allLeaves, allLeavesEach_iff]
  rfl

theorem isReportFree_dict : (dict es).isReportFree ↔ ∀ e ∈ es, e.1.isReportFree ∧ e.2.isReportFree := by
  rw [isReportFree, allLeaves, allLeavesEntries_iff]
  rfl

theorem isReportFree_copy {n : Nat} (free : v.isReportFree) (copy : v.copy n = .ok w) : w.isReportFree := by
  unfold Datum.copy at copy
  split at copy
  · obtain rfl := Except.ok.inj copy
    apply allLeaves_relisted
    rw [allLeaves_map]
    simp only [Entity.isReport_copied]
    exact free
  · cases copy

theorem isReportFree_find? (free : ∀ e ∈ es, e.1.isReportFree ∧ e.2.isReportFree) (k : Value) :
    ((find? k es).getD .undefined).isReportFree := by
  cases found : find? k es with
  | none => rfl
  | some v =>
      obtain ⟨j, member⟩ := find?_mem found
      exact (free _ member).2

end Datum

variable {v w : Value}

theorem isReportFree_step {k : Value} (free : v.isReportFree) (found : step v k = .ok w) : w.isReportFree := by
  have item : ∀ xs : List Value, (∀ x ∈ xs, x.isReportFree) →
      ((index? k).map fun i => (i.bind (itemAt? xs)).getD .undefined) = .ok w → w.isReportFree := by
    intro xs each found
    cases index : index? k with
    | error f => simp [index, Except.map] at found
    | ok i =>
        rw [index] at found
        obtain rfl := Except.ok.inj found
        simp only
        cases at_ : i.bind (itemAt? xs) with
        | none => rfl
        | some x =>
            obtain ⟨j, -, here⟩ := Option.bind_eq_some_iff.mp at_
            exact each x (Bounds.itemAt?_mem here)
  cases v with
  | list xs => exact item xs (Datum.isReportFree_list.mp free) found
  | tuple xs => exact item xs (Datum.isReportFree_tuple.mp free) found
  | dict es =>
      rw [step] at found
      split at found
      · exact Except.ok.inj found ▸ Datum.isReportFree_find? (Datum.isReportFree_dict.mp free) k
      · cases found
  | _ =>
      obtain rfl := Except.ok.inj found
      rfl

theorem isReportFree_reach {p : Path} (free : v.isReportFree) (found : reach v p = .ok w) : w.isReportFree := by
  induction p generalizing v with
  | nil => exact Except.ok.inj found ▸ free
  | cons k p ih =>
      unfold reach at found
      rw [List.foldlM_cons] at found
      cases stepped : step v k with
      | error f => simp [stepped, bind, Except.bind] at found
      | ok u =>
          rw [stepped] at found
          exact ih (isReportFree_step free stepped) found

/-! ## Conversions -/

theorem isReportFree_prepare {kind : Kind} {f : Frame} {o : Outcome} (prepared : prepare kind f v = some o) :
    o.value.isReportFree := by
  unfold prepare at prepared
  split at prepared
  · split at prepared
    · cases prepared
      rfl
    · cases prepared
      rfl
    · cases prepared
  · cases prepared

theorem isReportFree_coerce {core : Core} {content : Content} {f : Frame} {o : Outcome}
    (coerced : coerce core content f v = some o) : o.value.isReportFree := by
  cases content with
  | number =>
      obtain ⟨w, read, rfl⟩ := Option.map_eq_some_iff.mp coerced
      unfold coerceNumber at read
      split at read
      · obtain ⟨n, -, rfl⟩ := Option.map_eq_some_iff.mp read
        cases n <;> rfl
      · cases read
  | string =>
      obtain ⟨w, read, rfl⟩ := Option.map_eq_some_iff.mp coerced
      unfold coerceString at read
      split at read
      · cases read
        rfl
      · cases read
  | boolean truthy falsy =>
      obtain ⟨w, read, rfl⟩ := Option.map_eq_some_iff.mp coerced
      cases v with
      | str | int | float =>
          obtain ⟨b, -, rfl⟩ := Option.map_eq_some_iff.mp read
          rfl
      | _ => cases read
  | probe =>
      cases v with
      | str s =>
          simp only [coerce, coerceProbe] at coerced
          split at coerced
          · cases coerced
            rfl
          · cases coerced
      | int n =>
          cases coerced
          rfl
      | _ => cases coerced
  | _ => cases coerced

theorem isReportFree_cast {kind : Kind} {form : Cast} (free : v.isReportFree) (cast : castValue kind form v = .ok w) :
    w.isReportFree := by
  unfold castValue at cast
  split at cast
  · cases number : Datum.isNumber v with
    | error f => simp [number, bind, Except.bind] at cast
    | ok b =>
        simp only [number, bind, Except.bind, pure, Except.pure] at cast
        cases b with
        | true =>
            cases cast
            rfl
        | false =>
            cases cast
            exact free
  · cases cast
    rfl
  · rename_i b
    cases b <;> cases cast <;> rfl
  · cases cast
    rfl
  · cases cast
    exact free

/-! ## Answers of rules -/

theorem Reply.normal_free (free : v.isReportFree) : (Reply.value v).normal = .value v := by
  have none : Reply.reports? v = none := by
    cases v with
    | leaf e =>
        cases e with
        | report r => cases free
        | _ => rfl
    | list xs =>
        cases xs with
        | nil => rfl
        | cons x xs =>
            have head := Datum.isReportFree_list.mp free x (List.mem_cons_self ..)
            rw [Reply.reports?, List.mapM_cons]
            cases x with
            | leaf e =>
                cases e with
                | report r => cases head
                | _ => rfl
            | _ => rfl
    | _ => rfl
  rw [Reply.normal, none]

end Conform
