import Mathlib.Data.List.Basic
import Conform.Text.Blank
import Conform.Text.Case

/-!
# Texts in one case

A mapping of characters sends no character of its image elsewhere, so a text in lower or upper case is left as it is
by the same change, also after blanks are dropped.
-/

namespace Conform.Text

/-! ## Tables -/

namespace Shift

/-- The shift of one character. -/
def single (n : Nat) : Shift := ⟨n, n, 2, 0⟩

/-- The characters that a shift moves others to. -/
def target (s : Shift) : Shift := ⟨(s.first + s.delta).toNat, (s.last + s.delta).toNat, s.step, 0⟩

/-- Whether no character moves below zero or to a code that is no character. -/
def lands (s : Shift) : Bool :=
  0 ≤ s.first + s.delta && (s.last + s.delta < 0xd800 || 0xdfff < s.first + s.delta && s.last + s.delta < 0x110000)

/-- Whether the characters are beside or between those that another shift covers. -/
def clears (s t : Shift) : Bool :=
  Nat.ble (s.last + 1) t.first || Nat.ble (t.last + 1) s.first ||
    (Nat.beq s.first s.last || Nat.beq (s.step % 2) 0) && Nat.beq (t.step % 2) 0 && !Nat.beq (s.first % 2) (t.first % 2)

theorem covers_iff {s : Shift} {n : Nat} :
    s.covers n ↔ s.first ≤ n ∧ n ≤ s.last ∧ (n - s.first) % s.step = 0 := by
  simp [covers, and_assoc]

theorem single_covers {m n : Nat} : (single m).covers n ↔ n = m := by
  rw [covers_iff]
  show m ≤ n ∧ n ≤ m ∧ (n - m) % 2 = 0 ↔ n = m
  omega

theorem even_offset {n first step : Nat} (even : step % 2 = 0) (at_ : (n - first) % step = 0) :
    (n - first) % 2 = 0 := by
  obtain ⟨k, multiple⟩ := Nat.dvd_of_mod_eq_zero at_
  obtain ⟨l, half⟩ := Nat.dvd_of_mod_eq_zero even
  rw [multiple, half, Nat.mul_assoc, Nat.mul_mod_right]

theorem target_isChar {s : Shift} (lands : s.lands) {n : Nat} (covers : s.covers n) :
    (n + s.delta).toNat.isValidChar := by
  obtain ⟨lower, upper, -⟩ := covers_iff.mp covers
  simp only [Shift.lands, Bool.and_eq_true, Bool.or_eq_true, decide_eq_true_eq] at lands
  unfold Nat.isValidChar
  omega

theorem target_covers {s : Shift} (lands : s.lands) {n : Nat} (covers : s.covers n) :
    s.target.covers (n + s.delta).toNat := by
  obtain ⟨lower, upper, offset⟩ := covers_iff.mp covers
  simp only [Shift.lands, Bool.and_eq_true, decide_eq_true_eq] at lands
  have positive := lands.1
  refine covers_iff.mpr ⟨?_, ?_, ?_⟩
  · show (s.first + s.delta).toNat ≤ (n + s.delta).toNat
    omega
  · show (n + s.delta).toNat ≤ (s.last + s.delta).toNat
    omega
  · show ((n + s.delta).toNat - (s.first + s.delta).toNat) % s.step = 0
    have moved : (n + s.delta).toNat - (s.first + s.delta).toNat = n - s.first := by omega
    rw [moved, offset]

theorem clears_covers {s t : Shift} (clears : s.clears t) {n : Nat} (covers : s.covers n) : ¬ t.covers n := by
  intro covers'
  obtain ⟨lower, upper, offset⟩ := covers_iff.mp covers
  obtain ⟨lower', upper', offset'⟩ := covers_iff.mp covers'
  simp only [Shift.clears, Bool.or_eq_true, Bool.and_eq_true, Nat.ble_eq, Nat.beq_eq, Bool.not_eq_true',
    ← Bool.not_eq_true] at clears
  rcases clears with (below | above) | ⟨⟨spaced, spaced'⟩, odd⟩
  · omega
  · omega
  · have even : (n - s.first) % 2 = 0 := by
      rcases spaced with alone | even
      · omega
      · exact even_offset even offset
    have even' := even_offset spaced' offset'
    omega

end Shift

theorem toNat_ofNat {n : Nat} (isChar : n.isValidChar) : (Char.ofNat n).toNat = n := by
  rw [Char.ofNat, dif_pos isChar]
  rfl

/-- The images of the shifts and of the expansions. -/
def images (shifts : List Shift) (expansions : List (Nat × List Nat)) : List Shift :=
  shifts.map Shift.target ++ (expansions.flatMap Prod.snd).eraseDups.map Shift.single

def sources (shifts : List Shift) (expansions : List (Nat × List Nat)) : List Shift :=
  shifts ++ expansions.map fun e => Shift.single e.1

/-- Whether the tables send none of their images elsewhere. -/
def settles (shifts : List Shift) (expansions : List (Nat × List Nat)) : Bool :=
  shifts.all Shift.lands && (expansions.flatMap Prod.snd).all (fun n => n.isValidChar) &&
    (images shifts expansions).all fun s => (sources shifts expansions).all s.clears

theorem lower_settles : settles lowerShifts lowerExpansions := by decide +kernel

theorem upper_settles : settles upperShifts upperExpansions := by decide +kernel

section

variable {shifts : List Shift} {expansions : List (Nat × List Nat)}

theorem mapChar_uncovered {c : Char} (uncovered : ∀ s ∈ sources shifts expansions, ¬ s.covers c.toNat) :
    mapChar shifts expansions c = [c] := by
  have unlisted : expansions.find? (fun e => e.1 == c.toNat) = none := by
    rw [List.find?_eq_none]
    intro e member same
    apply uncovered (Shift.single e.1)
    · exact List.mem_append_right _ (List.mem_map_of_mem member)
    · exact Shift.single_covers.mpr (beq_iff_eq.mp same).symm
  have unshifted : shifts.find? (fun s => s.covers c.toNat) = none := by
    rw [List.find?_eq_none]
    exact fun s member => uncovered s (List.mem_append_left _ member)
  unfold mapChar
  rw [unlisted, unshifted]

theorem mapChar_settled (settled : settles shifts expansions) {c d : Char} (image : d ∈ mapChar shifts expansions c) :
    mapChar shifts expansions d = [d] := by
  simp only [settles, Bool.and_eq_true, List.all_eq_true, decide_eq_true_eq] at settled
  obtain ⟨⟨lands, valid⟩, clears⟩ := settled
  unfold mapChar at image
  cases expanded : expansions.find? (fun e => e.1 == c.toNat) with
  | some e =>
      rw [expanded] at image
      obtain ⟨m, member, rfl⟩ := List.mem_map.mp image
      have listed : m ∈ expansions.flatMap Prod.snd :=
        List.mem_flatMap.mpr ⟨e, List.mem_of_find?_eq_some expanded, member⟩
      have isImage : Shift.single m ∈ images shifts expansions :=
        List.mem_append_right _ (List.mem_map_of_mem (List.mem_eraseDups.mpr listed))
      apply mapChar_uncovered
      intro t isSource
      rw [toNat_ofNat (valid m listed)]
      exact Shift.clears_covers (clears _ isImage t isSource) (Shift.single_covers.mpr rfl)
  | none =>
      cases shifted : shifts.find? (fun s => s.covers c.toNat) with
      | some s =>
          simp only [expanded, shifted, List.mem_singleton] at image
          subst image
          have covers : s.covers c.toNat := by simpa using List.find?_some shifted
          have member := List.mem_of_find?_eq_some shifted
          have isImage : s.target ∈ images shifts expansions := List.mem_append_left _ (List.mem_map_of_mem member)
          apply mapChar_uncovered
          intro t isSource
          rw [toNat_ofNat (Shift.target_isChar (lands s member) covers)]
          exact Shift.clears_covers (clears _ isImage t isSource) (Shift.target_covers (lands s member) covers)
      | none =>
          simp only [expanded, shifted, List.mem_singleton] at image
          rw [image, mapChar, expanded, shifted]

end

/-! ## Texts -/

/-- A text that a mapping leaves as it is, character by character. -/
def Unmoved (shifts : List Shift) (expansions : List (Nat × List Nat)) (s : String) : Prop :=
  ∀ c ∈ s.toList, mapChar shifts expansions c = [c]

theorem Unmoved.trimBlanks {shifts : List Shift} {expansions : List (Nat × List Nat)} {s : String}
    (unmoved : Unmoved shifts expansions s) : Unmoved shifts expansions (trimBlanks s) := by
  intro c member
  apply unmoved
  rw [Text.trimBlanks, String.toList_ofList, List.mem_reverse] at member
  have inner := (List.dropWhile_suffix _).subset member
  exact (List.dropWhile_suffix _).subset (List.mem_reverse.mp inner)

theorem lower_unmoved (s : String) : Unmoved lowerShifts lowerExpansions (lower s) := by
  have each : ∀ (cs before : List Char), ∀ d ∈ lowerChars before cs, mapChar lowerShifts lowerExpansions d = [d] := by
    intro cs
    induction cs with
    | nil => exact fun _ => List.forall_mem_nil _
    | cons c cs ih =>
        intro before d member
        rw [lowerChars] at member
        rcases List.mem_append.mp member with here | rest
        · split at here
          · rw [List.mem_singleton] at here
            -- Either form of the letter is in lower case.
            split at here
            · exact here ▸ by decide +kernel
            · exact here ▸ by decide +kernel
          · exact mapChar_settled lower_settles here
        · exact ih _ d rest
  intro c member
  rw [lower, String.toList_ofList] at member
  exact each _ _ c member

theorem Unmoved.lower_eq {s : String} (unmoved : Unmoved lowerShifts lowerExpansions s) : lower s = s := by
  have kept : ∀ (cs before : List Char), (∀ c ∈ cs, mapChar lowerShifts lowerExpansions c = [c]) →
      lowerChars before cs = cs := by
    intro cs
    induction cs with
    | nil => exact fun _ _ => rfl
    | cons c cs ih =>
        intro before each
        obtain ⟨here, rest⟩ := List.forall_mem_cons.mp each
        have other : (c == 'Σ') = false := by
          apply beq_eq_false_iff_ne.mpr
          rintro rfl
          exact absurd here (by decide +kernel)
        rw [lowerChars, ih _ rest, other, here]
        rfl
  rw [lower, kept _ _ unmoved, String.ofList_toList]

theorem upper_unmoved (s : String) : Unmoved upperShifts upperExpansions (upper s) := by
  intro c member
  rw [upper, String.toList_ofList] at member
  obtain ⟨b, -, image⟩ := List.mem_flatMap.mp member
  exact mapChar_settled upper_settles image

theorem Unmoved.upper_eq {s : String} (unmoved : Unmoved upperShifts upperExpansions s) : upper s = s := by
  rw [upper, List.flatMap_congr unmoved, List.flatMap_singleton', String.ofList_toList]

/-! ## Folding -/

theorem mapChar_fold_ne_nil (c : Char) : mapChar foldShifts foldExpansions c ≠ [] := by
  unfold mapChar
  split
  · rename_i found
    have long : ∀ e ∈ foldExpansions, e.2 ≠ [] := by decide +kernel
    exact fun none => long _ (List.mem_of_find?_eq_some found) (List.map_eq_nil_iff.mp none)
  · split <;> exact List.cons_ne_nil _ _

theorem fold_eq_empty {s : String} (folded : fold s = "") : s = "" := by
  have none : s.toList.flatMap (mapChar foldShifts foldExpansions) = [] := by
    rw [← String.toList_ofList (l := s.toList.flatMap _)]
    exact congrArg String.toList folded
  have empty : s.toList = [] := by
    refine List.eq_nil_iff_forall_not_mem.mpr fun c member => mapChar_fold_ne_nil c ?_
    exact List.flatMap_eq_nil_iff.mp none c member
  rw [← String.ofList_toList (s := s), empty]

end Conform.Text
