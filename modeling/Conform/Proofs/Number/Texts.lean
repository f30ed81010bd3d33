import Mathlib.Algebra.Order.Ring.Nat
import Conform.Proofs.Strict.Nodes
import Conform.Proofs.Text.Blank
import Conform.Proofs.Validation.Accepted

/-!
# The texts of integers

An integer that fits a float is written digit by digit. Read back, with blanks around it or a sign in front, its text
is a numeral of digits alone, and so it is the integer itself and no float near it.
-/

namespace Conform

namespace Text

theorem isDigit_bounds {c : Char} (digit : c.isDigit) : 48 ≤ c.toNat ∧ c.toNat ≤ 57 :=
  Char.isDigit_iff_toNat.mp digit

theorem digitValue?_of_isDigit {c : Char} (digit : c.isDigit) : digitValue? c = some (c.toNat - '0'.toNat) := by
  obtain ⟨low, high⟩ := isDigit_bounds digit
  have value : (c.toNat - 48) % 10 = c.toNat - '0'.toNat := Nat.mod_eq_of_lt (by omega)
  unfold digitValue? decimalRanges
  rw [List.find?_cons_of_pos (by simp [low, high]), Option.map_some, value]

theorem isBlank_of_isDigit {c : Char} (digit : c.isDigit) : isBlank c = false := by
  obtain ⟨low, high⟩ := isDigit_bounds digit
  simp [isBlank, blankRanges, inRanges]
  omega

end Text

/-! ## Numerals of digits alone -/

namespace Numeral

theorem digits_of_isDigit {cs : List Char} (all : ∀ c ∈ cs, c.isDigit) :
    digits cs = (cs.map fun c => c.toNat - '0'.toNat, []) := by
  induction cs with
  | nil => rfl
  | cons c cs ih =>
      obtain ⟨here, rest⟩ := List.forall_mem_cons.mp all
      simp only [digits, Text.digitValue?_of_isDigit here, ih rest, List.map_cons]

/-- The numeral that writes an integer. -/
def natural (negative : Bool) (m : Nat) : Numeral where
  negative
  whole := (Nat.toDigits 10 m).map fun c => c.toNat - '0'.toNat
  fraction := none
  exponent := none

theorem isDigit_toDigits {m : Nat} {c : Char} (member : c ∈ Nat.toDigits 10 m) : c.isDigit :=
  Nat.isDigit_of_mem_toDigits (by decide) (by decide) member

theorem ofChars?_of_sign {cs : List Char} {negative : Bool} {m : Nat}
    (signed : sign cs = (negative, Nat.toDigits 10 m)) : ofChars? cs = some (natural negative m) := by
  have read := digits_of_isDigit fun c => isDigit_toDigits (m := m) (c := c)
  unfold ofChars?
  rw [signed]
  simp only [read]
  simp [exponentPart?, natural]

theorem sign_toDigits (m : Nat) : sign (Nat.toDigits 10 m) = (false, Nat.toDigits 10 m) := by
  cases chars : Nat.toDigits 10 m with
  | nil => rfl
  | cons c cs =>
      have digit : c.isDigit := isDigit_toDigits (chars ▸ List.mem_cons_self)
      unfold sign
      split
      · cases ‹c :: cs = _›
        cases digit
      · cases ‹c :: cs = _›
        cases digit
      · rfl

theorem toInt?_natural {m : Nat} (short : m < 10 ^ maxIntegerDigits) (negative : Bool) :
    (natural negative m).toInt? = some (if negative then -(m : Int) else m) := by
  have value : ofDigits (natural negative m).whole = m := by
    rw [ofDigits, natural, List.foldl_map, ← Nat.ofDigitChars_eq_foldl]
    exact Nat.ofDigitChars_ten_toDigits
  have length : (natural negative m).whole.length ≤ maxIntegerDigits := by
    rw [natural, List.length_map]
    exact (Nat.length_toDigits_le_iff (by decide) (by decide)).mpr short
  show (if (natural negative m).whole.length ≤ maxIntegerDigits then
    some (if negative then -(ofDigits (natural negative m).whole : Int) else ofDigits (natural negative m).whole) else none) = _
  rw [if_pos length, value]

end Numeral

/-! ## Integers that fit a float -/

namespace Binary64

theorem binaryExponent_whole {num : Nat} (nonzero : num ≠ 0) : binaryExponent num 1 = Nat.log2 num := by
  have log : (Nat.log2 num : Int) - Nat.log2 1 = Nat.log2 num := by
    rw [show Nat.log2 1 = 0 by decide]
    omega
  have above : ¬ num < 1 * Nat.pow 2 (Nat.log2 num) := by
    rw [Nat.one_mul, Nat.not_lt]
    exact Nat.log2_self_le nonzero
  unfold binaryExponent
  simp only [log, Int.natCast_nonneg, if_true, Int.toNat_natCast, above, if_false]

theorem ofQuotient_large (negative : Bool) {num : Nat} (large : 1024 ≤ Nat.log2 num) :
    ofQuotient negative num 1 = .infinity negative := by
  have nonzero : num ≠ 0 := by
    rintro rfl
    simp at large
  have exponent : maxExponent < max (binaryExponent num 1 - 52) minExponent := by
    rw [binaryExponent_whole nonzero, maxExponent]
    omega
  unfold ofQuotient
  rw [if_neg nonzero]
  generalize max (binaryExponent num 1 - 52) minExponent = q at exponent
  simp only
  generalize (if 0 ≤ q then roundDiv num (1 * Nat.pow 2 q.toNat) else roundDiv (num * Nat.pow 2 (-q).toNat) 1) = m
  by_cases carried : m = Nat.pow 2 53
  · rw [if_pos carried, if_pos (Int.lt_add_one_of_le (Int.le_of_lt exponent))]
  · rw [if_neg carried, if_pos exponent]

theorem log2_lt {n : Int} (fits : (ofInt? n).isSome) : Nat.log2 n.natAbs < 1024 := by
  by_contra large
  unfold ofInt? at fits
  rw [ofQuotient_large _ (Nat.le_of_not_lt large)] at fits
  cases fits

theorem short_of_fits {n : Int} (fits : (ofInt? n).isSome) : n.natAbs < 10 ^ Numeral.maxIntegerDigits := by
  have digits : n.natAbs.log2 + 1 ≤ Numeral.maxIntegerDigits :=
    (log2_lt fits).trans_le (by decide)
  calc n.natAbs
    _ < 2 ^ (n.natAbs.log2 + 1) := Nat.lt_log2_self
    _ ≤ 10 ^ (n.natAbs.log2 + 1) := Nat.pow_le_pow_left (by decide) _
    _ ≤ 10 ^ Numeral.maxIntegerDigits := Nat.pow_le_pow_right (by decide) digits

end Binary64

/-! ## Written and read back -/

theorem toList_toString (n : Int) :
    (toString n).toList = if n < 0 then '-' :: Nat.toDigits 10 n.natAbs else Nat.toDigits 10 n.natAbs := by
  rw [Int.toString_eq_repr, Int.repr_eq_if]
  by_cases negative : n < 0
  · have size : (-n).toNat = n.natAbs := by omega
    rw [if_neg (not_le.mpr negative), if_pos negative, size, Nat.repr_eq_ofList_toDigits]
    simp
  · have size : n.toNat = n.natAbs := by omega
    rw [if_pos (not_lt.mp negative), if_neg negative, size, Nat.repr_eq_ofList_toDigits]
    simp

theorem visible_toString (n : Int) : ∀ c ∈ (toString n).toList, Text.isBlank c = false := by
  intro c member
  rw [toList_toString] at member
  split at member
  · rcases List.mem_cons.mp member with rfl | digit
    · decide
    · exact Text.isBlank_of_isDigit (Numeral.isDigit_toDigits digit)
  · exact Text.isBlank_of_isDigit (Numeral.isDigit_toDigits member)

theorem sign_toString (n : Int) :
    Numeral.sign (toString n).toList = (decide (n < 0), Nat.toDigits 10 n.natAbs) := by
  rw [toList_toString]
  by_cases negative : n < 0
  · rw [if_pos negative, decide_eq_true negative]
    rfl
  · rw [if_neg negative, decide_eq_false negative]
    exact Numeral.sign_toDigits _

section

variable {n : Int} {s t : String}

/-- A numeral with the digits of an integer and its sign is read as the integer, whatever blanks are around it. -/
theorem Number.read?_padded (fits : (Binary64.ofInt? n).isSome) (before : ∀ c ∈ s.toList, Text.isBlank c)
    (after : ∀ c ∈ t.toList, Text.isBlank c) {x : String} (visible : ∀ c ∈ x.toList, Text.isBlank c = false)
    (signed : Numeral.sign x.toList = (decide (n < 0), Nat.toDigits 10 n.natAbs)) :
    Number.read? (s ++ x ++ t) = some (.int n) := by
  have trimmed : Text.trimBlanks (s ++ x ++ t) = x := by
    have kept := Text.trimBlanks_padded before after visible
    rw [← String.toList_append, ← String.toList_append, String.ofList_toList, String.ofList_toList] at kept
    exact kept
  have value : (if decide (n < 0) then -(n.natAbs : Int) else n.natAbs) = n := by
    by_cases negative : n < 0
    · rw [decide_eq_true negative, if_pos rfl]
      omega
    · rw [decide_eq_false negative, if_neg Bool.false_ne_true]
      omega
  unfold Number.read? Numeral.read?
  rw [trimmed, Numeral.ofChars?_of_sign signed, Option.map_some, Numeral.toNumber,
    Numeral.toInt?_natural (Binary64.short_of_fits fits), value]

end

theorem Datum.isNumber_of_fits {n : Int} (fits : (Binary64.ofInt? n).isSome) : isNumber (.int n) = .ok true := by
  simp only [isNumber, fits, if_true]

namespace Schema

/-- A number that is handed out in another form. -/
def casting (form : Option Cast) : Schema := .node { cast := form } none .number

theorem convert_casting (h : Hooks) {v : Value} {n : Int} (form : Option Cast) (coerced : coerceNumber v = some (.int n)) :
    ((casting form).toNode h).convert (((casting form).toNode h).frame v {} {}) v = .goOn (.int n) [] := by
  have present : v.isUndefined = false := by cases v <;> first | rfl | cases coerced
  have taken (f : Frame) : coerce ((casting form).toNode h).core ((casting form).toNode h).content f v = some ⟨.int n, []⟩ := by
    show coerce _ .number f v = _
    simp only [coerce, coerced, Option.map_some]
  rw [Node.convert_coerce rfl rfl rfl present, taken]

open Node in
theorem eval_casting (h : Hooks) {v w : Value} {n : Int} {form : Option Cast} (fits : (Binary64.ofInt? n).isSome)
    (converted : ((casting form).toNode h).convert (((casting form).toNode h).frame v {} {}) v = .goOn (.int n) [])
    (formed : Node.cast (casting form).core (((casting form).toNode h).frame v {} {}) (.int n) = .ok w) :
    (casting form).eval h v {} {} = pure ⟨w, []⟩ := by
  generalize isFrame : ((casting form).toNode h).frame v {} {} = f at converted formed
  have base : baseNumber { f with current := .int n } (.int n) = .ok none := by
    unfold baseNumber
    rw [Datum.isNumber_of_fits fits]
    rfl
  have checked : check h ((casting form).toNode h) f (.int n) = pure (.int n, []) := by
    show (liftM (baseNumber { f with current := .int n } (.int n)) : Eval (Option Outcome)) >>= _ = _
    rw [base]
    rfl
  have ran : body h ((casting form).toNode h) f = pure (.int n, []) := by
    unfold body
    have given : f.given = v := isFrame ▸ rfl
    rw [given, converted]
    show checkPresence h ((casting form).toNode h) f (.int n) = _
    subst isFrame
    exact checked
  rw [eval_eq, evaluate_eq]
  show (settled h ((casting form).toNode h) (((casting form).toNode h).frame v {} {}) >>= fun r => pure r) = _
  unfold settled
  rw [isFrame, ran, pure_bind]
  subst isFrame
  show ((liftM (Node.cast (casting form).core _ (.int n)) : Eval Value) >>= _) >>= _ = _
  rw [formed]
  rfl

end Schema

/-- What evaluates without a trace is answered. -/
theorem Validation.answers_of_eval {h : Hooks} {s : Schema} {v w : Value} (evaluated : s.eval h v {} {} = pure ⟨w, []⟩)
    (r : Run) : ∃ r', (validate h s v []).exec r = (.ok ⟨w, none, none⟩, r') := by
  refine ⟨fresh r, (validate_accepts rfl).mpr ?_⟩
  rw [evaluated]
  exact ⟨rfl, rfl, rfl⟩

/-- An integer that fits a float is cast to a text, and the text, with any blanks around it and with a plus in front if
there is no minus, is validated to the same integer, of whatever size. -/
theorem integer_texts_round_trip (h : Hooks) {n : Int} (fits : (Binary64.ofInt? n).isSome) :
    (∃ writer, Schema.number.cast (.str "string") = .ok writer ∧
      ∀ r, ∃ r', (Validation.validate h writer (.int n) []).exec r = (.ok ⟨.str (toString n), none, none⟩, r')) ∧
    ∀ s t : String, (∀ c ∈ s.toList, Text.isBlank c) → (∀ c ∈ t.toList, Text.isBlank c) →
      (∀ r, ∃ r', (Validation.validate h .number (.str (s ++ toString n ++ t)) []).exec r = (.ok ⟨.int n, none, none⟩, r')) ∧
      (0 ≤ n → ∀ r, ∃ r',
        (Validation.validate h .number (.str (s ++ ("+" ++ toString n) ++ t)) []).exec r = (.ok ⟨.int n, none, none⟩, r')) := by
  have reads (x : String) (isRead : Number.read? x = some (.int n)) (r : Run) :
      ∃ r', (Validation.validate h .number (.str x) []).exec r = (.ok ⟨.int n, none, none⟩, r') := by
    have coerced : coerceNumber (.str x) = some (.int n) := by simp only [coerceNumber, isRead, Option.map_some]
    exact Validation.answers_of_eval (Schema.eval_casting h fits (Schema.convert_casting h none coerced) rfl) r
  constructor
  · refine ⟨Schema.casting (some .string), rfl, Validation.answers_of_eval (Schema.eval_casting h fits rfl ?_)⟩
    show castValue .number .string (.int n) = _
    simp only [castValue, Datum.isNumber_of_fits fits]
    rfl
  · intro s t before after
    constructor
    · exact reads _ (Number.read?_padded fits before after (visible_toString n) (sign_toString n))
    · intro positive
      refine reads _ (Number.read?_padded fits before after ?_ ?_)
      · intro c member
        rw [String.toList_append] at member
        rcases List.mem_append.mp member with plus | digit
        · obtain rfl : c = '+' := by simpa using plus
          decide
        · exact visible_toString n c digit
      · rw [String.toList_append, toList_toString, if_neg (not_lt.mpr positive), decide_eq_false (not_lt.mpr positive)]
        rfl

/-- The least integer upwards of zero that no float is equal to, read from a text with a plus and blanks. -/
theorem unevenInteger_round_trips : (Binary64.ofInt? 9007199254740993).isSome ∧
    ∃ r', (Validation.validate .idle .number (.str ("\u2003" ++ ("+" ++ toString (9007199254740993 : Int)) ++ "\n")) []).exec {} =
      (.ok ⟨.int 9007199254740993, none, none⟩, r') := by
  have fits : (Binary64.ofInt? 9007199254740993).isSome := by decide +kernel
  obtain ⟨-, reads⟩ := integer_texts_round_trip .idle fits
  have space : ∀ c ∈ "\u2003".toList, Text.isBlank c := List.forall_mem_singleton.mpr (by decide)
  have newline : ∀ c ∈ "\n".toList, Text.isBlank c := List.forall_mem_singleton.mpr (by decide)
  exact ⟨fits, (reads _ _ space newline).2 (by decide) {}⟩

end Conform
