import Mathlib.Tactic.Ring
import Conform.Cache

/-!
# Floats that are equal only to themselves

Rounding gives every number one mantissa and exponent, so floats that compare as equal are the same,
apart from the two zeros.
-/

namespace Conform

namespace Dyadic

theorem scaledTo_lower (d : Dyadic) {e l : Int} (lower : l ≤ e) (below : e ≤ d.exponent) :
    d.scaledTo l = d.scaledTo e * 2 ^ (e - l).toNat := by
  have split : (d.exponent - l).toNat = (d.exponent - e).toNat + (e - l).toNat := by omega
  simp only [scaledTo, split, Int.pow_eq, pow_add]
  ring

theorem compare_eq_iff {a b : Dyadic} {l : Int} (left : l ≤ a.exponent) (right : l ≤ b.exponent) :
    a.compare b = .eq ↔ a.scaledTo l = b.scaledTo l := by
  rw [scaledTo_lower a (e := min a.exponent b.exponent) (by omega) (by omega),
    scaledTo_lower b (e := min a.exponent b.exponent) (by omega) (by omega)]
  refine Std.compare_eq_iff_eq.trans ⟨congrArg (· * _), fun meet => ?_⟩
  exact Int.eq_of_mul_eq_mul_right (pow_ne_zero _ (by decide)) meet

end Dyadic

namespace Binary64

end Binary64

theorem Number.same_self {x : Binary64} (ordered : x.isNan = false) : (Number.float x).same (.float x) := by
  have equal : ∀ d : Dyadic, d.compare d = .eq := fun d => compare_eq_iff_eq.mpr rfl
  cases x with
  | nan mark => cases ordered
  | infinity s => simp [same, compare?]
  | finite s m e => simp [same, compare?, toDyadic?, Binary64.toDyadic?, equal]

namespace CacheKey

theorem same_self {k : CacheKey} (told : k ≠ float (.nan none)) : k.same k := by
  cases k with
  | float x =>
      unfold same Number.sameKey
      cases x with
      | nan mark =>
          cases mark with
          | none => exact absurd rfl told
          | some m => simp [Binary64.sameNan]
      | infinity s => simp [Number.same_self (x := .infinity s) rfl]
      | finite s m e => simp [Number.same_self (x := .finite s m e) rfl]
  | _ => simp [same]

end CacheKey

end Conform
