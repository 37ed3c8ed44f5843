import Libmoon.Foundation.LuaBit
import Mathlib.Algebra.Order.Field.Rat
import Mathlib.Data.Int.Log

/-! # Rounding to doubles

A double has 53 binary digits, and none of them is worth less than `2 ^ (-1074)`. An operation
returns the double that is nearest to the exact result, the even one of two. Up to `2 ^ 53`
the whole numbers are doubles themselves; counts are taken to stay below, so that no whole
number is rounded here.
-/

namespace Foundation

/-- What the last of the binary digits is worth, and at most one. -/
def lastPlace (number : ℚ) : ℚ := 2 ^ max (-1074) (min 0 (Int.log 2 |number| - 52))

/-- The nearest double, with whole numbers as they are. -/
def toDouble (number : ℚ) : ℚ := roundEven (number / lastPlace number) * lastPlace number

theorem lastPlace_eq (number : ℚ) : ∃ places : ℕ, lastPlace number = (2 ^ places)⁻¹ := by
  have hsmall : max (-1074) (min 0 (Int.log 2 |number| - 52)) ≤ 0 :=
    max_le (by norm_num) (min_le_left 0 _)
  obtain ⟨places, hplaces⟩ := Int.eq_ofNat_of_zero_le (Int.neg_nonneg_of_nonpos hsmall)
  exact ⟨places, by rw [lastPlace, ← neg_eq_iff_eq_neg.mpr hplaces.symm, zpow_neg, zpow_natCast]⟩

theorem toDouble_intCast (number : ℤ) : toDouble number = number := by
  obtain ⟨places, hplace⟩ := lastPlace_eq number
  have hwhole : (number : ℚ) / (2 ^ places)⁻¹ = (number * 2 ^ places : ℤ) := by
    push_cast
    rw [div_inv_eq_mul]
  rw [toDouble, hplace, hwhole, roundEven_intCast, ← hwhole]
  exact div_mul_cancel₀ _ (inv_ne_zero (pow_ne_zero places two_ne_zero))

theorem toDouble_natCast (number : ℕ) : toDouble number = number := by
  exact_mod_cast toDouble_intCast (number : ℤ)

end Foundation
