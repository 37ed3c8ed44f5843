import Mathlib.Data.Nat.Size
import Mathlib.Data.Nat.Bitwise
import Mathlib.Tactic.Common

/-! # Spreading bits to the right

Or-ing a number with itself shifted right, by one place, then two, then four and so on,
copies its highest bit to every place below. What comes out is one less than the power
of two above the number.
-/

namespace Foundation

/-- Bit `i` of `r` tells whether one of the `width` bits of `n` from place `i` up is set. -/
def Smeared (n width r : Nat) : Prop :=
  ∀ i, r.testBit i = true ↔ ∃ j < width, n.testBit (i + j) = true

theorem smeared_self (n : Nat) : Smeared n 1 n := by
  intro i
  constructor
  · exact fun hbit => ⟨0, Nat.one_pos, hbit⟩
  · rintro ⟨j, hj, hbit⟩
    obtain rfl : j = 0 := by omega
    exact hbit

theorem Smeared.double {n width r : Nat} (hsmeared : Smeared n width r) :
    Smeared n (width + width) (r ||| (r >>> width)) := by
  intro i
  rw [Nat.testBit_or, Nat.testBit_shiftRight, Bool.or_eq_true, hsmeared i, hsmeared (width + i)]
  constructor
  · rintro (⟨j, hj, hbit⟩ | ⟨j, hj, hbit⟩)
    · exact ⟨j, by omega, hbit⟩
    · exact ⟨width + j, by omega, by rwa [show i + (width + j) = width + i + j by omega]⟩
  · rintro ⟨j, hj, hbit⟩
    by_cases hlow : j < width
    · exact .inl ⟨j, hlow, hbit⟩
    · exact .inr ⟨j - width, by omega,
        by rwa [show width + i + (j - width) = i + j by omega]⟩

/-- A number that is spread over its whole width. -/
theorem Smeared.eq_two_pow_sub_one {n width r : Nat} (hsmeared : Smeared n width r)
    (hwidth : n < 2 ^ width) : r = 2 ^ n.size - 1 := by
  apply Nat.eq_of_testBit_eq
  intro i
  rw [Nat.testBit_two_pow_sub_one, Bool.eq_iff_iff, hsmeared i, decide_eq_true_eq, Nat.lt_size]
  constructor
  · rintro ⟨j, -, hbit⟩
    have hhigh := Nat.ge_two_pow_of_testBit hbit
    exact (Nat.pow_le_pow_right Nat.two_pos (Nat.le_add_right i j)).trans hhigh
  · intro hle
    have hpos : n ≠ 0 := by
      rintro rfl
      exact absurd hle (Nat.not_le_of_lt (Nat.two_pow_pos i))
    obtain ⟨top, hbit, hhigher⟩ := Nat.exists_most_significant_bit hpos
    have htop : top < width := by
      by_contra hge
      have hhigh := Nat.ge_two_pow_of_testBit hbit
      have hpow := Nat.pow_le_pow_right Nat.two_pos (Nat.le_of_not_lt hge)
      omega
    have hi : i ≤ top := by
      by_contra hlt
      have hbelow : n < 2 ^ i := Nat.lt_pow_two_of_testBit n fun j hj => hhigher j (by omega)
      omega
    exact ⟨top - i, by omega, by rwa [Nat.add_sub_cancel' hi]⟩

end Foundation
