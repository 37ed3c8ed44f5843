import Mathlib.Tactic.Common

/-! # Flag words

A word used as a set of flags: a mask is present when the word and the mask
have a bit in common. Setting and clearing one mask is described by what
becomes of every other one.
-/

namespace Foundation

variable {w : Nat}

/-- The test `bit.band(flags, mask) ~= 0`. -/
def Flagged (flags mask : BitVec w) : Prop := flags &&& mask ≠ 0

instance decidableFlagged (flags mask : BitVec w) : Decidable (Flagged flags mask) :=
  inferInstanceAs (Decidable (_ ≠ _))

theorem flagged_or (flags more mask : BitVec w) :
    Flagged (flags ||| more) mask ↔ Flagged flags mask ∨ Flagged more mask := by
  have hzero : (flags ||| more) &&& mask = 0 ↔ flags &&& mask = 0 ∧ more &&& mask = 0 := by
    rw [BitVec.and_or_distrib_right]
    exact BitVec.or_eq_zero_iff
  simp only [Flagged, ne_eq, hzero, not_and_or]

theorem not_flagged_clear_self (flags mask : BitVec w) :
    ¬ Flagged (flags &&& ~~~mask) mask := by
  intro hflagged
  apply hflagged
  rw [BitVec.and_assoc, BitVec.and_comm (~~~mask) mask, BitVec.and_not_self]
  exact BitVec.and_zero

theorem flagged_clear {other mask : BitVec w} (hdisjoint : other &&& mask = 0)
    (flags : BitVec w) : Flagged (flags &&& ~~~other) mask ↔ Flagged flags mask := by
  -- a bit of the mask is not a bit of what is cleared
  have hkept : ~~~other &&& mask = mask := by
    calc ~~~other &&& mask
        = (other &&& mask) ||| (~~~other &&& mask) := by rw [hdisjoint]; simp
      _ = (other ||| ~~~other) &&& mask := BitVec.and_or_distrib_right.symm
      _ = mask := by simp
  rw [Flagged, BitVec.and_assoc, hkept, Flagged]

theorem flagged_or_of_disjoint {other mask : BitVec w} (hdisjoint : other &&& mask = 0)
    (flags : BitVec w) : Flagged (flags ||| other) mask ↔ Flagged flags mask := by
  rw [flagged_or]
  exact or_iff_left fun hflagged => hflagged hdisjoint

/-- A mask that fits into a narrower word is not lost on the way through it. -/
theorem flagged_setWidth {v : Nat} {mask : BitVec w} (hfits : (mask.setWidth v).setWidth w = mask)
    (flags : BitVec w) : Flagged ((flags.setWidth v).setWidth w) mask ↔ Flagged flags mask := by
  have hand : (flags.setWidth v).setWidth w &&& mask = flags &&& mask := by
    rw [← hfits]
    ext i hi
    simp only [BitVec.getElem_and, BitVec.getElem_setWidth, BitVec.getLsbD_setWidth]
    by_cases hlow : i < v
    · simp [hlow, BitVec.getLsbD_eq_getElem hi]
    · simp [hlow]
  rw [Flagged, hand, Flagged]

section Assign

variable (set : Prop) [Decidable set]

/-- A mask that is set or cleared. -/
theorem flagged_assign_self {mask : BitVec w} (hmask : Flagged mask mask) (flags : BitVec w) :
    Flagged (if set then flags ||| mask else flags &&& ~~~mask) mask ↔ set := by
  split
  next hset => exact iff_of_true ((flagged_or _ _ _).mpr (.inr hmask)) hset
  next hset => exact iff_of_false (not_flagged_clear_self _ _) hset

/-- Setting or clearing a mask leaves every other one as it was. -/
theorem flagged_assign_other {other mask : BitVec w} (hdisjoint : other &&& mask = 0)
    (flags : BitVec w) :
    Flagged (if set then flags ||| other else flags &&& ~~~other) mask ↔ Flagged flags mask := by
  split
  next => exact flagged_or_of_disjoint hdisjoint flags
  next => exact flagged_clear hdisjoint flags

end Assign

end Foundation
