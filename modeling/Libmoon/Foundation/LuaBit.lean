import Mathlib.Algebra.Order.Floor.Semiring
import Mathlib.Data.Rat.Floor
import Mathlib.Tactic.IntervalCases

/-! # Bit operations on Lua numbers

The operands of a bit operation are numbers; they are rounded to the nearest integer,
with ties to the even one, and reduced to 32 bits. The operations themselves are those
of `BitVec 32`. A result that is used as a number is the signed reading of its bits.
-/

namespace Foundation

/-- The nearest integer, the even one of two. -/
def roundEven (number : ℚ) : ℤ :=
  if number - number.floor < 1 / 2 ∨ number - number.floor = 1 / 2 ∧ number.floor % 2 = 0 then
    number.floor
  else number.floor + 1

/-- `bit.tobit`, for numbers up to `2 ^ 51`; what larger ones become is left open by LuaJIT. -/
def tobit (number : ℚ) : BitVec 32 := BitVec.ofInt 32 (roundEven number)

/-- Conversion to an integer type cuts the fraction off. -/
def truncate (number : ℚ) : ℤ := if 0 ≤ number then number.floor else number.ceil

theorem truncate_intCast (number : ℤ) : truncate number = number := by
  unfold truncate
  split
  · exact Rat.floor_intCast number
  · exact Rat.ceil_intCast number

theorem truncate_natCast (number : ℕ) : truncate number = number := by
  exact_mod_cast truncate_intCast (number : ℤ)

theorem roundEven_intCast (number : ℤ) : roundEven number = number := by
  have hfloor : (number : ℚ).floor = number := Rat.floor_intCast number
  rw [roundEven, hfloor, if_pos]
  left
  norm_num

theorem tobit_intCast (number : ℤ) : tobit number = BitVec.ofInt 32 number := by
  rw [tobit, roundEven_intCast]

theorem tobit_natCast (number : ℕ) : tobit number = BitVec.ofNat 32 number := by
  rw [← Int.cast_natCast, tobit_intCast, BitVec.ofInt_natCast]

/-- The bits of a result that went through a number come back. -/
theorem tobit_toInt (bits : BitVec 32) : tobit bits.toInt = bits := by
  rw [tobit_intCast, BitVec.ofInt_toInt]

theorem tobit_toNat (bits : BitVec 32) : tobit bits.toNat = bits := by
  rw [tobit_natCast, BitVec.ofNat_toNat, BitVec.setWidth_eq]

/-- Byte swap of a 16-bit integer: `bor(rshift(n, 8), lshift(band(n, 0xFF), 8))`. -/
def bswap16 (bits : BitVec 32) : BitVec 32 := (bits >>> 8) ||| ((bits &&& 0xff#32) <<< 8)

/-- `bit.bswap`. -/
def bswap (bits : BitVec 32) : BitVec 32 :=
  (bits >>> 24) ||| ((bits >>> 8) &&& 0xff00#32) ||| ((bits <<< 8) &&& 0xff0000#32) |||
    (bits <<< 24)

/-- A 16-bit word that is swapped twice is the same again. -/
theorem bswap16_bswap16 (word : BitVec 16) :
    (bswap16 (bswap16 (word.setWidth 32))).setWidth 16 = word := by
  apply BitVec.eq_of_getLsbD_eq
  intro i hi
  unfold bswap16
  interval_cases i <;> simp

/-- So is one that is stored swapped and read again. -/
theorem bswap16_stored (word : BitVec 16) :
    bswap16 (((bswap16 (word.setWidth 32)).setWidth 16).setWidth 32) = word.setWidth 32 := by
  apply BitVec.eq_of_getLsbD_eq
  intro i hi
  unfold bswap16
  interval_cases i <;> simp

/-- The bytes are in reverse order, each with its bits as they were. -/
theorem getLsbD_bswap (bits : BitVec 32) {i : ℕ} (hi : i < 32) :
    (bswap bits).getLsbD i = bits.getLsbD (8 * (3 - i / 8) + i % 8) := by
  unfold bswap
  interval_cases i <;> simp

theorem bswap_bswap (bits : BitVec 32) : bswap (bswap bits) = bits := by
  apply BitVec.eq_of_getLsbD_eq
  intro i hi
  rw [getLsbD_bswap _ hi, getLsbD_bswap _ (by omega)]
  congr 1
  omega

/-- `bit.bswap` of a 64-bit integer: its halves change places and are swapped. -/
def bswap64 (bits : BitVec 64) : BitVec 64 :=
  bswap (bits.extractLsb' 0 32) ++ bswap (bits.extractLsb' 32 32)

theorem getLsbD_bswap64 (bits : BitVec 64) {i : ℕ} (hi : i < 64) :
    (bswap64 bits).getLsbD i = bits.getLsbD (8 * (7 - i / 8) + i % 8) := by
  rw [bswap64, BitVec.getLsbD_append]
  by_cases hlow : i < 32
  · rw [if_pos hlow, getLsbD_bswap _ hlow, BitVec.getLsbD_extractLsb', decide_eq_true (by omega),
      Bool.true_and]
    exact congrArg bits.getLsbD (by omega)
  · rw [if_neg hlow, getLsbD_bswap _ (by omega), BitVec.getLsbD_extractLsb',
      decide_eq_true (by omega), Bool.true_and]
    exact congrArg bits.getLsbD (by omega)

theorem bswap64_bswap64 (bits : BitVec 64) : bswap64 (bswap64 bits) = bits := by
  apply BitVec.eq_of_getLsbD_eq
  intro i hi
  rw [getLsbD_bswap64 _ hi, getLsbD_bswap64 _ (by omega)]
  exact congrArg bits.getLsbD (by omega)

/-- Masks and shifts take the bytes of a word. -/
theorem masked_bytes (bits : BitVec 32) :
    ((bits &&& 0xff000000#32) >>> 24).setWidth (8 * 1) = bits.extractLsb' 24 8 ∧
      ((bits &&& 0x00ff0000#32) >>> 16).setWidth (8 * 1) = bits.extractLsb' 16 8 ∧
      ((bits &&& 0x0000ff00#32) >>> 8).setWidth (8 * 1) = bits.extractLsb' 8 8 ∧
      (bits &&& 0x000000ff#32).setWidth (8 * 1) = bits.extractLsb' 0 8 := by
  refine ⟨?_, ?_, ?_, ?_⟩
  all_goals
    apply BitVec.eq_of_getLsbD_eq
    intro k hk
    interval_cases k <;> simp

/-- Shifts put bytes together. -/
theorem shifted_bytes (first second third fourth : BitVec (8 * 1)) {bits : BitVec 32}
    (hbits : bits = (first.setWidth 32 <<< 24) ||| ((second.setWidth 32 <<< 16) |||
      ((third.setWidth 32 <<< 8) ||| fourth.setWidth 32))) :
    bits.extractLsb' 24 8 = first ∧ bits.extractLsb' 16 8 = second ∧
      bits.extractLsb' 8 8 = third ∧ bits.extractLsb' 0 8 = fourth := by
  subst hbits
  refine ⟨?_, ?_, ?_, ?_⟩
  all_goals
    apply BitVec.eq_of_getLsbD_eq
    intro k hk
    interval_cases k <;> simp

theorem bswap_bswap_setWidth (word : BitVec (8 * 4)) :
    (bswap (bswap (word.setWidth 32))).setWidth (8 * 4) = word := by
  rw [bswap_bswap]
  exact BitVec.setWidth_setWidth_of_le _ (by decide)

end Foundation
