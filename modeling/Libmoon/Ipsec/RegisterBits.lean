import Libmoon.Foundation.LuaString
import Libmoon.Foundation.LuaBit
import Libmoon.Foundation.NetworkOrder
import Mathlib.Data.List.TakeWhile

/-! # Bits of registers

The functions that put register values together. Their arguments and results are Lua
numbers, signed where a bit operation has made them, so that what they do to the bits is
said about the 32 bits of a number. Keys are read and written as hexadecimal digits.
-/

namespace Libmoon.Ipsec

open Foundation

/-- What stops a function: a message of `log:fatal`, or an operation on `nil`. -/
inductive LuaError where
  | fatal (message : String)
  | nilConversion
  | nilIndex
deriving DecidableEq, Repr

/-- The bits of a number. -/
abbrev bits (number : ℤ) : BitVec 32 := BitVec.ofInt 32 number

/-- Clear a single bit. -/
def clearBit32 (reg32 idx : ℤ) : Except LuaError ℤ :=
  if idx < 0 ∨ idx > 31 then .error (.fatal "Idx must be in range 0-31")
  else
    let mask : ℤ := (~~~(bits 0x1 <<< idx.toNat)).toInt
    .ok (bits reg32 &&& bits mask).toInt

/-- Set a single bit. -/
def setBit32 (reg32 idx : ℤ) : Except LuaError ℤ :=
  if idx < 0 ∨ idx > 31 then .error (.fatal "Idx must be in range 0-31")
  else
    let mask : ℤ := (bits 0x1 <<< idx.toNat).toInt
    .ok (bits reg32 ||| bits mask).toInt

/-- Clear the bits from the higher one down to the lower one. -/
def clearBits32 (reg32 high low : ℤ) : Except LuaError ℤ :=
  (List.range (high - low + 1).toNat).foldlM (fun tmp (i : ℕ) => clearBit32 tmp (high - i)) reg32

/-- Set the bits from the higher one down to the lower one to a value. -/
def setBits32 (reg32 high low value : ℤ) : Except LuaError ℤ := do
  let upperLimit : ℤ := 2 ^ (high - low + 1).toNat - 1
  if value < 0 ∨ value > upperLimit then
    .error (.fatal ("Value must be in range 0-" ++ toString upperLimit))
  else
    let tmp ← clearBits32 reg32 high low
    let shifted : ℤ := (bits value <<< low.toNat).toInt
    .ok (bits tmp ||| bits shifted).toInt

/-- `uhex32`. -/
def uhex32 (x : ℤ) : String := String.ofList ((bigEndian 4 (bits x).toNat).flatMap hexByte)

/-- What C takes for blank. -/
def isSpace (char : Char) : Bool :=
  char.toNat == 32 || (decide (9 ≤ char.toNat) && decide (char.toNat ≤ 13))

/-- The sign in front of a number. -/
def takeSign : List Char → ℤ × List Char
  | '-' :: rest => (-1, rest)
  | '+' :: rest => (1, rest)
  | chars => (1, chars)

/-- `strtoul` skips the `0x` in front of a digit. -/
def skipHexMark : List Char → List Char
  | '0' :: mark :: digit :: rest =>
      if (mark == 'x' || mark == 'X') && isHexDigit digit then digit :: rest
      else '0' :: mark :: digit :: rest
  | chars => chars

/-- `tonumber(text, 16)`. -/
def tonumber16 (text : String) : Option ℤ :=
  let chars := (text.toList.takeWhile fun char => char.toNat != 0).dropWhile isSpace
  let (sign, chars) := takeSign chars
  let chars := skipHexMark chars
  let digits := chars.takeWhile isHexDigit
  if digits = [] ∨ (chars.dropWhile isHexDigit).dropWhile isSpace ≠ [] then none
  else some (sign * digitsValue 16 digits)

/-- `string.sub(text, first, last)`. -/
def sub (text : String) (first last : ℕ) : String :=
  String.ofList ((text.toList.drop (first - 1)).take (last + 1 - first))

/-! ## Fields -/

@[simp] theorem bits_toInt (word : BitVec 32) : bits word.toInt = word := BitVec.ofInt_toInt

@[simp] theorem bits_natCast (number : ℕ) : bits number = BitVec.ofNat 32 number :=
  BitVec.ofInt_natCast 32 number

@[simp] theorem bits_toNat (word : BitVec 32) : bits word.toNat = word := by
  rw [bits_natCast, BitVec.ofNat_toNat, BitVec.setWidth_eq]

theorem getLsbD_bit {idx i : ℕ} (hi : i < 32) :
    (bits 0x1 <<< idx).getLsbD i = decide (i = idx) := by
  have hone : bits 0x1 = 1#32 := rfl
  rw [hone, BitVec.getLsbD_shiftLeft, BitVec.getLsbD_one, decide_eq_true hi, Bool.true_and]
  by_cases heq : i = idx
  · simp [heq]
  · rcases Nat.lt_or_gt_of_ne heq with hlt | hgt
    · simp [hlt, heq]
    · simp [Nat.not_lt_of_gt hgt, heq, Nat.sub_ne_zero_of_lt hgt]

/-- Only the one bit is cleared. -/
theorem clearBit32_spec (reg32 : ℤ) {idx : ℕ} (hidx : idx < 32) :
    ∃ value, clearBit32 reg32 idx = .ok value ∧
      ∀ i < 32, (bits value).getLsbD i = if i = idx then false else (bits reg32).getLsbD i := by
  have hrange : ¬ ((idx : ℤ) < 0 ∨ (idx : ℤ) > 31) := by omega
  refine ⟨_, if_neg hrange, ?_⟩
  intro i hi
  rw [bits_toInt, bits_toInt, Int.toNat_natCast, BitVec.getLsbD_and, BitVec.getLsbD_not,
    getLsbD_bit hi, decide_eq_true hi]
  by_cases heq : i = idx <;> simp [heq]

/-- Only the one bit is set. -/
theorem setBit32_spec (reg32 : ℤ) {idx : ℕ} (hidx : idx < 32) :
    ∃ value, setBit32 reg32 idx = .ok value ∧
      ∀ i < 32, (bits value).getLsbD i = if i = idx then true else (bits reg32).getLsbD i := by
  have hrange : ¬ ((idx : ℤ) < 0 ∨ (idx : ℤ) > 31) := by omega
  refine ⟨_, if_neg hrange, ?_⟩
  intro i hi
  rw [bits_toInt, bits_toInt, Int.toNat_natCast, BitVec.getLsbD_or, getLsbD_bit hi]
  by_cases heq : i = idx <;> simp [heq]

/-- The loop clears one bit after the other, from the highest one on. -/
theorem clearBits32_loop (reg32 : ℤ) {high : ℕ} (hhigh : high < 32) {count : ℕ}
    (hcount : count ≤ high + 1) :
    ∃ value, (List.range count).foldlM (fun tmp (i : ℕ) => clearBit32 tmp (high - i)) reg32 =
        .ok value ∧
      ∀ i < 32, (bits value).getLsbD i =
        if high < i + count ∧ i ≤ high then false else (bits reg32).getLsbD i := by
  induction count with
  | zero =>
      refine ⟨reg32, rfl, fun i _ => ?_⟩
      rw [if_neg (by omega)]
  | succ count ih =>
      obtain ⟨tmp, htmp, hbits⟩ := ih (by omega)
      obtain ⟨value, hvalue, hclear⟩ := clearBit32_spec tmp (show high - count < 32 by omega)
      have hidx : ((high - count : ℕ) : ℤ) = high - count := by omega
      refine ⟨value, ?_, ?_⟩
      · rw [List.range_succ, List.foldlM_append, htmp]
        simp only [List.foldlM_cons, List.foldlM_nil, ← hidx, bind_pure]
        exact hvalue
      · intro i hi
        rw [hclear i hi, hbits i hi]
        split_ifs <;> first | rfl | omega

theorem clearBits32_spec (reg32 : ℤ) {high low : ℕ} (hle : low ≤ high) (hhigh : high < 32) :
    ∃ value, clearBits32 reg32 high low = .ok value ∧
      ∀ i < 32, (bits value).getLsbD i =
        if low ≤ i ∧ i ≤ high then false else (bits reg32).getLsbD i := by
  obtain ⟨value, hvalue, hbits⟩ :=
    clearBits32_loop reg32 hhigh (show high - low + 1 ≤ high + 1 by omega)
  have hcount : ((high : ℤ) - low + 1).toNat = high - low + 1 := by omega
  refine ⟨value, ?_, ?_⟩
  · rw [clearBits32, hcount, hvalue]
  · intro i hi
    rw [hbits i hi]
    split_ifs <;> first | rfl | omega

/-- Only the bits of the field are set. -/
theorem setBits32_spec (reg32 : ℤ) {high low field : ℕ} (hle : low ≤ high) (hhigh : high < 32)
    (hfield : field < 2 ^ (high - low + 1)) :
    ∃ value, setBits32 reg32 high low field = .ok value ∧
      ∀ i < 32, (bits value).getLsbD i =
        if low ≤ i ∧ i ≤ high then field.testBit (i - low) else (bits reg32).getLsbD i := by
  obtain ⟨tmp, htmp, hclear⟩ := clearBits32_spec reg32 hle hhigh
  have hcount : ((high : ℤ) - low + 1).toNat = high - low + 1 := by omega
  have hrange : ¬ ((field : ℤ) < 0 ∨ (field : ℤ) > 2 ^ ((high : ℤ) - low + 1).toNat - 1) := by
    rw [hcount]
    have hcast : ((2 ^ (high - low + 1) : ℕ) : ℤ) = 2 ^ (high - low + 1) := by
      push_cast
      rfl
    omega
  refine ⟨(bits tmp ||| bits (bits field <<< low).toInt).toInt, ?_, ?_⟩
  · rw [setBits32, if_neg hrange, htmp, Int.toNat_natCast]
    rfl
  · intro i hi
    rw [bits_toInt, bits_toInt, bits_natCast, BitVec.getLsbD_or, hclear i hi,
      BitVec.getLsbD_shiftLeft, BitVec.getLsbD_ofNat, decide_eq_true hi, Bool.true_and]
    by_cases hlow : i < low
    · rw [if_neg (by omega), if_neg (by omega)]
      simp [hlow]
    · have hshift : i - low < 32 := by omega
      by_cases hin : i ≤ high
      · rw [if_pos ⟨by omega, hin⟩, if_pos ⟨by omega, hin⟩]
        simp [hlow, hshift]
      · -- the field ends below
        have hzero : field.testBit (i - low) = false := by
          apply Nat.testBit_lt_two_pow
          exact hfield.trans_le (Nat.pow_le_pow_right Nat.two_pos (by omega))
        rw [if_neg (by omega), if_neg (by omega), hzero]
        simp

/-! ## Hexadecimal digits -/

/-- The digits that `uhex32` writes. -/
def lowerHexDigits : List Char := (List.range 16).map Nat.digitChar

theorem digitValue_digitChar : ∀ digit < 16, digitValue (Nat.digitChar digit) = digit := by
  decide

theorem lowerHexDigits_pair {first second : Char} (hfirst : first ∈ lowerHexDigits)
    (hsecond : second ∈ lowerHexDigits) :
    hexByte (UInt8.ofNat (digitsValue 16 [first, second])) = [first, second] := by
  obtain ⟨high, hhigh, rfl⟩ := List.mem_map.mp hfirst
  obtain ⟨low, hlow, rfl⟩ := List.mem_map.mp hsecond
  rw [List.mem_range] at hhigh hlow
  have hvalue : digitsValue 16 [Nat.digitChar high, Nat.digitChar low] = high * 16 + low := by
    simp [digitsValue, digitValue_digitChar high hhigh, digitValue_digitChar low hlow]
  have hdiv : (high * 16 + low) % 2 ^ 8 / 16 = high := by omega
  have hmod : (high * 16 + low) % 2 ^ 8 % 16 = low := by omega
  rw [hvalue, hexByte, UInt8.toNat_ofNat', hdiv, hmod]

theorem isHexDigit_of_mem_flatMap {bytes : List UInt8} {char : Char}
    (hchar : char ∈ bytes.flatMap hexByte) : isHexDigit char := by
  obtain ⟨byte, _, hmem⟩ := List.mem_flatMap.mp hchar
  exact (hexByte_writes byte).cls char hmem

/-- Digits of bytes are read as the number of the bytes. -/
theorem digitsValue_flatMap_hexByte (bytes : List UInt8) :
    digitsValue 16 (bytes.flatMap hexByte) = fromBigEndian bytes := by
  induction bytes using List.reverseRecOn with
  | nil => rfl
  | append_singleton bytes byte ih =>
      rw [List.flatMap_append, digitsValue_append, ih, fromBigEndian_append]
      simp only [List.flatMap_cons, List.flatMap_nil, List.append_nil, (hexByte_writes byte).value]
      simp [fromBigEndian, hexByte]

theorem exists_bytes_of_lower {count : ℕ} {chars : List Char} (hlength : chars.length = 2 * count)
    (hlower : ∀ char ∈ chars, char ∈ lowerHexDigits) :
    ∃ bytes : List UInt8, bytes.length = count ∧ chars = bytes.flatMap hexByte := by
  induction count generalizing chars with
  | zero => exact ⟨[], rfl, List.length_eq_zero_iff.mp hlength⟩
  | succ count ih =>
      match chars, hlength with
      | first :: second :: rest, hlength =>
          simp only [List.forall_mem_cons] at hlower
          have hrest : rest.length = 2 * count := by
            simp only [List.length_cons] at hlength
            omega
          obtain ⟨bytes, hbytes, rfl⟩ := ih hrest hlower.2.2
          refine ⟨UInt8.ofNat (digitsValue 16 [first, second]) :: bytes, ?_, ?_⟩
          · rw [List.length_cons, hbytes]
          · rw [List.flatMap_cons, lowerHexDigits_pair hlower.1 hlower.2.1]
            rfl

theorem toNat_of_isHexDigit {char : Char} (hdigit : isHexDigit char) :
    48 ≤ char.toNat ∧ char.toNat ≤ 57 ∨ 65 ≤ char.toNat ∧ char.toNat ≤ 70 ∨
      97 ≤ char.toNat ∧ char.toNat ≤ 102 := by
  simp only [isHexDigit, Char.isDigit, Bool.or_eq_true, Bool.and_eq_true, decide_eq_true_eq,
    Char.le_def, UInt32.le_iff_toNat_le] at hdigit
  change ((48 ≤ char.toNat ∧ char.toNat ≤ 57) ∨ (97 ≤ char.toNat ∧ char.toNat ≤ 102)) ∨
    (65 ≤ char.toNat ∧ char.toNat ≤ 70) at hdigit
  omega

/-- Neither sign is a digit. -/
theorem takeSign_of_isHexDigit {first : Char} (hfirst : isHexDigit first) (rest : List Char) :
    takeSign (first :: rest) = (1, first :: rest) := by
  have hrange := toNat_of_isHexDigit hfirst
  unfold takeSign
  split
  next heq =>
    obtain ⟨rfl, -⟩ := List.cons.inj heq
    exact absurd hrange (by decide)
  next heq =>
    obtain ⟨rfl, -⟩ := List.cons.inj heq
    exact absurd hrange (by decide)
  next => rfl

/-- The mark in front of hexadecimal numbers is not a digit. -/
theorem skipHexMark_of_isHexDigit {chars : List Char} (hdigits : ∀ char ∈ chars, isHexDigit char) :
    skipHexMark chars = chars := by
  unfold skipHexMark
  split
  next mark digit tail =>
    have hrange := toNat_of_isHexDigit
      (hdigits mark (List.mem_cons_of_mem _ List.mem_cons_self))
    apply if_neg
    intro hx
    simp only [Bool.and_eq_true, Bool.or_eq_true, beq_iff_eq] at hx
    rcases hx.1 with rfl | rfl
    · exact absurd hrange (by decide)
    · exact absurd hrange (by decide)
  next => rfl

theorem tonumber16_of_hexDigits {text : String} (hne : text.toList ≠ [])
    (hdigits : ∀ char ∈ text.toList, isHexDigit char) :
    tonumber16 text = some (digitsValue 16 text.toList : ℤ) := by
  have htext : (text.toList.takeWhile fun char => char.toNat != 0) = text.toList := by
    refine List.takeWhile_eq_self_iff.mpr fun char hchar => ?_
    have hrange := toNat_of_isHexDigit (hdigits char hchar)
    exact bne_iff_ne.mpr (by omega)
  obtain ⟨first, rest, hchars⟩ := List.exists_cons_of_ne_nil hne
  rw [hchars] at htext hdigits
  have hfirst : isHexDigit first := hdigits first List.mem_cons_self
  have hspace : ¬ isSpace first := by
    have hrange := toNat_of_isHexDigit hfirst
    simp only [isSpace, Bool.or_eq_true, Bool.and_eq_true, beq_iff_eq, decide_eq_true_eq]
    omega
  have hall : (first :: rest).takeWhile isHexDigit = first :: rest :=
    List.takeWhile_eq_self_iff.mpr hdigits
  have hnone : (first :: rest).dropWhile isHexDigit = [] := List.dropWhile_eq_nil_iff.mpr hdigits
  rw [tonumber16, hchars, htext, List.dropWhile_cons_of_neg hspace]
  simp only [takeSign_of_isHexDigit hfirst, skipHexMark_of_isHexDigit hdigits, hall, hnone,
    List.dropWhile_nil]
  simp

/-- Eight digits are written as they were read. -/
theorem uhex32_of_lower {text : String} (hlength : text.toList.length = 8)
    (hlower : ∀ char ∈ text.toList, char ∈ lowerHexDigits) :
    ∃ number : ℤ, tonumber16 text = some number ∧ uhex32 number = text := by
  obtain ⟨bytes, hbytes, hchars⟩ := @exists_bytes_of_lower 4 _ hlength hlower
  have hne : text.toList ≠ [] := List.ne_nil_of_length_pos (by omega)
  have hnumber : digitsValue 16 text.toList = fromBigEndian bytes := by
    rw [hchars, digitsValue_flatMap_hexByte]
  have hlt := fromBigEndian_lt bytes
  have hround := bigEndian_fromBigEndian bytes
  rw [hbytes] at hlt hround
  refine ⟨_, tonumber16_of_hexDigits hne ?_, ?_⟩
  · intro char hchar
    rw [hchars] at hchar
    exact isHexDigit_of_mem_flatMap hchar
  · rw [uhex32, bits_natCast, hnumber, BitVec.toNat_ofNat, Nat.mod_eq_of_lt hlt, hround, ← hchars,
      String.ofList_toList]

end Libmoon.Ipsec
