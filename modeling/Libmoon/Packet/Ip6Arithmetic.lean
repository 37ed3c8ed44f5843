import Libmoon.Foundation.NetworkOrder
import Libmoon.Packet.Addresses

/-! # Arithmetic on IPv6 addresses

Addresses are handed around in host byte order, the lowest 64 bits first; packets hold them
in network order. A number is added to the low half as an unsigned number of 64 bits, and
comparisons decide whether the high half changes. They are right for all numbers that are not
negative; for a negative one the low half must not be greater than twice its absolute value.
-/

namespace Libmoon.Packet

open Foundation

/-- `union ip6_address`, by the two 64-bit numbers in it. -/
structure Ip6Address where
  /-- `uint64[0]` -/
  uint64₀ : BitVec 64
  /-- `uint64[1]` -/
  uint64₁ : BitVec 64
deriving DecidableEq

namespace Ip6Address

/-- The same bytes as four words. -/
def ofWords (words : List (BitVec 32)) : Ip6Address where
  uint64₀ := words.getD 1 0 ++ words.getD 0 0
  uint64₁ := words.getD 3 0 ++ words.getD 2 0

/-- An address in host byte order is a number of 128 bits. -/
def number (addr : Ip6Address) : ℕ := addr.uint64₁.toNat * 2 ^ 64 + addr.uint64₀.toNat

/-- What `__add` and `add` do with the halves; a comparison of an unsigned number with a signed
one takes both as unsigned. -/
def addHalves (low high val : BitVec 64) : BitVec 64 × BitVec 64 :=
  let low := low + val
  -- overflow
  if low.toNat < val.toNat ∧ val.toInt > 0 then (low, high + 1)
  -- underflow
  else if low.toNat > (-val).toNat ∧ val.toInt < 0 then (low, high - 1)
  else (low, high)

end Ip6Address

/-- An operand of `+`. -/
inductive Ip6Operand where
  | address (addr : Ip6Address)
  | number (val : BitVec 64)
deriving DecidableEq

namespace Ip6Addr

/-- `ip6Addr:get`. -/
def get (mem : Memory) (start : Nat) : Ip6Address := .ofWords (wordsAt mem start)

/-- `ip6Addr.__add`. A sum of two addresses raises an error. -/
def add : Ip6Operand → Ip6Operand → Option Ip6Address
  | .address self, .number val | .number val, .address self =>
      let (low, high) := Ip6Address.addHalves self.uint64₀ self.uint64₁ val
      some ⟨low, high⟩
  | _, _ => none

/-- `ip6Addr:__sub`. -/
def sub (self : Ip6Address) (val : BitVec 64) : Option Ip6Address :=
  add (.address self) (.number (-val))

/-- `ip6Addr:add`. -/
def addInPlace (mem : Memory) (start : Nat) (val : BitVec 64) : Memory :=
  let (low, high) := Ip6Address.addHalves (bswap64 (mem.word (start + 8) 8))
    (bswap64 (mem.word start 8)) val
  let mem := mem.setWord (start + 8) ((bswap64 low).setWidth (8 * 8))
  mem.setWord start ((bswap64 high).setWidth (8 * 8))

end Ip6Addr

/-! ## The halves -/

namespace Ip6Address

/-- Where the comparisons tell an underflow: the low half is at most twice the absolute value
of a negative number, and not 0 if that value is `2 ^ 63`. -/
def AddsExactly (low val : BitVec 64) : Prop :=
  val.toInt < 0 → (low.toNat : ℤ) ≤ 2 * -val.toInt ∧ (val.toInt = -2 ^ 63 → low ≠ 0)

theorem toInt_cases (val : BitVec 64) :
    val.toNat < 2 ^ 63 ∧ val.toInt = val.toNat ∨
      2 ^ 63 ≤ val.toNat ∧ val.toInt = val.toNat - 2 ^ 64 := by
  have hlt := val.isLt
  rw [BitVec.toInt_eq_toNat_cond]
  split <;> omega

theorem addHalves_exact_iff (low high val : BitVec 64) :
    (((addHalves low high val).2.toNat * 2 ^ 64 + (addHalves low high val).1.toNat : ℕ) : ℤ) =
        ((high.toNat * 2 ^ 64 + low.toNat : ℕ) + val.toInt) % 2 ^ 128 ↔
      AddsExactly low val := by
  have hlow := low.isLt
  have hhigh := high.isLt
  have hval := val.isLt
  have hzero : low ≠ 0 ↔ low.toNat ≠ 0 := (BitVec.toNat_inj (y := 0#64)).not.symm
  have hsum : (low + val).toNat = (low.toNat + val.toNat) % 2 ^ 64 := BitVec.toNat_add low val
  have hneg : (-val).toNat = (2 ^ 64 - val.toNat) % 2 ^ 64 := BitVec.toNat_neg val
  have hup : (high + 1).toNat = (high.toNat + 1) % 2 ^ 64 := BitVec.toNat_add high 1
  have hdown : (high - 1).toNat = (2 ^ 64 - 1 + high.toNat) % 2 ^ 64 := BitVec.toNat_sub high 1
  simp only [addHalves, AddsExactly, hzero, hsum, hneg]
  rcases toInt_cases val with ⟨hrange, hsigned⟩ | ⟨hrange, hsigned⟩
  · split_ifs <;> simp only [hsum, hup, hdown] <;> omega
  · split_ifs <;> simp only [hsum, hup, hdown] <;> omega

theorem addHalves_fst (low high val : BitVec 64) : (addHalves low high val).1 = low + val := by
  simp only [addHalves]
  split_ifs <;> rfl

theorem addsExactly_of_nonneg (low : BitVec 64) {val : BitVec 64} (hval : 0 ≤ val.toInt) :
    AddsExactly low val :=
  fun hneg => absurd hneg hval.not_gt

end Ip6Address

/-! ## Network order -/

namespace Ip6Addr

theorem get_eq (mem : Memory) (start : ℕ) :
    get mem start = ⟨bswap64 (mem.word (start + 8) 8), bswap64 (mem.word start 8)⟩ := by
  have hlow (start : ℕ) :
      (mem.word start 8).extractLsb' 0 32 = (mem.word start 4).setWidth 32 := by
    apply BitVec.eq_of_getLsbD_eq
    intro i hi
    rw [BitVec.getLsbD_extractLsb', BitVec.getLsbD_setWidth, Memory.getLsbD_word,
      Memory.getLsbD_word]
    simp [hi, show i < 64 by omega]
  have hhigh (start : ℕ) :
      (mem.word start 8).extractLsb' 32 32 = (mem.word (start + 4) 4).setWidth 32 := by
    apply BitVec.eq_of_getLsbD_eq
    intro i hi
    rw [BitVec.getLsbD_extractLsb', BitVec.getLsbD_setWidth, Memory.getLsbD_word,
      Memory.getLsbD_word]
    simp [hi, show 32 + i < 64 by omega, show start + (32 + i) / 8 = start + 4 + i / 8 by omega,
      show (32 + i) % 8 = i % 8 by omega]
  simp only [bswap64, hlow, hhigh]
  rfl

/-- An address in a packet is a number of sixteen bytes in network order. -/
theorem number_get (mem : Memory) (start : ℕ) :
    (get mem start).number = fromBigEndian (mem.load start 16) := by
  rw [get_eq, Ip6Address.number, Memory.toNat_bswap64_word, Memory.toNat_bswap64_word,
    mem.load_add start 8 8, fromBigEndian_append, Memory.length_load]

/-- Both forms of the addition do the same. -/
theorem get_addInPlace (mem : Memory) (start : ℕ) (val : BitVec 64) :
    add (.address (get mem start)) (.number val) = some (get (addInPlace mem start val) start) := by
  simp only [add, get_eq, addInPlace]
  rw [Memory.word_setWord, Memory.word_setWord_of_disjoint _ (by omega), Memory.word_setWord]
  simp only [BitVec.setWidth_eq, bswap64_bswap64]

theorem add_comm (self : Ip6Address) (val : BitVec 64) :
    add (.number val) (.address self) = add (.address self) (.number val) := rfl

/-- The sum modulo `2 ^ 128`. -/
def IsSum (self : Ip6Address) (val : ℤ) (result : Option Ip6Address) : Prop :=
  ∃ sum, result = some sum ∧ (sum.number : ℤ) = (self.number + val) % 2 ^ 128

theorem isSum_add_iff (self : Ip6Address) (val : BitVec 64) :
    IsSum self val.toInt (add (.address self) (.number val)) ↔
      Ip6Address.AddsExactly self.uint64₀ val := by
  rw [← Ip6Address.addHalves_exact_iff self.uint64₀ self.uint64₁ val]
  constructor
  · rintro ⟨sum, hsum, hnumber⟩
    cases hsum
    exact hnumber
  · exact fun hnumber => ⟨_, rfl, hnumber⟩

theorem toInt_neg {val : BitVec 64} (hval : -2 ^ 63 < val.toInt) : (-val).toInt = -val.toInt := by
  have hneg : (-val).toNat = (2 ^ 64 - val.toNat) % 2 ^ 64 := BitVec.toNat_neg val
  rcases Ip6Address.toInt_cases val with hcase | hcase <;>
    rcases Ip6Address.toInt_cases (-val) with hcase' | hcase' <;> omega

theorem isSum_sub_iff (self : Ip6Address) {val : BitVec 64} (hval : -2 ^ 63 < val.toInt) :
    IsSum self (-val.toInt) (sub self val) ↔ Ip6Address.AddsExactly self.uint64₀ (-val) := by
  rw [← isSum_add_iff, toInt_neg hval, sub]

end Ip6Addr

namespace Ip6Address

theorem number_lt (addr : Ip6Address) : addr.number < 2 ^ 128 := by
  have hlow := addr.uint64₀.isLt
  have hhigh := addr.uint64₁.isLt
  rw [number]
  omega

theorem number_inj {first second : Ip6Address} (heq : first.number = second.number) :
    first = second := by
  obtain ⟨low, high⟩ := first
  obtain ⟨low', high'⟩ := second
  simp only [number] at heq
  have hlow : low = low' := BitVec.eq_of_toNat_eq (by omega)
  have hhigh : high = high' := BitVec.eq_of_toNat_eq (by omega)
  rw [hlow, hhigh]

end Ip6Address

namespace Ip6Addr

/-- One of the two operations adds a number that is not negative and is right, so that the
other one is right exactly if they cancel. -/
theorem sub_add_iff (self : Ip6Address) {val : BitVec 64} (hval : -2 ^ 63 < val.toInt) :
    (∃ sum, add (.address self) (.number val) = some sum ∧ sub sum val = some self) ↔
      Ip6Address.AddsExactly self.uint64₀ val ∧
        Ip6Address.AddsExactly (self.uint64₀ + val) (-val) := by
  obtain ⟨sum, hsum, hlow⟩ : ∃ sum, add (.address self) (.number val) = some sum ∧
      sum.uint64₀ = self.uint64₀ + val :=
    ⟨_, rfl, Ip6Address.addHalves_fst self.uint64₀ self.uint64₁ val⟩
  obtain ⟨back, hback⟩ : ∃ back, sub sum val = some back := ⟨_, rfl⟩
  have hfirst : (sum.number : ℤ) = (self.number + val.toInt) % 2 ^ 128 ↔
      Ip6Address.AddsExactly self.uint64₀ val := by
    rw [← isSum_add_iff, IsSum, hsum]
    simp
  have hsecond : (back.number : ℤ) = (sum.number + -val.toInt) % 2 ^ 128 ↔
      Ip6Address.AddsExactly (self.uint64₀ + val) (-val) := by
    rw [← hlow, ← isSum_sub_iff sum hval, IsSum, hback]
    simp
  -- adding or subtracting is that of a number which is not negative
  have hnonneg : Ip6Address.AddsExactly self.uint64₀ val ∨
      Ip6Address.AddsExactly (self.uint64₀ + val) (-val) := by
    rcases le_total 0 val.toInt with hpos | hneg
    · exact Or.inl (Ip6Address.addsExactly_of_nonneg _ hpos)
    · refine Or.inr (Ip6Address.addsExactly_of_nonneg _ ?_)
      rw [toInt_neg hval]
      omega
  have hcancel : (∃ sum, add (.address self) (.number val) = some sum ∧
      sub sum val = some self) ↔ back.number = self.number := by
    rw [hsum]
    simp only [Option.some.injEq, exists_eq_left', hback]
    exact ⟨congrArg Ip6Address.number, Ip6Address.number_inj⟩
  have hself := self.number_lt
  have hbounds := sum.number_lt
  rw [hcancel, ← hfirst, ← hsecond]
  rw [← hfirst, ← hsecond] at hnonneg
  constructor
  · intro heq
    rcases hnonneg with h | h <;> omega
  · rintro ⟨h, h'⟩
    omega

/-- Addition and the addition in place are right exactly if the comparisons tell an underflow;
subtraction adds the negative number. A number that is added and subtracted again leaves the
address exactly if both are right. -/
theorem arithmetic_right_iff (addr : Ip6Address) (mem : Memory) (start : ℕ) (val : BitVec 64) :
    (IsSum addr val.toInt (add (.address addr) (.number val)) ↔
        Ip6Address.AddsExactly addr.uint64₀ val) ∧
      (IsSum addr val.toInt (add (.number val) (.address addr)) ↔
        Ip6Address.AddsExactly addr.uint64₀ val) ∧
      (-2 ^ 63 < val.toInt →
        (IsSum addr (-val.toInt) (sub addr val) ↔
          Ip6Address.AddsExactly addr.uint64₀ (-val))) ∧
      ((fromBigEndian ((addInPlace mem start val).load start 16) : ℤ) =
          (fromBigEndian (mem.load start 16) + val.toInt) % 2 ^ 128 ↔
        Ip6Address.AddsExactly (get mem start).uint64₀ val) ∧
      add (.address (get mem start)) (.number val) =
        some (get (addInPlace mem start val) start) ∧
      (-2 ^ 63 < val.toInt →
        ((∃ sum, add (.address addr) (.number val) = some sum ∧ sub sum val = some addr) ↔
          Ip6Address.AddsExactly addr.uint64₀ val ∧
            Ip6Address.AddsExactly (addr.uint64₀ + val) (-val))) := by
  refine ⟨isSum_add_iff addr val, isSum_add_iff addr val, isSum_sub_iff addr, ?_,
    get_addInPlace mem start val, sub_add_iff addr⟩
  rw [← isSum_add_iff, get_addInPlace, IsSum, ← number_get, ← number_get]
  simp

/-- `::a` less 1 is `ffff:ffff:ffff:ffff::9`. -/
theorem sub_one_not_isSum :
    ¬ IsSum ⟨10, 0⟩ (-1) (add (.address ⟨10, 0⟩) (.number (-1))) := by
  rintro ⟨sum, hsum, hnumber⟩
  cases hsum
  revert hnumber
  decide

end Ip6Addr

end Libmoon.Packet
