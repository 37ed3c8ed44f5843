import Libmoon.Foundation.BitMemory
import Libmoon.Foundation.LuaBit
import Mathlib.Algebra.Order.Ring.Nat
import Mathlib.Data.List.Induction

/-! # Numbers in network order

The bytes of a number with the highest one first, of any length. What a host of the other
byte order stores after a swap are these bytes.
-/

namespace Foundation

/-- The lowest `size` bytes of a number, the highest of them first. -/
def bigEndian : (size : ℕ) → ℕ → List UInt8
  | 0, _ => []
  | size + 1, number => UInt8.ofNat (number / 2 ^ (8 * size)) :: bigEndian size number

/-- The number that bytes in network order stand for. -/
def fromBigEndian (bytes : List UInt8) : ℕ :=
  bytes.foldl (fun number byte => 2 ^ 8 * number + byte.toNat) 0

@[simp] theorem length_bigEndian (size number : ℕ) : (bigEndian size number).length = size := by
  induction size with
  | zero => rfl
  | succ size ih => rw [bigEndian, List.length_cons, ih]

theorem foldl_bigEndian (start size number : ℕ) :
    (bigEndian size number).foldl (fun number byte => 2 ^ 8 * number + byte.toNat) start =
      start * 2 ^ (8 * size) + number % 2 ^ (8 * size) := by
  induction size generalizing start with
  | zero => simp [bigEndian, Nat.mod_one]
  | succ size ih =>
      have hbyte : (UInt8.ofNat (number / 2 ^ (8 * size))).toNat =
          number / 2 ^ (8 * size) % 2 ^ 8 :=
        UInt8.toNat_ofNat'
      have hpow : 2 ^ (8 * (size + 1)) = 2 ^ (8 * size) * 2 ^ 8 := by
        rw [← Nat.pow_add, Nat.mul_succ]
      rw [bigEndian, List.foldl_cons, ih, hbyte, hpow, Nat.mod_mul]
      ring

/-- What has been written is read again, as far as it fits. -/
theorem fromBigEndian_bigEndian (size number : ℕ) :
    fromBigEndian (bigEndian size number) = number % 2 ^ (8 * size) := by
  rw [fromBigEndian, foldl_bigEndian, Nat.zero_mul, Nat.zero_add]

theorem bigEndian_inj {size first second : ℕ} (hfirst : first < 2 ^ (8 * size))
    (hsecond : second < 2 ^ (8 * size)) (heq : bigEndian size first = bigEndian size second) :
    first = second := by
  have hread := congrArg fromBigEndian heq
  rwa [fromBigEndian_bigEndian, fromBigEndian_bigEndian, Nat.mod_eq_of_lt hfirst,
    Nat.mod_eq_of_lt hsecond] at hread

theorem bigEndian_one (number : ℕ) : bigEndian 1 number = [UInt8.ofNat number] := by
  simp [bigEndian]

theorem bigEndian_two (number : ℕ) :
    bigEndian 2 number = [UInt8.ofNat (number / 2 ^ 8), UInt8.ofNat number] := by
  simp [bigEndian]

theorem bigEndian_four (number : ℕ) :
    bigEndian 4 number = [UInt8.ofNat (number / 2 ^ 24), UInt8.ofNat (number / 2 ^ 16),
      UInt8.ofNat (number / 2 ^ 8), UInt8.ofNat number] := by
  simp [bigEndian]

/-- Bytes above those that are kept make no difference. -/
theorem bigEndian_add_mul (size number high : ℕ) :
    bigEndian size (high * 2 ^ (8 * size) + number) = bigEndian size number := by
  induction size generalizing high with
  | zero => rfl
  | succ size ih =>
      have hpow : high * 2 ^ (8 * (size + 1)) = high * 2 ^ 8 * 2 ^ (8 * size) := by
        rw [Nat.mul_succ, Nat.pow_add]
        ring
      rw [bigEndian, bigEndian, hpow, ih, Nat.add_comm,
        Nat.add_mul_div_right _ _ (Nat.two_pow_pos _)]
      congr 1
      apply UInt8.toNat_inj.mp
      rw [UInt8.toNat_ofNat', UInt8.toNat_ofNat', Nat.add_mul_mod_self_right]

/-- The bytes of a number in two parts. -/
theorem bigEndian_append (high low count size : ℕ) (hlow : low < 2 ^ (8 * size)) :
    bigEndian count high ++ bigEndian size low =
      bigEndian (count + size) (high * 2 ^ (8 * size) + low) := by
  induction count with
  | zero => rw [Nat.zero_add, bigEndian_add_mul, bigEndian, List.nil_append]
  | succ count ih =>
      have hbyte : (high * 2 ^ (8 * size) + low) / 2 ^ (8 * (count + size)) =
          high / 2 ^ (8 * count) := by
        rw [Nat.mul_add, Nat.add_comm (8 * count), Nat.pow_add, ← Nat.div_div_eq_div_mul,
          Nat.add_comm, Nat.add_mul_div_right _ _ (Nat.two_pow_pos _), Nat.div_eq_of_lt hlow,
          Nat.zero_add]
      rw [Nat.succ_add, bigEndian, bigEndian, hbyte, List.cons_append, ih]

/-- The bytes in front count for more. -/
theorem fromBigEndian_append (high low : List UInt8) :
    fromBigEndian (high ++ low) = fromBigEndian high * 2 ^ (8 * low.length) + fromBigEndian low := by
  have hfold (start : ℕ) :
      low.foldl (fun number byte => 2 ^ 8 * number + byte.toNat) start =
        start * 2 ^ (8 * low.length) + fromBigEndian low := by
    induction low generalizing start with
    | nil => simp [fromBigEndian]
    | cons byte rest ih =>
        rw [List.foldl_cons, fromBigEndian, List.foldl_cons, ih, ih, List.length_cons, Nat.mul_succ,
          Nat.pow_add]
        ring
  rw [fromBigEndian, List.foldl_append, hfold]
  rfl

/-- Bytes are those of the number that they stand for. -/
theorem bigEndian_fromBigEndian (bytes : List UInt8) :
    bigEndian bytes.length (fromBigEndian bytes) = bytes := by
  induction bytes with
  | nil => rfl
  | cons byte rest ih =>
      have hlt : fromBigEndian rest < 2 ^ (8 * rest.length) := by
        rw [← ih, fromBigEndian_bigEndian, length_bigEndian]
        exact Nat.mod_lt _ (Nat.two_pow_pos _)
      have hnumber : fromBigEndian (byte :: rest) =
          byte.toNat * 2 ^ (8 * rest.length) + fromBigEndian rest := by
        have hone : fromBigEndian [byte] = byte.toNat := by simp [fromBigEndian]
        rw [← hone]
        exact fromBigEndian_append [byte] rest
      rw [List.length_cons, bigEndian, hnumber, bigEndian_add_mul, ih, Nat.add_comm,
        Nat.add_mul_div_right _ _ (Nat.two_pow_pos _), Nat.div_eq_of_lt hlt, Nat.zero_add,
        UInt8.ofNat_toNat]

/-- Bytes in network order are digits in the reverse order. -/
theorem fromBigEndian_eq_ofDigits (bytes : List UInt8) :
    fromBigEndian bytes = Nat.ofDigits 256 (bytes.reverse.map UInt8.toNat) := by
  induction bytes using List.reverseRecOn with
  | nil => rfl
  | append_singleton bytes byte ih =>
      rw [fromBigEndian_append, List.reverse_append, List.reverse_singleton,
        List.singleton_append, List.map_cons, Nat.ofDigits_cons, ← ih]
      simp [fromBigEndian]
      ring

theorem fromBigEndian_lt (bytes : List UInt8) :
    fromBigEndian bytes < 2 ^ (8 * bytes.length) := by
  rw [← bigEndian_fromBigEndian bytes, fromBigEndian_bigEndian, length_bigEndian]
  exact Nat.mod_lt _ (Nat.two_pow_pos _)

/-- Read a number in network order off the front. -/
def takeBigEndian (size : ℕ) (bytes : List UInt8) : Option (ℕ × List UInt8) :=
  if size ≤ bytes.length then some (fromBigEndian (bytes.take size), bytes.drop size) else none

theorem takeBigEndian_append (size : ℕ) {number : ℕ} (hnumber : number < 2 ^ (8 * size))
    (rest : List UInt8) :
    takeBigEndian size (bigEndian size number ++ rest) = some (number, rest) := by
  have hlength : size ≤ (bigEndian size number ++ rest).length := by simp
  rw [takeBigEndian, if_pos hlength, List.take_left' (length_bigEndian size number),
    List.drop_left' (length_bigEndian size number), fromBigEndian_bigEndian,
    Nat.mod_eq_of_lt hnumber]

theorem length_of_takeBigEndian {size number : ℕ} {bytes rest : List UInt8}
    (htake : takeBigEndian size bytes = some (number, rest)) :
    bytes.length = size + rest.length := by
  unfold takeBigEndian at htake
  split at htake
  next hle =>
    obtain ⟨_, rfl⟩ := Prod.mk.inj (Option.some.inj htake)
    rw [List.length_drop]
    omega
  next => cases htake

/-! ## Swapped words -/

theorem toNat_bswap16 {number : ℕ} (hnumber : number < 2 ^ 16) :
    (bswap16 (BitVec.ofNat 32 number)).toNat = 2 ^ 8 * (number % 2 ^ 8) + number / 2 ^ 8 := by
  have hlow : number / 2 ^ 8 < 2 ^ 8 := by omega
  have hwide : number % 2 ^ 32 = number := by omega
  have hbits : (0xff#32).toNat = 2 ^ 8 - 1 := rfl
  rw [bswap16, BitVec.or_comm, BitVec.toNat_or, BitVec.toNat_shiftLeft, BitVec.toNat_and,
    BitVec.toNat_ushiftRight, BitVec.toNat_ofNat, hwide, hbits, Nat.and_two_pow_sub_one_eq_mod,
    Nat.shiftRight_eq_div_pow, Nat.mod_eq_of_lt, ← Nat.shiftLeft_add_eq_or_of_lt hlow,
    Nat.shiftLeft_eq, Nat.mul_comm]
  rw [Nat.shiftLeft_eq]
  omega

/-- A number that is assigned to a `uint16_t` after a swap. -/
def hton16 (number : ℕ) : UInt16 := ⟨(bswap16 (tobit number)).setWidth 16⟩

/-- A `uint16_t` that is swapped when it is read. -/
def ntoh16 (word : UInt16) : ℕ := (bswap16 (tobit word.toNat)).toNat

theorem toNat_hton16 {number : ℕ} (hnumber : number < 2 ^ 16) :
    (hton16 number).toNat = 2 ^ 8 * (number % 2 ^ 8) + number / 2 ^ 8 := by
  have hlt : 2 ^ 8 * (number % 2 ^ 8) + number / 2 ^ 8 < 2 ^ 16 := by omega
  rw [hton16, tobit_natCast, UInt16.toNat, BitVec.toNat_setWidth, toNat_bswap16 hnumber,
    Nat.mod_eq_of_lt hlt]

theorem le16_hton16 {number : ℕ} (hnumber : number < 2 ^ 16) :
    le16 (hton16 number) = bigEndian 2 number := by
  have hhigh : (2 ^ 8 * (number % 2 ^ 8) + number / 2 ^ 8) / 2 ^ 8 = number % 2 ^ 8 := by omega
  have hlow : (2 ^ 8 * (number % 2 ^ 8) + number / 2 ^ 8) % 2 ^ 8 = number / 2 ^ 8 := by omega
  have hbyte (first second : ℕ) (hmod : first % 2 ^ 8 = second % 2 ^ 8) :
      UInt8.ofNat first = UInt8.ofNat second := by
    apply UInt8.toNat_inj.mp
    rw [UInt8.toNat_ofNat', UInt8.toNat_ofNat', hmod]
  rw [le16, toNat_hton16 hnumber, bigEndian_two, hhigh, hbyte _ (number / 2 ^ 8) (by omega),
    hbyte (number % 2 ^ 8) number (Nat.mod_mod _ _)]

theorem ntoh16_lt (word : UInt16) : ntoh16 word < 2 ^ 16 := by
  have hword := word.toNat_lt
  rw [ntoh16, tobit_natCast, toNat_bswap16 hword]
  omega

theorem ntoh16_hton16 {number : ℕ} (hnumber : number < 2 ^ 16) :
    ntoh16 (hton16 number) = number := by
  rw [ntoh16, tobit_natCast, toNat_bswap16 (hton16 number).toNat_lt, toNat_hton16 hnumber]
  omega

namespace Memory

variable (mem : Memory) (start : ℕ)

/-- Writing a word stores its bytes. -/
theorem setWord_eq_store {size : ℕ} (word : BitVec (8 * size)) :
    mem.setWord start word =
      mem.store start ((List.range size).map fun j => ⟨word.extractLsb' (8 * j) 8⟩) := by
  funext i
  rw [setWord, store, List.length_map, List.length_range]
  split
  next hin =>
    have hlt : i - start < ((List.range size).map fun j =>
        (⟨word.extractLsb' (8 * j) 8⟩ : UInt8)).length := by
      rw [List.length_map, List.length_range]
      omega
    rw [List.getD_eq_getElem _ _ hlt, List.getElem_map, List.getElem_range]
  next => rfl

/-- Writing a word of another memory copies its bytes. -/
theorem setWord_word_eq_store (src : Memory) (origin size : ℕ) :
    mem.setWord start (src.word origin size) = mem.store start (src.load origin size) := by
  funext i
  by_cases hi : start ≤ i ∧ i < start + size
  · obtain ⟨j, rfl⟩ := Nat.exists_eq_add_of_le hi.1
    have hj : j < size := by omega
    rw [setWord_word_apply src origin hj, store, length_load, if_pos hi, Nat.add_sub_cancel_left,
      getD_load src origin hj]
  · rw [setWord_of_not_mem _ hi, store, length_load, if_neg hi]

/-- A byte of a number is one of the word that holds the number. -/
theorem byte_eq_extractLsb (width number j : ℕ) (hj : 8 * j + 8 ≤ width) :
    UInt8.ofNat (number / 2 ^ (8 * j)) =
      ⟨(BitVec.ofNat width number).extractLsb' (8 * j) 8⟩ := by
  apply UInt8.toBitVec_inj.mp
  apply BitVec.eq_of_getLsbD_eq
  intro k hk
  have hlt : 8 * j + k < width := by omega
  rw [UInt8.toBitVec_ofNat', BitVec.getLsbD_ofNat, Nat.testBit_div_two_pow,
    BitVec.getLsbD_extractLsb', BitVec.getLsbD_ofNat, decide_eq_true hk, decide_eq_true hlt,
    Bool.true_and, Bool.true_and, Bool.true_and, Nat.add_comm]

/-- A word of one byte is the byte. -/
theorem ofBitVec_word_one : (⟨mem.word start 1⟩ : UInt8) = mem start := by
  apply UInt8.toNat_inj.mp
  rw [← toNat_word_one]
  rfl

theorem setWord_one (word : BitVec (8 * 1)) :
    mem.setWord start word = mem.store start [⟨word⟩] := by
  rw [setWord_eq_store, List.range_one, List.map_singleton, Nat.mul_zero]
  congr 2
  exact congrArg UInt8.ofBitVec (BitVec.eq_of_getLsbD_eq fun k hk => by simp)

/-- Another byte behind some that have been stored. -/
theorem store_setWord_one (bytes : List UInt8) (count : ℕ) (word : BitVec (8 * 1))
    (hcount : bytes.length = count) :
    (mem.store start bytes).setWord (start + count) word = mem.store start (bytes ++ [⟨word⟩]) := by
  rw [setWord_one, ← hcount, store_append]

/-- A number of one byte. -/
theorem setWord_byte (number : ℕ) :
    mem.setWord start (BitVec.ofNat (8 * 1) number) = mem.store start [UInt8.ofNat number] := by
  have hlow := byte_eq_extractLsb (8 * 1) number 0 (by decide)
  rw [Nat.mul_zero, Nat.pow_zero, Nat.div_one] at hlow
  rw [setWord_eq_store, List.range_one, List.map_singleton, hlow]

/-- A 16-bit number that is stored after a swap is in network order. -/
theorem setWord_bswap16 {number : ℕ} (hnumber : number < 2 ^ 16) :
    mem.setWord start ((bswap16 (BitVec.ofNat 32 number)).setWidth (8 * 2)) =
      mem.store start (bigEndian 2 number) := by
  have hswap (word : BitVec 16) (j : ℕ) (hj : j < 2) :
      ((bswap16 (word.setWidth 32)).setWidth (8 * 2)).extractLsb' (8 * j) 8 =
        word.extractLsb' (8 * (1 - j)) 8 := by
    apply BitVec.eq_of_getLsbD_eq
    intro k hk
    unfold bswap16
    interval_cases j <;> interval_cases k <;> simp
  have hwide : BitVec.ofNat 32 number = (BitVec.ofNat 16 number).setWidth 32 := by
    apply BitVec.eq_of_toNat_eq
    simp only [BitVec.toNat_setWidth, BitVec.toNat_ofNat]
    omega
  have hlow := byte_eq_extractLsb 16 number 0 (by decide)
  rw [Nat.mul_zero, Nat.pow_zero, Nat.div_one] at hlow
  rw [setWord_eq_store, bigEndian_two, hwide]
  simp only [List.range_succ, List.range_zero, List.nil_append, List.cons_append, List.map_cons,
    List.map_nil]
  rw [hswap _ 0 (by decide), hswap _ 1 (by decide), hlow,
    byte_eq_extractLsb 16 number 1 (by decide)]

/-- The bytes of 32 bits, the highest first. -/
theorem bigEndian_bits (bits : BitVec 32) :
    bigEndian 4 bits.toNat = [⟨bits.extractLsb' 24 8⟩, ⟨bits.extractLsb' 16 8⟩,
      ⟨bits.extractLsb' 8 8⟩, ⟨bits.extractLsb' 0 8⟩] := by
  have hlow := byte_eq_extractLsb 32 bits.toNat 0 (by decide)
  rw [Nat.mul_zero, Nat.pow_zero, Nat.div_one] at hlow
  rw [bigEndian_four, hlow, byte_eq_extractLsb 32 bits.toNat 1 (by decide),
    byte_eq_extractLsb 32 bits.toNat 2 (by decide), byte_eq_extractLsb 32 bits.toNat 3 (by decide),
    BitVec.ofNat_toNat, BitVec.setWidth_eq]

/-- 32 bits that are stored after a swap are in network order. -/
theorem setWord_bswap (bits : BitVec 32) :
    mem.setWord start ((bswap bits).setWidth (8 * 4)) =
      mem.store start (bigEndian 4 bits.toNat) := by
  have hswap (j : ℕ) (hj : j < 4) :
      ((bswap bits).setWidth (8 * 4)).extractLsb' (8 * j) 8 = bits.extractLsb' (8 * (3 - j)) 8 := by
    apply BitVec.eq_of_getLsbD_eq
    intro k hk
    unfold bswap
    interval_cases j <;> interval_cases k <;> simp
  rw [setWord_eq_store, bigEndian_bits]
  simp only [List.range_succ, List.range_zero, List.nil_append, List.cons_append, List.map_cons,
    List.map_nil]
  rw [hswap 0 (by decide), hswap 1 (by decide), hswap 2 (by decide), hswap 3 (by decide)]

/-- The bytes of a word in the reverse order are in network order. -/
theorem toNat_of_reversed {size : ℕ} {bits : BitVec (8 * size)}
    (hbits : ∀ i < 8 * size, bits.getLsbD i =
      (mem.word start size).getLsbD (8 * (size - 1 - i / 8) + i % 8)) :
    bits.toNat = fromBigEndian (mem.load start size) := by
  let turned : Memory := fun i => mem (start + (size - 1 - i))
  have hword : bits = turned.word 0 size := by
    apply BitVec.eq_of_getLsbD_eq
    intro i hi
    have hplace : 8 * (size - 1 - i / 8) + i % 8 < 8 * size := by omega
    have hdiv : (8 * (size - 1 - i / 8) + i % 8) / 8 = size - 1 - i / 8 := by omega
    have hmod : (8 * (size - 1 - i / 8) + i % 8) % 8 = i % 8 := by omega
    rw [hbits i hi, getLsbD_word, getLsbD_word, decide_eq_true hplace, decide_eq_true hi, hdiv,
      hmod, Nat.zero_add]
    rfl
  have hload : turned.load 0 size = (mem.load start size).reverse := by
    apply List.ext_getElem
    · simp
    · intro k hk _
      simp [load, turned]
  rw [hword, toNat_word, hload, fromBigEndian_eq_ofDigits]

theorem toNat_bswap_word :
    (bswap ((mem.word start 4).setWidth 32)).toNat = fromBigEndian (mem.load start 4) := by
  refine @toNat_of_reversed mem start 4 (bswap ((mem.word start 4).setWidth 32)) fun i hi => ?_
  rw [getLsbD_bswap _ hi, BitVec.setWidth_eq]

theorem toNat_bswap64_word :
    (bswap64 (mem.word start 8)).toNat = fromBigEndian (mem.load start 8) :=
  toNat_of_reversed mem start fun _ hi => getLsbD_bswap64 _ hi

/-- What a swap makes of a 16-bit word that is in network order. -/
theorem toNat_bswap16_word :
    (bswap16 ((mem.word start 2).setWidth 32)).toNat = fromBigEndian (mem.load start 2) := by
  have hload : mem.load start 2 = [mem start, mem (start + 1)] := rfl
  have hword : (mem.word start 2).toNat = (mem start).toNat + 2 ^ 8 * (mem (start + 1)).toNat := by
    rw [toNat_word, hload]
    simp [Nat.ofDigits_cons]
  have hfirst := (mem start).toNat_lt
  have hsecond := (mem (start + 1)).toNat_lt
  have hwide : (mem.word start 2).setWidth 32 = BitVec.ofNat 32 (mem.word start 2).toNat := by
    apply BitVec.eq_of_toNat_eq
    rw [BitVec.toNat_setWidth, BitVec.toNat_ofNat]
  rw [hwide, toNat_bswap16 (by omega), hword, hload]
  simp only [fromBigEndian, List.foldl_cons, List.foldl_nil]
  omega

end Memory

end Foundation
