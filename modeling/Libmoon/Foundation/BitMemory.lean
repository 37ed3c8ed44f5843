import Libmoon.Foundation.ByteMemory
import Mathlib.Data.Nat.Digits.Defs

/-! # Bits of a memory

Fields of a header can be smaller than a byte, so that writing one of them keeps the other
bits of a word. What a sequence of such writes does is said bit by bit: every bit that a
memory takes over from another one is restored, and no bit becomes anything else.
-/

namespace Foundation

namespace Memory

/-- A bit of the byte at an address. -/
def bit (mem : Memory) (i k : Nat) : Bool := (mem i).toBitVec.getLsbD k

/-- The word of `size` bytes at an address. -/
def word (mem : Memory) (start : Nat) : (size : Nat) → BitVec (8 * size)
  | 0 => 0#0
  | size + 1 => mem.word (start + 1) size ++ (mem start).toBitVec

/-- Overwrite a word. -/
def setWord (mem : Memory) (start : Nat) {size : Nat} (word : BitVec (8 * size)) : Memory := fun i =>
  if start ≤ i ∧ i < start + size then ⟨word.extractLsb' (8 * (i - start)) 8⟩ else mem i

variable {mem mem' : Memory} {start size : Nat}

theorem eq_of_bit_eq {i : Nat} (hbits : ∀ k < 8, mem.bit i k = mem'.bit i k) : mem i = mem' i :=
  UInt8.toBitVec_inj.mp (BitVec.eq_of_getLsbD_eq hbits)

theorem bit_of_le (mem : Memory) (i : Nat) {k : Nat} (hk : 8 ≤ k) : mem.bit i k = false :=
  BitVec.getLsbD_of_ge _ _ hk

theorem getLsbD_word (mem : Memory) (start size i : Nat) :
    (mem.word start size).getLsbD i = (decide (i < 8 * size) && mem.bit (start + i / 8) (i % 8)) := by
  induction size generalizing start i with
  | zero => simp [word]
  | succ size ih =>
      rw [word, BitVec.getLsbD_append, ih]
      split
      next hlow =>
        have hin : i < 8 * (size + 1) := by omega
        simp [hin, bit, Nat.div_eq_of_lt hlow, Nat.mod_eq_of_lt hlow]
      next hhigh =>
        have hdiv : start + 1 + (i - 8) / 8 = start + i / 8 := by omega
        have hmod : (i - 8) % 8 = i % 8 := by omega
        have hin : i - 8 < 8 * size ↔ i < 8 * (size + 1) := by omega
        rw [hdiv, hmod, decide_eq_decide.mpr hin]

theorem toNat_word (mem : Memory) (start size : Nat) :
    (mem.word start size).toNat = Nat.ofDigits 256 ((mem.load start size).map UInt8.toNat) := by
  induction size generalizing start with
  | zero => rfl
  | succ size ih =>
      have hlt : (mem start).toBitVec.toNat < 2 ^ 8 := (mem start).toBitVec.isLt
      rw [word, BitVec.toNat_append, ih, ← Nat.shiftLeft_add_eq_or_of_lt hlt, Nat.shiftLeft_eq]
      simp only [load, List.range'_succ, List.map_cons, Nat.ofDigits_cons]
      rw [Nat.add_comm, Nat.mul_comm]
      rfl

theorem toNat_word_one (mem : Memory) (start : Nat) :
    (mem.word start 1).toNat = (mem start).toNat := by
  rw [toNat_word]
  simp [load]

theorem getD_load (mem : Memory) (start : Nat) {length i : Nat} (hi : i < length) :
    (mem.load start length).getD i 0 = mem (start + i) := by
  have hlt : i < (mem.load start length).length := by
    rw [length_load]
    exact hi
  rw [List.getD_eq_getElem _ _ hlt]
  simp [load]

/-- Memories that agree on a span have the same word there. -/
theorem word_congr {start' : Nat} (hagree : ∀ j < size, mem (start + j) = mem' (start' + j)) :
    mem.word start size = mem'.word start' size := by
  apply BitVec.eq_of_getLsbD_eq
  intro i hi
  rw [getLsbD_word, getLsbD_word, bit, hagree (i / 8) (by omega), bit]

theorem bit_setWord_of_mem (word : BitVec (8 * size)) {j k : Nat} (hj : j < size) (hk : k < 8) :
    (mem.setWord start word).bit (start + j) k = word.getLsbD (8 * j + k) := by
  have hin : start ≤ start + j ∧ start + j < start + size := by omega
  simp [bit, setWord, hin, hk]

theorem setWord_of_not_mem (word : BitVec (8 * size)) {i : Nat}
    (hi : ¬ (start ≤ i ∧ i < start + size)) : mem.setWord start word i = mem i :=
  if_neg hi

/-- A word that was written is read again. -/
theorem word_setWord (mem : Memory) (start : Nat) (word : BitVec (8 * size)) :
    (mem.setWord start word).word start size = word := by
  apply BitVec.eq_of_getLsbD_eq
  intro i hi
  rw [getLsbD_word, bit_setWord_of_mem word (by omega) (Nat.mod_lt i (by decide)),
    decide_eq_true hi, Bool.true_and, Nat.div_add_mod]

/-- Writing a word of a memory copies its bytes. -/
theorem setWord_word_apply (src : Memory) (origin : Nat) {j : Nat} (hj : j < size) :
    mem.setWord start (src.word origin size) (start + j) = src (origin + j) := by
  have hbits : ∀ k < 8, (mem.setWord start (src.word origin size)).bit (start + j) k =
      src.bit (origin + j) k := by
    intro k hk
    have hlt : 8 * j + k < 8 * size := by omega
    have hdiv : (8 * j + k) / 8 = j := by omega
    have hmod : (8 * j + k) % 8 = k := by omega
    rw [bit_setWord_of_mem _ hj hk, getLsbD_word, hdiv, hmod, decide_eq_true hlt, Bool.true_and]
  exact UInt8.toBitVec_inj.mp (BitVec.eq_of_getLsbD_eq hbits)

/-- Writing the word that is there changes nothing. -/
theorem setWord_word (mem : Memory) (start size : Nat) :
    mem.setWord start (mem.word start size) = mem := by
  funext i
  by_cases hi : start ≤ i ∧ i < start + size
  · obtain ⟨j, rfl⟩ := Nat.exists_eq_add_of_le hi.1
    exact setWord_word_apply mem start (by omega)
  · exact setWord_of_not_mem _ hi

/-- The last of two words that are written to one place stays. -/
theorem setWord_setWord (mem : Memory) (start : Nat) (first second : BitVec (8 * size)) :
    (mem.setWord start first).setWord start second = mem.setWord start second := by
  funext i
  unfold setWord
  split <;> rfl

/-- A write elsewhere leaves a word alone. -/
theorem word_setWord_of_disjoint {start' size' : Nat} (word : BitVec (8 * size))
    (hdisjoint : start' + size' ≤ start ∨ start + size ≤ start') :
    (mem.setWord start word).word start' size' = mem.word start' size' := by
  apply word_congr
  intro j hj
  exact setWord_of_not_mem word (by omega)

end Memory

/-- Some bits as a part of a word. -/
theorem toNat_setWidth_shiftLeft {width size place : Nat} (bits : BitVec width)
    (hsize : width + place ≤ size) :
    (bits.setWidth size <<< place).toNat = bits.toNat <<< place := by
  have hlt : bits.toNat <<< place < 2 ^ size := by
    rw [Nat.shiftLeft_eq]
    calc bits.toNat * 2 ^ place < 2 ^ width * 2 ^ place :=
          Nat.mul_lt_mul_of_pos_right bits.isLt (Nat.two_pow_pos place)
      _ = 2 ^ (width + place) := (Nat.pow_add 2 width place).symm
      _ ≤ 2 ^ size := Nat.pow_le_pow_right Nat.two_pos hsize
  rw [BitVec.toNat_shiftLeft, BitVec.toNat_setWidth_of_le (by omega), Nat.mod_eq_of_lt hlt]

/-- Take the bits of a mask over. -/
def merge {width : Nat} (mask old new : BitVec width) : BitVec width :=
  (old &&& ~~~mask) ||| (new &&& mask)

theorem getLsbD_merge {width : Nat} (mask old new : BitVec width) {i : Nat} (hi : i < width) :
    (merge mask old new).getLsbD i = if mask.getLsbD i then new.getLsbD i else old.getLsbD i := by
  simp only [merge, BitVec.getLsbD_or, BitVec.getLsbD_and, BitVec.getLsbD_not, hi, decide_true]
  cases mask.getLsbD i <;> simp

theorem merge_allOnes {width : Nat} (old new : BitVec width) :
    merge (BitVec.allOnes width) old new = new := by
  apply BitVec.eq_of_getLsbD_eq
  intro i hi
  rw [getLsbD_merge _ _ _ hi, BitVec.getLsbD_allOnes, decide_eq_true hi, if_pos rfl]

/-- A field that is masked when it is read and when it is written takes over what both masks
let through. -/
theorem merge_shifted {width place : Nat} {mask keep low : BitVec width} (hkeep : keep = ~~~mask)
    (hlow : (low <<< place) &&& mask = mask) (old new : BitVec width) :
    (old &&& keep) ||| ((((new >>> place) &&& low) <<< place) &&& mask) = merge mask old new := by
  subst hkeep
  refine congrArg ((old &&& ~~~mask) ||| ·) (BitVec.eq_of_getLsbD_eq fun i hi => ?_)
  have hbit := congrArg (BitVec.getLsbD · i) hlow
  simp only [BitVec.getLsbD_and, BitVec.getLsbD_shiftLeft, BitVec.getLsbD_ushiftRight, hi,
    decide_true, Bool.true_and] at hbit ⊢
  by_cases hplace : i < place
  · simp only [hplace, decide_true, Bool.not_true, Bool.false_and] at hbit ⊢
    rw [← hbit, Bool.and_false]
  · simp only [hplace, decide_false, Bool.not_false, Bool.true_and,
      Nat.add_sub_cancel' (Nat.le_of_not_lt hplace)] at hbit ⊢
    rw [Bool.and_assoc, hbit]

/-- Some bits of a byte, which is counted from the beginning of a header. -/
structure Part where
  offset : Nat
  mask : BitVec 8
deriving DecidableEq, Repr

/-- The bits of a word at an offset. -/
def wordParts (offset : Nat) {size : Nat} (mask : BitVec (8 * size)) : List Part :=
  (List.range size).map fun j => ⟨offset + j, mask.extractLsb' (8 * j) 8⟩

/-- Whole bytes from an offset on. -/
def wholeBytes (offset size : Nat) : List Part :=
  (List.range size).map fun j => ⟨offset + j, 0xff#8⟩

theorem wholeBytes_append (offset first second : Nat) :
    wholeBytes offset first ++ wholeBytes (offset + first) second =
      wholeBytes offset (first + second) := by
  simp [wholeBytes, List.range_add, Nat.add_assoc]

theorem wordParts_allOnes (offset size : Nat) :
    wordParts offset (BitVec.allOnes (8 * size)) = wholeBytes offset size := by
  apply List.map_congr_left
  intro j hj
  have hmask : (BitVec.allOnes (8 * size)).extractLsb' (8 * j) 8 = BitVec.allOnes 8 := by
    apply BitVec.eq_of_getLsbD_eq
    intro k hk
    have hlt : 8 * j + k < 8 * size := by
      have := List.mem_range.mp hj
      omega
    rw [BitVec.getLsbD_extractLsb', BitVec.getLsbD_allOnes, BitVec.getLsbD_allOnes,
      decide_eq_true hk, decide_eq_true hlt, Bool.and_self]
  rw [hmask]
  rfl

/-- Some bits of a memory have been taken over from another one, and nothing else has
happened to it. -/
structure Restored (src : Memory) (base : Nat) (parts : List Part) (dst dst' : Memory) : Prop where
  kept : ∀ i k, dst'.bit i k = dst.bit i k ∨ dst'.bit i k = src.bit i k
  restored : ∀ part ∈ parts, ∀ k < 8, part.mask.getLsbD k →
    dst'.bit (base + part.offset) k = src.bit (base + part.offset) k

namespace Restored

variable {src dst dst' dst'' : Memory} {base offset size : Nat} {parts parts' : List Part}

theorem refl (src dst : Memory) (base : Nat) : Restored src base [] dst dst :=
  ⟨fun _ _ => .inl rfl, nofun⟩

theorem mono (hrestored : Restored src base parts dst dst') (hparts : parts' ⊆ parts) :
    Restored src base parts' dst dst' :=
  ⟨hrestored.kept, fun part hpart => hrestored.restored part (hparts hpart)⟩

/-- What is restored stays restored. -/
theorem trans (hfirst : Restored src base parts dst dst')
    (hsecond : Restored src base parts' dst' dst'') :
    Restored src base (parts ++ parts') dst dst'' := by
  refine ⟨?_, ?_⟩
  · intro i k
    rcases hsecond.kept i k with hkept | hsrc
    · rw [hkept]
      exact hfirst.kept i k
    · exact .inr hsrc
  · intro part hpart k hk hmask
    rcases List.mem_append.mp hpart with hmem | hmem
    · rcases hsecond.kept (base + part.offset) k with hkept | hsrc
      · rw [hkept]
        exact hfirst.restored part hmem k hk hmask
      · exact hsrc
    · exact hsecond.restored part hmem k hk hmask

/-- Write a word that takes the bits of a mask over. -/
theorem setWord (mask word : BitVec (8 * size))
    (hword : word = merge mask (dst.word (base + offset) size) (src.word (base + offset) size)) :
    Restored src base (wordParts offset mask) dst (dst.setWord (base + offset) word) := by
  have hbit {j k : Nat} (hj : j < size) (hk : k < 8) :
      (dst.setWord (base + offset) word).bit (base + offset + j) k =
        if mask.getLsbD (8 * j + k) then src.bit (base + offset + j) k
        else dst.bit (base + offset + j) k := by
    have hlt : 8 * j + k < 8 * size := by omega
    have hdiv : (8 * j + k) / 8 = j := by omega
    have hmod : (8 * j + k) % 8 = k := by omega
    rw [Memory.bit_setWord_of_mem _ hj hk, hword, getLsbD_merge _ _ _ hlt]
    simp only [Memory.getLsbD_word, hlt, hdiv, hmod, decide_true, Bool.true_and]
  refine ⟨?_, ?_⟩
  · intro i k
    by_cases hk : k < 8
    · by_cases hi : base + offset ≤ i ∧ i < base + offset + size
      · obtain ⟨j, rfl⟩ := Nat.exists_eq_add_of_le hi.1
        rw [hbit (by omega) hk]
        split
        next => exact .inr rfl
        next => exact .inl rfl
      · left
        rw [Memory.bit, Memory.setWord_of_not_mem _ hi, Memory.bit]
    · left
      rw [Memory.bit_of_le _ _ (by omega), Memory.bit_of_le _ _ (by omega)]
  · intro part hpart k hk hmask
    obtain ⟨j, hj, rfl⟩ := List.mem_map.mp hpart
    rw [BitVec.getLsbD_extractLsb', Bool.and_eq_true] at hmask
    rw [← Nat.add_assoc, hbit (List.mem_range.mp hj) hk, if_pos hmask.2]

/-- Write the word behind some bytes that have been restored. -/
theorem setWhole {count : Nat} (hbefore : Restored src base (wholeBytes offset count) dst dst')
    (word : BitVec (8 * size)) (hword : word = src.word (base + offset + count) size) :
    Restored src base (wholeBytes offset (count + size)) dst
      (dst'.setWord (base + offset + count) word) := by
  rw [← wholeBytes_append, Nat.add_assoc base]
  apply hbefore.trans
  rw [← wordParts_allOnes]
  apply setWord
  rw [hword, merge_allOnes, Nat.add_assoc]

theorem none (src dst : Memory) (base offset : Nat) :
    Restored src base (wholeBytes offset 0) dst dst :=
  refl src dst base

/-- Write a single word. -/
theorem whole (word : BitVec (8 * size)) (hword : word = src.word (base + offset) size) :
    Restored src base (wholeBytes offset size) dst (dst.setWord (base + offset) word) := by
  have hall := (none src dst base offset).setWhole word hword
  rw [Nat.zero_add] at hall
  exact hall

/-- Where every bit of a byte has been restored, the byte has. -/
theorem eq_of_covered (hrestored : Restored src base parts dst dst')
    (hcovered : ∀ k < 8, ∃ part ∈ parts, part.offset = offset ∧ part.mask.getLsbD k) :
    dst' (base + offset) = src (base + offset) := by
  apply Memory.eq_of_bit_eq
  intro k hk
  obtain ⟨part, hpart, rfl, hmask⟩ := hcovered k hk
  exact hrestored.restored part hpart k hk hmask

/-- A byte that is right already stays so. -/
theorem eq_of_eq (hrestored : Restored src base parts dst dst') {i : Nat} (hi : dst i = src i) :
    dst' i = src i := by
  apply Memory.eq_of_bit_eq
  intro k _
  rcases hrestored.kept i k with hkept | hsrc
  · rw [hkept, Memory.bit, hi, Memory.bit]
  · exact hsrc

end Restored

end Foundation
