import Libmoon.FastPipe.Queue
import Mathlib.Data.Nat.ModEq

/-! # What one block holds

The elements of a block lie from `front` to `tail`, counted around the block. The
producer's copy of `front` may lag behind and the consumer's copy of `tail` may, so
each side sees less room, or fewer elements, than there is.
-/

namespace Libmoon.FastPipe

variable {α : Type}

/-! ## Positions around a block -/

theorem eq_of_add_mod_eq {start n m size : Nat} (hn : n < size) (hm : m < size)
    (heq : (start + n) % size = (start + m) % size) : n = m := by
  have hcancel : n ≡ m [MOD size] := Nat.ModEq.add_left_cancel' start heq
  rwa [Nat.ModEq, Nat.mod_eq_of_lt hn, Nat.mod_eq_of_lt hm] at hcancel

def Block.size (block : Block α) : Nat :=
  block.sizeMask + 1

@[simp] theorem Block.put_data (block : Block α) (slot : Nat) (element : α) :
    (block.put slot element).data = Function.update block.data slot (some element) := rfl

/-- The block holds these elements, in this order. -/
structure Block.Holds (block : Block α) (queued : List α) : Prop where
  size_pow : ∃ k ≤ 64, block.size = 2 ^ k
  front_lt : block.front < block.size
  tail_eq : block.tail = (block.front + queued.length) % block.size
  slots : ∀ i (hi : i < queued.length),
    block.data ((block.front + i) % block.size) = some queued[i]
  /-- The consumer has seen some of the elements. -/
  seen : ∃ n ≤ queued.length, block.localTail = (block.front + n) % block.size
  /-- The producer has not seen all slots become free, and one slot stays unused. -/
  freed : ∃ n, block.localFront < block.size ∧
    block.front = (block.localFront + n) % block.size ∧ n + queued.length < block.size

namespace Block.Holds

variable {block : Block α} {queued rest : List α} {element : α}

theorem and_sizeMask (hholds : block.Holds queued) (n : Nat) :
    n &&& block.sizeMask = n % block.size := by
  obtain ⟨k, -, hk⟩ := hholds.size_pow
  have hmask : block.sizeMask = 2 ^ k - 1 := by
    unfold Block.size at hk
    omega
  rw [hk, hmask, Nat.and_two_pow_sub_one_eq_mod]

theorem length_lt (hholds : block.Holds queued) : queued.length < block.size := by
  obtain ⟨n, -, -, hroom⟩ := hholds.freed
  omega

theorem front_eq (hholds : block.Holds queued) : (block.front + 0) % block.size = block.front :=
  Nat.mod_eq_of_lt hholds.front_lt

theorem front_eq_tail_iff (hholds : block.Holds queued) :
    block.front = block.tail ↔ queued = [] := by
  rw [← List.length_eq_zero_iff]
  constructor
  · intro heq
    have hmod : (block.front + queued.length) % block.size = (block.front + 0) % block.size := by
      rw [hholds.front_eq, ← hholds.tail_eq, heq]
    exact eq_of_add_mod_eq hholds.length_lt (Nat.zero_lt_of_lt hholds.front_lt) hmod
  · intro hempty
    rw [hholds.tail_eq, hempty, hholds.front_eq]

/-- What the consumer has seen is there. -/
theorem ne_nil_of_localTail (hholds : block.Holds queued) (hne : block.front ≠ block.localTail) :
    queued ≠ [] := by
  obtain ⟨n, hn, hlocal⟩ := hholds.seen
  rintro rfl
  obtain rfl : n = 0 := Nat.le_zero.mp hn
  exact hne (hholds.front_eq.symm.trans hlocal.symm)

theorem data_front (hholds : block.Holds (element :: rest)) :
    block.data block.front = some element := by
  have hslot := hholds.slots 0 (by simp)
  rwa [hholds.front_eq] at hslot

/-- The block is full exactly if the next position of `tail` is `front`. -/
theorem full_of_next_eq (hholds : block.Holds queued)
    (hfull : (block.tail + 1) &&& block.sizeMask = block.front) :
    queued.length + 1 = block.size := by
  have hlength := hholds.length_lt
  by_contra hne
  rw [hholds.and_sizeMask, hholds.tail_eq, Nat.mod_add_mod, Nat.add_assoc,
    ← hholds.front_eq, Nat.mod_add_mod] at hfull
  have hzero := eq_of_add_mod_eq (by omega) (Nat.zero_lt_of_lt hholds.front_lt) hfull
  omega

/-- A next position of `tail` other than the producer's copy of `front` leaves room. -/
theorem room_of_next_ne (hholds : block.Holds queued)
    (hroom : (block.tail + 1) &&& block.sizeMask ≠ block.localFront) :
    ∃ n, block.localFront < block.size ∧
      block.front = (block.localFront + n) % block.size ∧ n + queued.length + 1 < block.size := by
  obtain ⟨n, hlocal, hfront, hlength⟩ := hholds.freed
  refine ⟨n, hlocal, hfront, ?_⟩
  by_contra hfull
  apply hroom
  have hwrapped : block.localFront + n + (queued.length + 1) = block.localFront + block.size := by
    omega
  rw [hholds.and_sizeMask, hholds.tail_eq, hfront, Nat.mod_add_mod, Nat.add_assoc,
    Nat.mod_add_mod, hwrapped, Nat.add_mod_right, Nat.mod_eq_of_lt hlocal]

/-! ## The producer's accesses -/

theorem loadFront (hholds : block.Holds queued) :
    ({ block with localFront := block.front } : Block α).Holds queued :=
  { hholds with
    freed := ⟨0, hholds.front_lt, hholds.front_eq.symm, by
      rw [Nat.zero_add]
      exact hholds.length_lt⟩ }

/-- The slot at `tail` is not in use. -/
theorem put_tail (hholds : block.Holds queued) (element : α) :
    (block.put block.tail element).Holds queued :=
  { hholds with
    slots := by
      intro i hi
      have hlength := hholds.length_lt
      have hne : (block.front + i) % block.size ≠ block.tail := by
        intro heq
        rw [hholds.tail_eq] at heq
        have := eq_of_add_mod_eq (by omega) hlength heq
        omega
      rw [Block.put_data]
      exact (Function.update_of_ne hne _ _).trans (hholds.slots i hi) }

/-- Moving `tail` on makes the element in its slot the last of the block. -/
theorem storeTail (hholds : block.Holds queued) (hslot : block.data block.tail = some element)
    (hroom : (block.tail + 1) &&& block.sizeMask ≠ block.localFront) :
    ({ block with tail := (block.tail + 1) &&& block.sizeMask } : Block α).Holds
      (queued ++ [element]) := by
  obtain ⟨n, hlocal, hfront, hlength⟩ := hholds.room_of_next_ne hroom
  refine ⟨hholds.size_pow, hholds.front_lt, ?_, ?_, ?_, n, hlocal, hfront, ?_⟩
  · show (block.tail + 1) &&& block.sizeMask = (block.front + (queued ++ [element]).length) % _
    rw [hholds.and_sizeMask, hholds.tail_eq, Nat.mod_add_mod, List.length_append,
      List.length_singleton, Nat.add_assoc]
    rfl
  · intro i hi
    rw [List.length_append, List.length_singleton] at hi
    show block.data ((block.front + i) % block.size) = _
    by_cases hlast : i < queued.length
    · rw [List.getElem_append_left hlast]
      exact hholds.slots i hlast
    · obtain rfl : i = queued.length := by omega
      rw [← hholds.tail_eq, hslot, List.getElem_concat_length rfl]
  · obtain ⟨m, hm, htail⟩ := hholds.seen
    exact ⟨m, by simp; omega, htail⟩
  · show n + (queued ++ [element]).length < block.size
    rw [List.length_append, List.length_singleton]
    omega

/-! ## The consumer's accesses -/

theorem loadTail (hholds : block.Holds queued) :
    ({ block with localTail := block.tail } : Block α).Holds queued :=
  { hholds with seen := ⟨queued.length, Nat.le_refl _, hholds.tail_eq⟩ }

/-- Moving `front` on removes the first element, if the consumer has seen it. -/
theorem storeFront (hholds : block.Holds (element :: rest))
    (hseen : block.front ≠ block.localTail) :
    ({ block with front := (block.front + 1) &&& block.sizeMask } : Block α).Holds rest := by
  have hnext (n : Nat) : ((block.front + 1) % block.size + n) % block.size =
      (block.front + (n + 1)) % block.size := by
    rw [Nat.mod_add_mod]
    congr 1
    omega
  rw [hholds.and_sizeMask]
  refine ⟨hholds.size_pow, Nat.mod_lt _ (Nat.zero_lt_of_lt hholds.front_lt), ?_, ?_, ?_, ?_⟩
  · exact hholds.tail_eq.trans (hnext rest.length).symm
  · intro i hi
    have hslot := hholds.slots (i + 1) (by simpa using hi)
    rw [List.getElem_cons_succ] at hslot
    rw [← hslot]
    exact congrArg block.data (hnext i)
  · obtain ⟨n, hn, htail⟩ := hholds.seen
    cases n with
    | zero => exact absurd (hholds.front_eq.symm.trans htail.symm) hseen
    | succ n => exact ⟨n, by simpa using hn, htail.trans (hnext n).symm⟩
  · obtain ⟨n, hlocal, hfront, hlength⟩ := hholds.freed
    refine ⟨n + 1, hlocal, ?_, ?_⟩
    · show (block.front + 1) % block.size = _
      rw [hfront, Nat.mod_add_mod, Nat.add_assoc]
      rfl
    · show n + 1 + rest.length < block.size
      rw [List.length_cons] at hlength
      omega

/-! ## New blocks -/

theorem withNext (hholds : block.Holds queued) (next : Nat) :
    ({ block with next := next } : Block α).Holds queued := { hholds with }

end Block.Holds

variable {capacity : Nat}

theorem makeBlock_size (hcapacity : 0 < capacity) (next : Nat) :
    (makeBlock capacity next : Block α).size = capacity := by
  show capacity - 1 + 1 = capacity
  omega

theorem makeBlock_holds (hcapacity : ∃ k ≤ 64, capacity = 2 ^ k) (next : Nat) :
    (makeBlock capacity next : Block α).Holds [] := by
  obtain ⟨k, hk, rfl⟩ := hcapacity
  have hsize := makeBlock_size (α := α) (Nat.two_pow_pos k) next
  have hpos := Nat.two_pow_pos k
  refine ⟨⟨k, hk, hsize⟩, ?_, ?_, ?_, ⟨0, Nat.le_refl 0, ?_⟩, 0, ?_, ?_, ?_⟩ <;>
    simp only [hsize] <;> simp [makeBlock, hpos]

/-- A new block that comes with its first element. -/
theorem makeBlock_put_holds (hcapacity : ∃ k ≤ 64, capacity = 2 ^ k) (htwo : 2 ≤ capacity)
    (next : Nat) (element : α) :
    ({ (makeBlock capacity next).put 0 element with tail := 1, localTail := 1 } : Block α).Holds
      [element] := by
  have hempty := makeBlock_holds (α := α) hcapacity next
  have hsize := makeBlock_size (α := α) (by omega : 0 < capacity) next
  have hmask : (1 : Nat) &&& (makeBlock capacity next : Block α).sizeMask = 1 := by
    rw [hempty.and_sizeMask, hsize, Nat.mod_eq_of_lt (by omega)]
  have hput := hempty.put_tail element
  have hslot : ((makeBlock capacity next).put 0 element).data 0 = some element := by
    simp [Block.put]
  have hstored := hput.storeTail hslot (by
    show (0 + 1) &&& (makeBlock capacity next : Block α).sizeMask ≠ 0
    rw [Nat.zero_add, hmask]
    decide)
  have hseen := hstored.loadTail
  have htail : ((makeBlock capacity next : Block α).tail + 1) &&&
      (makeBlock capacity next : Block α).sizeMask = 1 := hmask
  simp only [Block.put, htail] at hseen
  exact hseen

end Libmoon.FastPipe
