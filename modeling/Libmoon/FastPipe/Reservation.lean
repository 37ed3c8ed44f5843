import Libmoon.FastPipe.Linearizable
import Libmoon.Foundation.BitSmear

/-! # A new queue and its whole life

The constructor reserves the slots for `maxSize` elements: one block that is large
enough, or as many blocks of the maximal size as are needed with one block to spare.
-/

namespace Libmoon.FastPipe

open Foundation

variable {α : Type}

/-! ## Rounding -/

theorem orShifted_toNat (x : UInt64) {shift : UInt64} (hshift : shift.toNat < 64) :
    (orShifted x shift).toNat = x.toNat ||| (x.toNat >>> shift.toNat) := by
  rw [orShifted, UInt64.toNat_or, UInt64.toNat_shiftRight, Nat.mod_eq_of_lt hshift]

/-- The least power of two that is not below. -/
theorem ceilToPow2_toNat {x : UInt64} (hpos : 0 < x.toNat) (hmax : x.toNat ≤ 2 ^ 63) :
    (ceilToPow2 x).toNat = 2 ^ (x.toNat - 1).size := by
  have hpred : (x - 1).toNat = x.toNat - 1 := by
    rw [UInt64.toNat_sub_of_le _ _ (by
      rw [UInt64.le_iff_toNat_le]
      exact hpos)]
    rfl
  have hsize : (x.toNat - 1).size ≤ 63 := Nat.size_le.mpr (by omega)
  have hsmeared : Smeared (x.toNat - 1) 64
      (orShifted (orShifted (orShifted (orShifted (orShifted (orShifted (x - 1) 1) 2) 4) 8) 16)
        32).toNat := by
    simp only [orShifted_toNat _ (show (32 : UInt64).toNat < 64 by decide),
      orShifted_toNat _ (show (16 : UInt64).toNat < 64 by decide),
      orShifted_toNat _ (show (8 : UInt64).toNat < 64 by decide),
      orShifted_toNat _ (show (4 : UInt64).toNat < 64 by decide),
      orShifted_toNat _ (show (2 : UInt64).toNat < 64 by decide),
      orShifted_toNat _ (show (1 : UInt64).toNat < 64 by decide), hpred]
    exact (smeared_self _).double.double.double.double.double.double
  have hpow := Nat.two_pow_pos (x.toNat - 1).size
  have hle := Nat.pow_le_pow_right Nat.two_pos hsize
  show (orShifted (orShifted (orShifted (orShifted (orShifted (orShifted (x - 1) 1) 2) 4) 8) 16)
    32 + 1).toNat = _
  rw [UInt64.toNat_add, hsmeared.eq_two_pow_sub_one (by omega), UInt64.toNat_one]
  omega

theorem le_ceilToPow2 {x : UInt64} (hpos : 0 < x.toNat) (hmax : x.toNat ≤ 2 ^ 63) :
    x.toNat ≤ (ceilToPow2 x).toNat := by
  rw [ceilToPow2_toNat hpos hmax]
  have hlt := Nat.lt_size_self (x.toNat - 1)
  omega

/-! ## The first blocks -/

theorem initialBlocks_apply (size : Nat) {count i : Nat} (hi : i < count) :
    (initialBlocks size count : Nat → Block α) i =
      makeBlock size (if i + 1 = count then 0 else i + 1) := by
  induction count with
  | zero => omega
  | succ count ih =>
      unfold initialBlocks
      by_cases hlast : i = count
      · subst hlast
        split
        · simp
        next hmore => simp [Function.update_of_ne (show i ≠ i - 1 by omega)]
      · have hbefore := ih (by omega)
        split
        · omega
        · by_cases hlink : i + 1 = count
          · -- the block before the new one now points to it
            rw [if_pos hlink] at hbefore
            obtain rfl : i = count - 1 := by omega
            rw [Function.update_self, Function.update_of_ne hlast, hbefore]
            simp [makeBlock, hlink]
          · rw [if_neg hlink] at hbefore
            rw [Function.update_of_ne (by omega), Function.update_of_ne hlast, hbefore]
            simp [show i ≠ count from hlast]

section

variable {maxSize : UInt64} (hpos : 0 < maxSize.toNat) (hmax : maxSize.toNat < 2 ^ 63)

include hpos hmax

/-- The blocks that are reserved, their size, and that they are enough. -/
theorem initialShape_spec : 1 ≤ (initialShape maxSize).1 ∧
    (∃ k ≤ 64, (initialShape maxSize).2 = 2 ^ k) ∧
    ∃ m, 1 ≤ m ∧ m < (initialShape maxSize).2 ∧
      (maxSize.toNat ≤ m ∨ maxSize.toNat ≤ ((initialShape maxSize).1 - 1) * m) := by
  have hsucc : (maxSize + 1).toNat = maxSize.toNat + 1 := by
    rw [UInt64.toNat_add, UInt64.toNat_one]
    omega
  by_cases hlarge : ceilToPow2 (maxSize + 1) > maxBlockSize * 2
  · have hshape : initialShape maxSize =
        (((maxSize + maxBlockSize * 2 - 3) / (maxBlockSize - 1)).toNat, maxBlockSize.toNat) :=
      if_pos hlarge
    have hsum : (maxSize + maxBlockSize * 2 - 3).toNat = maxSize.toNat + 1021 := by
      rw [UInt64.toNat_sub, UInt64.toNat_add]
      show (2 ^ 64 - 3 + (maxSize.toNat + 1024) % 2 ^ 64) % 2 ^ 64 = _
      omega
    have hcount : ((maxSize + maxBlockSize * 2 - 3) / (maxBlockSize - 1)).toNat =
        (maxSize.toNat + 1021) / 511 := by
      rw [UInt64.toNat_div, hsum]
      rfl
    rw [hshape, hcount]
    refine ⟨?_, ⟨9, by decide, rfl⟩, 511, by decide, Nat.lt_succ_self 511, .inr ?_⟩
    · show 1 ≤ (maxSize.toNat + 1021) / 511
      omega
    · show maxSize.toNat ≤ ((maxSize.toNat + 1021) / 511 - 1) * 511
      omega
  · have hshape : initialShape maxSize = (1, (ceilToPow2 (maxSize + 1)).toNat) := if_neg hlarge
    have hle := @le_ceilToPow2 (maxSize + 1) (by omega) (by omega)
    have hbits : ((maxSize + 1).toNat - 1).size ≤ 63 := Nat.size_le.mpr (by omega)
    rw [hshape]
    exact ⟨Nat.le_refl 1, ⟨_, by omega, ceilToPow2_toNat (by omega) (by omega)⟩,
      (ceilToPow2 (maxSize + 1)).toNat - 1, by omega, by omega, .inl (by omega)⟩

theorem new_layout : (Queue.new maxSize : Queue α).Layout maxSize.toNat []
    (List.range' 1 ((initialShape maxSize).1 - 1)) (fun _ => []) (fun _ => []) := by
  obtain ⟨hcount, hpow, m, hm, hsize, hroom⟩ := initialShape_spec hpos hmax
  obtain ⟨count, heq⟩ : ∃ count, (initialShape maxSize).1 = count + 1 :=
    Nat.exists_eq_succ_of_ne_zero (by omega)
  have hring : (Queue.new maxSize : Queue α).ring []
      (List.range' 1 ((initialShape maxSize).1 - 1)) = List.range (count + 1) := by
    rw [heq, Nat.add_sub_cancel, List.range_eq_range', List.range'_succ]
    rfl
  have hblocks : ∀ b ∈ List.range (count + 1), (Queue.new maxSize : Queue α).blocks b =
      makeBlock (initialShape maxSize).2 (if b + 1 = count + 1 then 0 else b + 1) := by
    intro b hb
    rw [List.mem_range] at hb
    show initialBlocks _ (initialShape maxSize).1 b = _
    rw [heq, initialBlocks_apply _ hb]
  refine ⟨?_, ?_, ?_, rfl, ?_, by simp, by simp, by simp, hpow, m, hm, hsize, ?_, ?_⟩
  all_goals rw [hring]
  · exact List.nodup_range
  · have hchain : Cycle.Chain (fun b after => ((Queue.new maxSize : Queue α).blocks b).next = after)
        (List.range count.succ) := by
      rw [Cycle.chain_range_succ]
      refine ⟨?_, fun b hb => ?_⟩
      · rw [hblocks count (by simp)]
        simp [makeBlock]
      · rw [hblocks b (by simp; omega)]
        simp [makeBlock, Nat.ne_of_lt hb]
    exact hchain
  · intro b hb
    show b < (initialShape maxSize).1
    rw [heq]
    exact List.mem_range.mp hb
  · intro b hb
    rw [hblocks b hb]
    exact makeBlock_holds hpow _
  · intro b hb
    rw [hblocks b hb, makeBlock_size (by omega)]
    exact hsize
  · simpa [heq] using hroom

theorem new_sound (allocFails : Prop) :
    (Spsc.new maxSize : Spsc α).Sound maxSize.toNat allocFails := by
  refine ⟨[], _, fun _ => [], new_layout hpos hmax, trivial, trivial, ?_⟩
  intro status hstatus
  obtain rfl : status = fun _ => .idle := by
    funext side
    have hside := hstatus side
    cases side <;> exact hside
  exact .start

variable {allocFails : Prop} {moves : List (Move α)} {spsc : Spsc α}

theorem sound_of_run (hmoves : ∀ move ∈ moves, move = .producer false → allocFails)
    (hrun : runSchedule spscNext (.new maxSize) moves = some spsc) :
    spsc.Sound maxSize.toNat allocFails :=
  invariant_of_schedule
    (fun _ _ _ hsound halloc hnext => spscNext_sound hsound halloc hnext)
    (new_sound hpos hmax allocFails) hmoves hrun

end

end Libmoon.FastPipe
