import Libmoon.Foundation.OrderStatistics
import Libmoon.Foundation.SplitCounter
import Mathlib.Algebra.Order.Group.Abs
import Mathlib.Algebra.Order.Ring.Int
import Mathlib.Tactic.Ring

/-! # Clock synchronisation

`libmoon_sync_clocks` estimates how far the clock of the second port is behind the one of
the first. Each round reads the clocks in the order 1, 2, 2, 1; the estimate is right up to
half the difference of the two distances between reads of different clocks. The median of
the rounds is written to the adjustment registers, so that a minority of rounds may have
been interrupted at any place.
-/

namespace Libmoon.Timestamping

open Foundation

universe u

/-- Conversion to `int32_t`. -/
def toInt32 (number : ℤ) : ℤ := number.bmod (2 ^ 32)

theorem toInt32_emod (number : ℤ) : toInt32 (number % 2 ^ 32) = toInt32 number :=
  Int.emod_bmod number (2 ^ 32)

theorem toInt32_add (number offset : ℤ) :
    toInt32 (toInt32 number + offset) = toInt32 (number + offset) :=
  Int.bmod_add_bmod

theorem toInt32_of_abs_lt {number : ℤ} (hlt : |number| < 2 ^ 31) : toInt32 number = number := by
  obtain ⟨hlow, hhigh⟩ := abs_lt.mp hlt
  apply Int.bmod_eq_of_le <;> omega

theorem toInt32_mem (number : ℤ) : -2 ^ 31 ≤ toInt32 number ∧ toInt32 number < 2 ^ 31 :=
  ⟨Int.le_bmod (m := 2 ^ 32) (by decide), Int.bmod_lt (m := 2 ^ 32) (by decide)⟩

/-- `num_runs`. -/
def numRuns : ℕ := 7

/-- The reads of one turn of the loop. -/
structure SyncRound where
  x1 : UInt32
  x2 : UInt32
  y1 : UInt32
  y2 : UInt32
deriving DecidableEq

namespace SyncRound

variable (round : SyncRound)

/-- `labs(((int64_t) x1 - x2 - ((int64_t) y2 - y1)) / 2)`; 64 bits are enough for it. -/
def timeBetweenReads : ℤ :=
  |((round.x1.toNat : ℤ) - round.x2.toNat - ((round.y2.toNat : ℤ) - round.y1.toNat)).tdiv 2|

/-- `offs = delta_t + x1 - x2`, a sum of unsigned numbers of 32 bits. -/
def offs : ℤ :=
  toInt32 ((toInt32 round.timeBetweenReads + round.x1.toNat - round.x2.toNat) % 2 ^ 32)

end SyncRound

/-- The registers whose addresses are passed to the function. -/
inductive TimeRegister where
  | timl | timh | adjl | adjh
deriving DecidableEq, Repr

/-- `write_reg32(port, register, value)`, or an assignment through `get_reg_addr`. -/
structure RegisterWrite where
  port : UInt8
  register : TimeRegister
  value : UInt32
deriving DecidableEq, Repr

/-- The writes at the end. A port is not adjusted by 0. -/
def adjustClock (port : UInt8) (offs : ℤ) : List RegisterWrite :=
  if offs ≠ 0 then
    [⟨port, .adjl, if offs < 0 then UInt32.ofInt (-offs) else UInt32.ofInt offs⟩,
      ⟨port, .adjh, if offs < 0 then (1 : UInt32) <<< 31 else 0⟩]
  else []

/-- `libmoon_sync_clocks`: the writes, in their order. -/
def libmoonSyncClocks (port1 port2 : UInt8) (rounds : Vector SyncRound numRuns) :
    List RegisterWrite :=
  [⟨port1, .timl, 0⟩, ⟨port2, .timl, 0⟩, ⟨port1, .timh, 0⟩, ⟨port2, .timh, 0⟩] ++
    if port1 = port2 then []
    else
      [⟨port1, .timl, 0⟩, ⟨port2, .timl, 0⟩] ++
        adjustClock port2 ((median (rounds.toList.map SyncRound.offs)).getD 0)

/-- What has been written to a register last, or 0. -/
def lastWritten (writes : List RegisterWrite) (port : UInt8) (register : TimeRegister) : UInt32 :=
  ((writes.filter fun write => write.port = port ∧ write.register = register).getLast?.map
    RegisterWrite.value).getD 0

/-- The adjustment of a port: a magnitude, and a sign in the highest bit. -/
def adjustment (writes : List RegisterWrite) (port : UInt8) : ℤ :=
  if (lastWritten writes port .adjh).toBitVec.getLsbD 31 then
    -(lastWritten writes port .adjl).toNat
  else (lastWritten writes port .adjl).toNat

/-! ## One round -/

section Round

variable {Moment : Type u} [Preorder Moment]

namespace SyncRound

/-- The round reads a clock and one that is behind it, at moments that follow each other.
What is read is the time itself, without a wrap. -/
structure Reads (clock : MovingCounter Moment) (delta : ℤ) (moments : ℕ → Moment)
    (round : SyncRound) : Prop where
  mono : Monotone moments
  x1 : (round.x1.toNat : ℤ) = clock.count (moments 0)
  x2 : (round.x2.toNat : ℤ) = clock.count (moments 1) - delta
  y1 : (round.y1.toNat : ℤ) = clock.count (moments 2) - delta
  y2 : (round.y2.toNat : ℤ) = clock.count (moments 3)

/-- The estimate fits the 32 bits it is stored in, with either sign. -/
def NoWrap (round : SyncRound) : Prop :=
  |round.timeBetweenReads + round.x1.toNat - round.x2.toNat| < 2 ^ 31

/-- The distances between the first two reads and between the last two differ by at most
`2 * eps`. -/
def Balanced (clock : MovingCounter Moment) (delta : ℤ) (eps : ℕ) (round : SyncRound) : Prop :=
  ∃ moments, round.Reads clock delta moments ∧ round.NoWrap ∧
    |((clock.count (moments 1) : ℤ) - clock.count (moments 0)) -
      ((clock.count (moments 3) : ℤ) - clock.count (moments 2))| ≤ 2 * eps

variable {clock : MovingCounter Moment} {delta : ℤ} {moments : ℕ → Moment} {round : SyncRound}

/-- The result of the wrapping operations is that of the same ones over the integers. -/
theorem offs_of_noWrap (hwrap : round.NoWrap) :
    round.offs = round.timeBetweenReads + round.x1.toNat - round.x2.toNat := by
  rw [offs, toInt32_emod, add_sub_assoc, toInt32_add, ← add_sub_assoc]
  exact toInt32_of_abs_lt hwrap

/-- The estimate is off by half the difference of the distances, rounded down. -/
theorem Reads.offs_eq (hreads : round.Reads clock delta moments) (hwrap : round.NoWrap) :
    round.offs = delta +
      ((clock.count (moments 3) : ℤ) - clock.count (moments 2) -
        (clock.count (moments 1) - clock.count (moments 0))) / 2 := by
  have hfirst := clock.mono (hreads.mono (show 0 ≤ 1 by decide))
  have hlast := clock.mono (hreads.mono (show 2 ≤ 3 by decide))
  have htime : round.timeBetweenReads =
      ((clock.count (moments 1) : ℤ) - clock.count (moments 0) +
        (clock.count (moments 3) - clock.count (moments 2))) / 2 := by
    have hneg : (round.x1.toNat : ℤ) - round.x2.toNat - (round.y2.toNat - round.y1.toNat) =
        -((clock.count (moments 1) : ℤ) - clock.count (moments 0) +
          (clock.count (moments 3) - clock.count (moments 2))) := by
      rw [hreads.x1, hreads.x2, hreads.y1, hreads.y2]
      ring
    rw [timeBetweenReads, hneg, Int.neg_tdiv, abs_neg, Int.tdiv_eq_ediv_of_nonneg (by omega),
      abs_of_nonneg (by omega)]
  rw [offs_of_noWrap hwrap, htime, hreads.x1, hreads.x2]
  omega

theorem Balanced.offs_mem {eps : ℕ} (hbalanced : round.Balanced clock delta eps) :
    delta - eps ≤ round.offs ∧ round.offs ≤ delta + eps := by
  obtain ⟨moments, hreads, hwrap, hdistances⟩ := hbalanced
  obtain ⟨hlow, hhigh⟩ := abs_le.mp hdistances
  rw [hreads.offs_eq hwrap]
  omega

end SyncRound

end Round

/-! ## The adjustment -/

theorem SyncRound.offs_mem (round : SyncRound) : -2 ^ 31 ≤ round.offs ∧ round.offs < 2 ^ 31 :=
  toInt32_mem _

theorem lastWritten_concat (before : List RegisterWrite) (write : RegisterWrite) (port : UInt8)
    (register : TimeRegister) : lastWritten (before ++ [write]) port register =
      if write.port = port ∧ write.register = register then write.value
      else lastWritten before port register := by
  unfold lastWritten
  rw [List.filter_append]
  split
  next hsame => simp [hsame]
  next hother => simp [hother]

theorem toNat_ofInt (number : ℤ) (hlow : 0 ≤ number) (hhigh : number < 2 ^ 32) :
    ((UInt32.ofInt number).toNat : ℤ) = number := by
  rw [UInt32.ofInt, UInt32.toNat_ofNat', Int.emod_eq_of_lt hlow hhigh]
  omega

/-- What is read from the adjustment registers is the number that they have been written for. -/
theorem adjustment_adjustClock {before : List RegisterWrite} {port : UInt8} {offs : ℤ}
    (hlow : -2 ^ 31 ≤ offs) (hhigh : offs < 2 ^ 31) (hadjl : lastWritten before port .adjl = 0)
    (hadjh : lastWritten before port .adjh = 0) :
    adjustment (before ++ adjustClock port offs) port = offs := by
  unfold adjustClock
  split
  next hoffs =>
    rw [List.append_cons]
    simp only [adjustment, lastWritten_concat, true_and, reduceCtorEq, and_false, if_false, if_true]
    split
    next hneg =>
      have hmagnitude := toNat_ofInt (-offs) (by omega) (by omega)
      have hsign : ((1 : UInt32) <<< 31).toBitVec.getLsbD 31 = true := by decide
      rw [if_pos hsign, hmagnitude, neg_neg]
    next hpos =>
      have hmagnitude := toNat_ofInt offs (by omega) (by omega)
      have hsign : ¬ (0 : UInt32).toBitVec.getLsbD 31 = true := by decide
      rw [if_neg hsign, hmagnitude]
  next hzero =>
    rw [not_not] at hzero
    simp [adjustment, hadjl, hadjh, hzero]

/-- Whatever a minority of the rounds reads, the adjustment is as near to the delta of the
clocks as the estimates of the other ones. -/
theorem adjustment_near_delta {Moment : Type u} [Preorder Moment] (clock : MovingCounter Moment)
    (delta : ℤ) (eps : ℕ) (port1 port2 : UInt8) (hports : port1 = port2 → delta = 0)
    (rounds : Vector SyncRound numRuns) (balanced : List SyncRound)
    (hsublist : balanced.Sublist rounds.toList) (hfour : 4 ≤ balanced.length)
    (hbalanced : ∀ round ∈ balanced, round.Balanced clock delta eps) :
    |adjustment (libmoonSyncClocks port1 port2 rounds) port2 - delta| ≤ eps := by
  unfold libmoonSyncClocks
  by_cases hsame : port1 = port2
  · simp [hports hsame, hsame, adjustment, lastWritten]
  · have hne : rounds.toList.map SyncRound.offs ≠ [] := by
      apply List.ne_nil_of_length_pos
      rw [List.length_map, Vector.length_toList]
      decide
    obtain ⟨offs, hmem, hmedian⟩ := exists_median hne
    obtain ⟨round, _, rfl⟩ := List.mem_map.mp hmem
    have hnear := median_mem_of_majority (delta - eps) (delta + eps) hmedian
      (hsublist.map SyncRound.offs) ?_ ?_
    · rw [if_neg hsame, hmedian, Option.getD_some, ← List.append_assoc, adjustment_adjustClock
        round.offs_mem.1 round.offs_mem.2 (by simp [lastWritten]) (by simp [lastWritten]), abs_le]
      omega
    · rw [List.length_map, List.length_map, Vector.length_toList, numRuns]
      omega
    · intro value hvalue
      obtain ⟨round, hround, rfl⟩ := List.mem_map.mp hvalue
      exact (hbalanced round hround).offs_mem

/-- A round with distances of 2 and 4 cycles, of clocks that differ by 5. -/
def unevenRound : SyncRound := ⟨10, 7, 8, 17⟩

theorem unevenRound_balanced : unevenRound.Balanced ⟨id, monotone_id⟩ 5 1 := by
  refine ⟨fun k => [10, 12, 13].getD k 17, ⟨?_, rfl, rfl, rfl, rfl⟩, ?_, by decide⟩
  · apply monotone_nat_of_le_succ
    intro k
    match k with
    | 0 | 1 | 2 => decide
    | k + 3 => exact le_refl 17
  · rw [SyncRound.NoWrap]
    decide

theorem adjustment_near_delta_interrupted :
    |adjustment (libmoonSyncClocks 0 1 ⟨#[⟨0, 4000000000, 5, 1⟩, unevenRound, unevenRound,
      ⟨90, 0, 0, 7⟩, unevenRound, ⟨2, 2, 2, 900⟩, unevenRound], rfl⟩) 1 - 5| ≤ (1 : ℕ) :=
  adjustment_near_delta ⟨id, monotone_id⟩ 5 1 0 1 (by decide) _
    [unevenRound, unevenRound, unevenRound, unevenRound] (by decide) (by decide)
    (by simp [unevenRound_balanced])

end Libmoon.Timestamping
