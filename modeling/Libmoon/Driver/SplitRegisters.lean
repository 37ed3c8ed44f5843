import Libmoon.Driver.I40eCounters
import Libmoon.Foundation.SplitCounter

/-! # Counters in two registers

The octets of an i40e port and the clock of an E810 are each read in two registers while
they go on counting. Both drivers read one of the halves twice to notice an overflow of the
low one, and read again if there was one. The first does so through a variable that does
not exist.
-/

namespace Libmoon

open Foundation

universe u

variable {Moment : Type u} [Preorder Moment]

/-- A call whose reads are one tick apart. -/
def steadyCall : ReadingCall ℕ where
  start := 0
  finish := 4
  reads k := min k 4
  mono _ _ hle := min_le_min_right 4 hle
  start_le _ := Nat.zero_le _
  le_finish _ := min_le_right _ _

namespace I40e

/-- `readCtr48` with the registers at the moments of its reads, and nothing read before. -/
def readMovingCtr48 (counter : MovingCounter Moment) (call : ReadingCall Moment) :
    Except LuaError ℤ :=
  readCtr48 (BitVec.ofNat 32 (counter.high (2 ^ 32) (2 ^ 16) (call.reads 0)))
    (BitVec.ofNat 32 (counter.low (2 ^ 32) (call.reads 1)))
    (BitVec.ofNat 32 (counter.high (2 ^ 32) (2 ^ 16) (call.reads 2))) 0

/-- The call returns a value of the counter from while it ran. -/
def ReadsHeldValue (counter : MovingCounter Moment) (call : ReadingCall Moment) : Prop :=
  ∃ value : ℕ, readMovingCtr48 counter call = .ok value ∧
    counter.HeldDuring (2 ^ 48) call value

/-- A high half has 16 bits. -/
theorem high_lt (counter : MovingCounter Moment) (moment : Moment) :
    counter.high (2 ^ 32) (2 ^ 16) moment < 2 ^ 32 :=
  (Nat.mod_lt _ (by decide)).trans (by decide)

/-- Registers of equal content show equal halves. -/
theorem ofNat_high_inj (counter : MovingCounter Moment) (first second : Moment) :
    BitVec.ofNat 32 (counter.high (2 ^ 32) (2 ^ 16) first) =
      BitVec.ofNat 32 (counter.high (2 ^ 32) (2 ^ 16) second) ↔
    counter.high (2 ^ 32) (2 ^ 16) first = counter.high (2 ^ 32) (2 ^ 16) second := by
  rw [← BitVec.toNat_inj, BitVec.toNat_ofNat, BitVec.toNat_ofNat,
    Nat.mod_eq_of_lt (high_lt counter first), Nat.mod_eq_of_lt (high_lt counter second)]

theorem readMovingCtr48_of_epoch_eq {counter : MovingCounter Moment} {call : ReadingCall Moment}
    (hsame : counter.epoch (2 ^ 32) (call.reads 0) = counter.epoch (2 ^ 32) (call.reads 2)) :
    readMovingCtr48 counter call = .ok (counter.count (call.reads 1) % 2 ^ 48 : ℕ) := by
  -- The low half is read in the epoch of both high halves.
  have hepoch : counter.epoch (2 ^ 32) (call.reads 1) = counter.epoch (2 ^ 32) (call.reads 0) := by
    rw [hsame]
    exact counter.epoch_eq_of_between (call.mono (by decide)) (call.mono (by decide)) hsame
  have hhigh : counter.high (2 ^ 32) (2 ^ 16) (call.reads 2) =
      counter.high (2 ^ 32) (2 ^ 16) (call.reads 0) := by
    rw [MovingCounter.high, ← hsame, MovingCounter.high]
  have hlow : counter.low (2 ^ 32) (call.reads 1) < 2 ^ 32 := Nat.mod_lt _ (by decide)
  have hvalue := counter.low_add_high (2 ^ 32) (2 ^ 16) hepoch
  rw [← Nat.pow_add] at hvalue
  rw [readMovingCtr48, hhigh, readCtr48, if_neg (not_not.mpr rfl), BitVec.toNat_ofNat,
    BitVec.toNat_ofNat, Nat.mod_eq_of_lt hlow, Nat.mod_eq_of_lt (high_lt counter _), ← hvalue]
  push_cast
  rw [extendCtr_zero (by omega), Int.mul_comm]

theorem readMovingCtr48_of_epoch_ne {counter : MovingCounter Moment} {call : ReadingCall Moment}
    (hslow : counter.SlowFor (2 ^ 32) call)
    (hother : counter.epoch (2 ^ 32) (call.reads 0) ≠ counter.epoch (2 ^ 32) (call.reads 2)) :
    readMovingCtr48 counter call = .error .indexGlobalSelf := by
  apply if_pos
  intro hregisters
  apply hother
  apply (hslow.high_eq_iff (by decide) (by decide : 1 < 2 ^ 16) (by decide : 0 ≤ 2)).mp
  exact (ofNat_high_inj counter _ _).mp hregisters

/-- A value is read from the counter exactly if its low half does not overflow between the
reads of the high one. -/
theorem readsHeldValue_iff {counter : MovingCounter Moment} {call : ReadingCall Moment}
    (hslow : counter.SlowFor (2 ^ 32) call) :
    ReadsHeldValue counter call ↔
      counter.epoch (2 ^ 32) (call.reads 0) = counter.epoch (2 ^ 32) (call.reads 2) := by
  constructor
  · rintro ⟨value, hread, -⟩
    by_contra hother
    rw [readMovingCtr48_of_epoch_ne hslow hother] at hread
    cases hread
  · intro hsame
    exact ⟨_, readMovingCtr48_of_epoch_eq hsame, counter.heldDuring_read _ call 1⟩

/-- A counter of octets that overflows into its high half with the next one. -/
def overflowingOctets : MovingCounter ℕ where
  count moment := 2 ^ 32 - 1 + moment
  mono _ _ hle := Nat.add_le_add_left hle _

theorem overflowingOctets_not_read : ¬ ∀ (counter : MovingCounter ℕ) (call : ReadingCall ℕ),
    counter.SlowFor (2 ^ 32) call → ReadsHeldValue counter call := by
  intro halways
  obtain ⟨value, hread, -⟩ := halways overflowingOctets steadyCall (by decide)
  have herror : readMovingCtr48 overflowingOctets steadyCall = .error .indexGlobalSelf := by
    decide
  rw [herror] at hread
  cases hread

/-- A counter of octets from zero. -/
def freshOctets : MovingCounter ℕ where
  count moment := 1000 * moment
  mono _ _ hle := Nat.mul_le_mul_left _ hle

theorem freshOctets_read : freshOctets.SlowFor (2 ^ 32) steadyCall ∧
    freshOctets.epoch (2 ^ 32) (steadyCall.reads 0) =
      freshOctets.epoch (2 ^ 32) (steadyCall.reads 2) ∧
    ReadsHeldValue freshOctets steadyCall :=
  ⟨by decide, by decide, (readsHeldValue_iff (by decide)).mpr (by decide)⟩

end I40e

namespace Ice

/-- The registers of the clock, `GLTSYN_TIME_L` and `GLTSYN_TIME_H`. -/
inductive Register where
  | timeL
  | timeH
deriving DecidableEq

/-- `ice_read_current_timer`; `rd32 k` is what the registers hold at the read number `k`. -/
def readCurrentTimer (rd32 : ℕ → Register → BitVec 32) : BitVec 64 :=
  let timeL := rd32 0 .timeL
  let timeH := rd32 1 .timeH
  let timeL2 := rd32 2 .timeL
  if timeL2 < timeL then
    let timeL := rd32 3 .timeL
    let timeH := rd32 4 .timeH
    timeH.setWidth 64 <<< 32 ||| timeL.setWidth 64
  else
    timeH.setWidth 64 <<< 32 ||| timeL.setWidth 64

/-- The contents of the registers at the moments of the reads. -/
def movingRegisters (timer : MovingCounter Moment) (call : ReadingCall Moment) (k : ℕ) :
    Register → BitVec 32
  | .timeL => BitVec.ofNat 32 (timer.low (2 ^ 32) (call.reads k))
  | .timeH => BitVec.ofNat 32 (timer.high (2 ^ 32) (2 ^ 32) (call.reads k))

theorem toNat_timeL (timer : MovingCounter Moment) (call : ReadingCall Moment) (k : ℕ) :
    (movingRegisters timer call k .timeL).toNat = timer.low (2 ^ 32) (call.reads k) := by
  rw [movingRegisters, BitVec.toNat_ofNat]
  exact Nat.mod_eq_of_lt (Nat.mod_lt _ (by decide))

theorem toNat_timeH (timer : MovingCounter Moment) (call : ReadingCall Moment) (k : ℕ) :
    (movingRegisters timer call k .timeH).toNat = timer.high (2 ^ 32) (2 ^ 32) (call.reads k) := by
  rw [movingRegisters, BitVec.toNat_ofNat]
  exact Nat.mod_eq_of_lt (Nat.mod_lt _ (by decide))

/-- `((u64)timeH << 32) | timeL`. -/
theorem toNat_joined (timeH timeL : BitVec 32) :
    (timeH.setWidth 64 <<< 32 ||| timeL.setWidth 64).toNat =
      timeL.toNat + 2 ^ 32 * timeH.toNat := by
  have htimeH := timeH.isLt
  rw [BitVec.toNat_or, BitVec.toNat_shiftLeft, BitVec.toNat_setWidth_of_le (by decide),
    BitVec.toNat_setWidth_of_le (by decide), Nat.mod_eq_of_lt (by rw [Nat.shiftLeft_eq]; omega),
    ← Nat.shiftLeft_add_eq_or_of_lt timeL.isLt, Nat.shiftLeft_eq]
  omega

/-- The halves of two reads in one epoch are a value of the timer. -/
theorem joined_registers {timer : MovingCounter Moment} {call : ReadingCall Moment} {l h : ℕ}
    (hepoch : timer.epoch (2 ^ 32) (call.reads l) = timer.epoch (2 ^ 32) (call.reads h)) :
    ((movingRegisters timer call h .timeH).setWidth 64 <<< 32 |||
      (movingRegisters timer call l .timeL).setWidth 64).toNat =
        timer.count (call.reads l) % 2 ^ 64 := by
  rw [toNat_joined, toNat_timeL, toNat_timeH, timer.low_add_high (2 ^ 32) (2 ^ 32) hepoch,
    ← Nat.pow_add]

/-- Whether or not the timer overflows into its high half, its value at a read of the low one
is returned. -/
theorem readCurrentTimer_held {timer : MovingCounter Moment} {call : ReadingCall Moment}
    (hslow : timer.SlowFor (2 ^ 32) call) :
    timer.HeldDuring (2 ^ 64) call (readCurrentTimer (movingRegisters timer call)).toNat := by
  have hwrap := hslow.low_lt_iff (by decide) (by decide : 0 ≤ 2)
  unfold readCurrentTimer
  dsimp only
  split
  next hless =>
    rw [BitVec.lt_def, toNat_timeL, toNat_timeL] at hless
    have hepoch : timer.epoch (2 ^ 32) (call.reads 3) = timer.epoch (2 ^ 32) (call.reads 4) :=
      hslow.epoch_eq (by decide) (by decide) (by decide) (by decide) (hwrap.mp hless)
    rw [joined_registers hepoch]
    exact timer.heldDuring_read _ call 3
  next hnot =>
    rw [BitVec.lt_def, toNat_timeL, toNat_timeL, hwrap, not_not] at hnot
    have hepoch : timer.epoch (2 ^ 32) (call.reads 0) = timer.epoch (2 ^ 32) (call.reads 1) := by
      rw [hnot]
      exact (timer.epoch_eq_of_between (call.mono (by decide)) (call.mono (by decide)) hnot).symm
    rw [joined_registers hepoch]
    exact timer.heldDuring_read _ call 0

/-- A clock that overflows into its high half between the reads. -/
def overflowingTimer : MovingCounter ℕ where
  count moment := 7 * 2 ^ 32 - 1 + moment
  mono _ _ hle := Nat.add_le_add_left hle _

theorem overflowingTimer_held : overflowingTimer.SlowFor (2 ^ 32) steadyCall ∧
    overflowingTimer.HeldDuring (2 ^ 64) steadyCall
      (readCurrentTimer (movingRegisters overflowingTimer steadyCall)).toNat :=
  ⟨by decide, readCurrentTimer_held (by decide)⟩

end Ice

end Libmoon
