import Mathlib.Data.Nat.ModEq
import Mathlib.Order.Monotone.Basic
import Mathlib.Tactic.Common

/-! # Counters that are read in halves

A wide counter moves while it is read through registers that show its high and its low
half, one after the other. Whether two readings fit together is decided by the epochs
they were taken in, which are counted by the overflows of the low half.
-/

namespace Foundation

universe u

/-- A counter over some moments. It does not wrap; a register shows a part of it. -/
structure MovingCounter (Moment : Type u) [Preorder Moment] where
  count : Moment → ℕ
  mono : Monotone count

/-- A call that reads registers at moments that follow each other. -/
structure ReadingCall (Moment : Type u) [Preorder Moment] where
  start : Moment
  finish : Moment
  reads : ℕ → Moment
  mono : Monotone reads
  start_le : ∀ k, start ≤ reads k
  le_finish : ∀ k, reads k ≤ finish

namespace MovingCounter

variable {Moment : Type u} [Preorder Moment] (counter : MovingCounter Moment)

/-- A value of the counter, modulo its range, at a moment of the call. -/
def HeldDuring (modulus : ℕ) (call : ReadingCall Moment) (value : ℕ) : Prop :=
  ∃ moment, call.start ≤ moment ∧ moment ≤ call.finish ∧ counter.count moment % modulus = value

/-- The low half overflows at most once in the call. -/
def SlowFor (base : ℕ) (call : ReadingCall Moment) : Prop :=
  counter.count call.finish < counter.count call.start + base

instance (base : ℕ) (call : ReadingCall Moment) : Decidable (counter.SlowFor base call) :=
  inferInstanceAs (Decidable (_ < _))

/-- How often the low half has overflowed. -/
def epoch (base : ℕ) (moment : Moment) : ℕ := counter.count moment / base

def low (base : ℕ) (moment : Moment) : ℕ := counter.count moment % base

/-- The high half of a counter of `size` epochs. -/
def high (base size : ℕ) (moment : Moment) : ℕ := counter.epoch base moment % size

theorem epoch_mono (base : ℕ) : Monotone (counter.epoch base) :=
  fun _ _ hle => Nat.div_le_div_right (counter.mono hle)

/-- Halves of one epoch fit together. -/
theorem low_add_high (base size : ℕ) {first second : Moment}
    (hepoch : counter.epoch base first = counter.epoch base second) :
    counter.low base first + base * counter.high base size second =
      counter.count first % (base * size) := by
  rw [high, ← hepoch, low, epoch, Nat.mod_mul]

/-- Between two moments of one epoch there is no other. -/
theorem epoch_eq_of_between {base : ℕ} {first between last : Moment} (hfirst : first ≤ between)
    (hlast : between ≤ last) (hepoch : counter.epoch base first = counter.epoch base last) :
    counter.epoch base between = counter.epoch base last := by
  have hlower := counter.epoch_mono base hfirst
  have hupper := counter.epoch_mono base hlast
  omega

variable {counter} {base : ℕ} {call : ReadingCall Moment}

/-- Two reads of a slow counter are less than an epoch apart. -/
theorem SlowFor.reads_lt (hslow : counter.SlowFor base call) (first last : ℕ) :
    counter.count (call.reads last) < counter.count (call.reads first) + base := by
  have hstart := counter.mono (call.start_le first)
  have hfinish := counter.mono (call.le_finish last)
  unfold SlowFor at hslow
  omega

theorem SlowFor.epoch_le (hslow : counter.SlowFor base call) (hbase : 0 < base)
    (first last : ℕ) :
    counter.epoch base (call.reads last) ≤ counter.epoch base (call.reads first) + 1 := by
  have hlt := hslow.reads_lt first last
  calc counter.count (call.reads last) / base
      ≤ (counter.count (call.reads first) + base) / base := Nat.div_le_div_right (by omega)
    _ = counter.count (call.reads first) / base + 1 := Nat.add_div_right _ hbase

/-- The low half has become smaller exactly if it has overflowed. -/
theorem SlowFor.low_lt_iff (hslow : counter.SlowFor base call) (hbase : 0 < base)
    {first last : ℕ} (hle : first ≤ last) :
    counter.low base (call.reads last) < counter.low base (call.reads first) ↔
      counter.epoch base (call.reads first) ≠ counter.epoch base (call.reads last) := by
  have hmono := counter.mono (call.mono hle)
  have hlt := hslow.reads_lt first last
  have hepochs := counter.epoch_mono base (call.mono hle)
  have hnext := hslow.epoch_le hbase first last
  have hfirst := Nat.div_add_mod (counter.count (call.reads first)) base
  have hlast := Nat.div_add_mod (counter.count (call.reads last)) base
  unfold low
  unfold epoch at hepochs hnext ⊢
  constructor
  · intro hlow hsame
    rw [hsame] at hfirst
    omega
  · intro hother
    have hsucc : counter.count (call.reads last) / base =
        counter.count (call.reads first) / base + 1 := by omega
    rw [hsucc, Nat.mul_succ] at hlast
    omega

/-- Once the low half has overflowed, it does not do so again. -/
theorem SlowFor.epoch_eq (hslow : counter.SlowFor base call) (hbase : 0 < base)
    {first second third fourth : ℕ} (hsecond : second ≤ third) (hthird : third ≤ fourth)
    (hfirst : first ≤ second)
    (hother : counter.epoch base (call.reads first) ≠ counter.epoch base (call.reads second)) :
    counter.epoch base (call.reads third) = counter.epoch base (call.reads fourth) := by
  have hstart := counter.epoch_mono base (call.mono hfirst)
  have hmiddle := counter.epoch_mono base (call.mono hsecond)
  have hend := counter.epoch_mono base (call.mono hthird)
  have hnext := hslow.epoch_le hbase first fourth
  omega

/-- A high half of at least two epochs shows the overflow. -/
theorem SlowFor.high_eq_iff (hslow : counter.SlowFor base call) (hbase : 0 < base) {size : ℕ}
    (hsize : 1 < size) {first last : ℕ} (hle : first ≤ last) :
    counter.high base size (call.reads last) = counter.high base size (call.reads first) ↔
      counter.epoch base (call.reads first) = counter.epoch base (call.reads last) := by
  have hepochs := counter.epoch_mono base (call.mono hle)
  have hnext := hslow.epoch_le hbase first last
  unfold high
  constructor
  · intro hhigh
    by_contra hother
    have hsucc : counter.epoch base (call.reads last) =
        counter.epoch base (call.reads first) + 1 := by omega
    rw [hsucc] at hhigh
    have hone : (1 : ℕ) ≡ 0 [MOD size] := Nat.ModEq.add_left_cancel' _ hhigh
    rw [Nat.ModEq, Nat.mod_eq_of_lt hsize, Nat.zero_mod] at hone
    omega
  · intro hsame
    rw [hsame]

/-- The moment of a read is one of the call. -/
theorem heldDuring_read (counter : MovingCounter Moment) (modulus : ℕ)
    (call : ReadingCall Moment) (k : ℕ) :
    counter.HeldDuring modulus call (counter.count (call.reads k) % modulus) :=
  ⟨call.reads k, call.start_le k, call.le_finish k, rfl⟩

end MovingCounter

end Foundation
