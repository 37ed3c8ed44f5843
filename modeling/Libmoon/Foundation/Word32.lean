import Mathlib.Algebra.BigOperators.Group.List.Basic
import Mathlib.Algebra.GroupWithZero.Nat
import Mathlib.Tactic.Common

/-! # 32-bit words read as naturals and as signed integers

Unsigned words wrap modulo `2 ^ 32`; a signed word is the same bits in two's
complement. Both readings are reduced here to naturals and integers with
explicit case splits, where linear arithmetic decides the rest.
-/

namespace Foundation

/-- The signed reading of a word. -/
theorem toInt_toInt32 (word : UInt32) :
    word.toInt32.toInt =
      if word.toNat < 2 ^ 31 then (word.toNat : Int) else (word.toNat : Int) - 2 ^ 32 := by
  rw [← Int32.toInt_toBitVec, UInt32.toBitVec_toInt32, BitVec.toInt_eq_toNat_cond]
  simp only [UInt32.toNat_toBitVec]
  split <;> split <;> omega

/-- Subtracting an unsigned word from a signed one is exact as long as the
difference does not fall below the signed range. -/
theorem toInt_sub_of_le {left : Int32} {word : UInt32}
    (hlower : -2 ^ 31 ≤ left.toInt - word.toNat) :
    (left - word.toInt32).toInt = left.toInt - word.toNat := by
  have hupper := left.toInt_lt
  rw [Int32.toInt_sub, toInt_toInt32, Int.bmod_def]
  split <;> split <;> omega

/-- A small natural is returned unchanged through a signed word. -/
theorem toInt_toInt32_eq_iff {word : UInt32} {value : Nat} (hvalue : value < 2 ^ 31) :
    word.toInt32.toInt = value ↔ word.toNat = value := by
  have hword := word.toNat_lt
  rw [toInt_toInt32]
  split <;> constructor <;> intro h <;> omega

/-- The wrapping sum of a list of words. -/
def wordSum (words : List UInt32) : UInt32 := words.foldl (· + ·) 0

theorem toNat_foldl_add (words : List UInt32) (start : UInt32) :
    (words.foldl (· + ·) start).toNat =
      (start.toNat + (words.map UInt32.toNat).sum) % 2 ^ 32 := by
  induction words generalizing start with
  | nil => simp
  | cons word rest ih =>
      simp only [List.foldl_cons, List.map_cons, List.sum_cons]
      rw [ih, UInt32.toNat_add]
      omega

theorem toNat_wordSum (words : List UInt32) :
    (wordSum words).toNat = (words.map UInt32.toNat).sum % 2 ^ 32 := by
  rw [wordSum, toNat_foldl_add]
  simp

/-- Subtracting words one after another subtracts their sum. -/
theorem toNat_foldl_sub (words : List UInt32) (start : UInt32) (total : Nat)
    (hstart : start.toNat = (total + (words.map UInt32.toNat).sum) % 2 ^ 32) :
    (words.foldl (· - ·) start).toNat = total % 2 ^ 32 := by
  induction words generalizing start with
  | nil => simpa using hstart
  | cons word rest ih =>
      refine ih (start - word) ?_
      have hword := word.toNat_lt
      have hbound := start.toNat_lt
      rw [UInt32.toNat_sub, hstart]
      simp only [List.map_cons, List.sum_cons]
      omega

/-- Doubling a counter while a condition holds, at most `fuel` times. -/
def doubleWhile (condition : Nat → Bool) : Nat → Nat → Nat
  | 0, count => count
  | fuel + 1, count =>
      if condition count then doubleWhile condition fuel (2 * count) else count

/-- A doubled counter keeps any bound that one more doubling cannot break. -/
theorem doubleWhile_le {condition : Nat → Bool} {bound : Nat}
    (hstep : ∀ count, condition count = true → 2 * count ≤ bound) (fuel count : Nat)
    (hcount : count ≤ bound) : doubleWhile condition fuel count ≤ bound := by
  induction fuel generalizing count with
  | zero => exact hcount
  | succ fuel ih =>
      unfold doubleWhile
      split
      next hcondition => exact ih _ (hstep count hcondition)
      next => exact hcount

/-- Doubling from a power of two stays among the powers of two. -/
theorem isPowerOfTwo_doubleWhile {condition : Nat → Bool} (fuel : Nat) {count : Nat}
    (hcount : count.isPowerOfTwo) : (doubleWhile condition fuel count).isPowerOfTwo := by
  induction fuel generalizing count with
  | zero => exact hcount
  | succ fuel ih =>
      unfold doubleWhile
      split
      next =>
        apply ih
        rw [Nat.mul_comm]
        exact Nat.isPowerOfTwo_mul_two_of_isPowerOfTwo hcount
      next => exact hcount

/-- The loop ends because its condition fails, provided the condition cannot
survive the whole fuel. -/
theorem doubleWhile_exit (condition : Nat → Bool) (fuel count : Nat)
    (hfuel : condition (2 ^ fuel * count) = false) :
    condition (doubleWhile condition fuel count) = false := by
  induction fuel generalizing count with
  | zero => simpa [doubleWhile] using hfuel
  | succ fuel ih =>
      unfold doubleWhile
      split
      next =>
        refine ih (2 * count) ?_
        rw [← hfuel, Nat.pow_succ]
        congr 1
        rw [Nat.mul_assoc]
      next hcondition => simpa using hcondition

/-- The loop doubles only counts that meet its condition. -/
theorem doubleWhile_eq_or (condition : Nat → Bool) (fuel count : Nat) :
    doubleWhile condition fuel count = count ∨
      ∃ half, condition half = true ∧ doubleWhile condition fuel count = 2 * half := by
  induction fuel generalizing count with
  | zero => exact .inl rfl
  | succ fuel ih =>
      unfold doubleWhile
      split
      next hcondition =>
        rcases ih (2 * count) with hstop | hdoubled
        · exact .inr ⟨count, hcondition, hstop⟩
        · exact .inr hdoubled
      next => exact .inl rfl

section DoubleToTarget

variable {target : Nat}

/-- Doubling towards a target of at most 32 bits reaches it. -/
theorem le_doubleWhile (htarget : target ≤ 2 ^ 32) :
    target ≤ doubleWhile (fun count => count < target) 32 1 := by
  have hexit := doubleWhile_exit (fun count => count < target) 32 1 (by simpa using htarget)
  simpa using hexit

/-- It stops at the target itself exactly when that is a power of two. -/
theorem doubleWhile_eq_iff (hpos : 1 ≤ target) (htarget : target ≤ 2 ^ 32) :
    doubleWhile (fun count => count < target) 32 1 = target ↔ target.isPowerOfTwo := by
  constructor
  · intro heq
    rw [← heq]
    exact isPowerOfTwo_doubleWhile 32 Nat.isPowerOfTwo_one
  · intro hpower
    apply Nat.le_antisymm _ (le_doubleWhile htarget)
    rcases doubleWhile_eq_or (fun count => count < target) 32 1 with hone | ⟨half, hhalf, heq⟩
    · omega
    · obtain ⟨k, rfl⟩ := hpower
      obtain ⟨m, hm⟩ : (doubleWhile (fun count => count < 2 ^ k) 32 1).isPowerOfTwo :=
        isPowerOfTwo_doubleWhile 32 Nat.isPowerOfTwo_one
      have hhalf : half < 2 ^ k := of_decide_eq_true hhalf
      -- `2 ^ m < 2 ^ (k + 1)`, so `m ≤ k`
      have hlt : m < k + 1 := by
        apply (Nat.pow_lt_pow_iff_right (show 1 < 2 by decide)).mp
        rw [← hm, heq, Nat.pow_succ]
        omega
      rw [hm]
      exact Nat.pow_le_pow_right (by decide) (by omega)

end DoubleToTarget

end Foundation
