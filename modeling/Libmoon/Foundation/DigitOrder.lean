import Mathlib.Data.Nat.Digits.Defs
import Mathlib.Tactic.Common
import Mathlib.Tactic.Ring

/-! # Digits in the reverse order

Numbers of the same width are compared by the highest digit in which they differ. With their
digits reversed they are compared by the lowest one. The two orders agree on two numbers
exactly if the two digits compare alike; below a number they agree for all numbers of an
interval only if the interval is short.
-/

namespace Foundation

/-- The number with the lowest `width` digits in the reverse order. -/
def reversed (base : ℕ) : ℕ → ℕ → ℕ
  | 0, _ => 0
  | width + 1, x => x % base * base ^ width + reversed base width (x / base)

/-- How many of the lowest digits are the greatest one. -/
def trailing (base : ℕ) : ℕ → ℕ → ℕ
  | 0, _ => 0
  | width + 1, x => if x % base = base - 1 then trailing base width (x / base) + 1 else 0

variable {base : ℕ}

theorem reversed_ofDigits {digits : List ℕ} (hdigits : ∀ digit ∈ digits, digit < base) :
    reversed base digits.length (Nat.ofDigits base digits) = Nat.ofDigits base digits.reverse := by
  induction digits with
  | nil => rfl
  | cons digit rest ih =>
      have hlt : digit < base := hdigits digit List.mem_cons_self
      have hmod : (digit + base * Nat.ofDigits base rest) % base = digit := by
        rw [Nat.add_mul_mod_self_left, Nat.mod_eq_of_lt hlt]
      have hdiv : (digit + base * Nat.ofDigits base rest) / base = Nat.ofDigits base rest := by
        rw [Nat.add_mul_div_left _ _ (Nat.zero_lt_of_lt hlt), Nat.div_eq_of_lt hlt, Nat.zero_add]
      rw [List.length_cons, Nat.ofDigits_cons, Nat.ofDigits_reverse_cons, reversed]
      simp only [hmod, hdiv]
      rw [ih fun later hlater => hdigits later (List.mem_cons_of_mem digit hlater)]
      ring

variable (hbase : 0 < base)

include hbase

theorem reversed_lt (width x : ℕ) : reversed base width x < base ^ width := by
  induction width generalizing x with
  | zero => simp [reversed]
  | succ width ih =>
      have hdigit : x % base + 1 ≤ base := Nat.mod_lt x hbase
      calc reversed base (width + 1) x
          = x % base * base ^ width + reversed base width (x / base) := rfl
        _ < x % base * base ^ width + base ^ width := Nat.add_lt_add_left (ih _) _
        _ = (x % base + 1) * base ^ width := by ring
        _ ≤ base * base ^ width := Nat.mul_le_mul_right _ hdigit
        _ = base ^ (width + 1) := by ring

/-- The lowest digit decides first. -/
theorem reversed_lt_succ_iff (width x y : ℕ) :
    reversed base (width + 1) x < reversed base (width + 1) y ↔
      x % base < y % base ∨
        x % base = y % base ∧ reversed base width (x / base) < reversed base width (y / base) := by
  have hx := reversed_lt hbase width (x / base)
  have hy := reversed_lt hbase width (y / base)
  simp only [reversed]
  rcases Nat.lt_trichotomy (x % base) (y % base) with hlt | heq | hgt
  · have hstep : (x % base + 1) * base ^ width ≤ y % base * base ^ width :=
      Nat.mul_le_mul_right _ hlt
    rw [Nat.succ_mul] at hstep
    omega
  · rw [heq]
    omega
  · have hstep : (y % base + 1) * base ^ width ≤ x % base * base ^ width :=
      Nat.mul_le_mul_right _ hgt
    rw [Nat.succ_mul] at hstep
    omega

/-! ## The digits that decide -/

/-- Where the digits below agree, a digit that differs decides the reverse order. -/
theorem reversed_lt_iff_digit {width i x y : ℕ} (hi : i < width)
    (hbelow : x % base ^ i = y % base ^ i) (hdiffer : x / base ^ i % base ≠ y / base ^ i % base) :
    reversed base width x < reversed base width y ↔
      x / base ^ i % base < y / base ^ i % base := by
  induction i generalizing width x y with
  | zero =>
      obtain ⟨width, rfl⟩ := Nat.exists_eq_add_one.mpr hi
      simp only [pow_zero, Nat.div_one] at hdiffer ⊢
      rw [reversed_lt_succ_iff hbase]
      omega
  | succ i ih =>
      obtain ⟨width, rfl⟩ := Nat.exists_eq_add_one.mpr (Nat.zero_lt_of_lt hi)
      have hshift (z : ℕ) : z / base ^ (i + 1) = z / base / base ^ i := by
        rw [Nat.div_div_eq_div_mul, ← Nat.pow_succ']
      rw [Nat.pow_succ', Nat.mod_mul, Nat.mod_mul] at hbelow
      have hx := Nat.mod_lt x hbase
      have hy := Nat.mod_lt y hbase
      have hlow : x % base = y % base := by
        have := congrArg (· % base) hbelow
        simpa [Nat.add_mul_mod_self_left] using this
      have hrest : x / base % base ^ i = y / base % base ^ i := by
        rw [hlow] at hbelow
        exact Nat.eq_of_mul_eq_mul_left hbase (Nat.add_left_cancel hbelow)
      rw [hshift, hshift] at hdiffer ⊢
      rw [reversed_lt_succ_iff hbase, ← ih (Nat.lt_of_succ_lt_succ hi) hrest hdiffer]
      omega

/-- Where the digits above agree, a digit that differs decides the order of the numbers. -/
theorem lt_iff_digit {j x y : ℕ} (habove : x / base ^ (j + 1) = y / base ^ (j + 1))
    (hdiffer : x / base ^ j % base ≠ y / base ^ j % base) :
    x < y ↔ x / base ^ j % base < y / base ^ j % base := by
  have hpow : 0 < base ^ j := Nat.pow_pos hbase
  have hx := Nat.div_add_mod (x / base ^ j) base
  have hy := Nat.div_add_mod (y / base ^ j) base
  rw [Nat.div_div_eq_div_mul, ← Nat.pow_succ] at hx hy
  rw [habove] at hx
  generalize base * (y / base ^ (j + 1)) = high at hx hy
  constructor
  · intro hlt
    have hle : x / base ^ j ≤ y / base ^ j := Nat.div_le_div_right hlt.le
    omega
  · intro hdigit
    by_contra hle
    have hle : y / base ^ j ≤ x / base ^ j := Nat.div_le_div_right (not_lt.mp hle)
    omega

omit hbase in
theorem exists_lowest {width x y : ℕ} (hx : x < base ^ width) (hy : y < base ^ width)
    (hne : x ≠ y) :
    ∃ i < width, x % base ^ i = y % base ^ i ∧ x / base ^ i % base ≠ y / base ^ i % base := by
  induction width generalizing x y with
  | zero =>
      rw [pow_zero] at hx hy
      omega
  | succ width ih =>
      by_cases hlow : x % base = y % base
      · have hrest : x / base ≠ y / base := by
          intro heq
          apply hne
          rw [← Nat.div_add_mod x base, ← Nat.div_add_mod y base, hlow, heq]
        rw [Nat.pow_succ'] at hx hy
        obtain ⟨i, hi, hbelow, hdiffer⟩ :=
          ih (Nat.div_lt_of_lt_mul hx) (Nat.div_lt_of_lt_mul hy) hrest
        refine ⟨i + 1, Nat.succ_lt_succ hi, ?_, ?_⟩
        · rw [Nat.pow_succ', Nat.mod_mul, Nat.mod_mul, hlow, hbelow]
        · rwa [Nat.pow_succ', ← Nat.div_div_eq_div_mul, ← Nat.div_div_eq_div_mul]
      · exact ⟨0, Nat.succ_pos width, by simp [Nat.mod_one], by simpa using hlow⟩

omit hbase in
theorem exists_highest {width x y : ℕ} (hx : x < base ^ width) (hy : y < base ^ width)
    (hne : x ≠ y) :
    ∃ j < width, x / base ^ (j + 1) = y / base ^ (j + 1) ∧
      x / base ^ j % base ≠ y / base ^ j % base := by
  induction width generalizing x y with
  | zero =>
      rw [pow_zero] at hx hy
      omega
  | succ width ih =>
      by_cases hrest : x / base = y / base
      · refine ⟨0, Nat.succ_pos width, by simpa using hrest, ?_⟩
        rw [pow_zero, Nat.div_one, Nat.div_one]
        intro hlow
        apply hne
        rw [← Nat.div_add_mod x base, ← Nat.div_add_mod y base, hlow, hrest]
      · rw [Nat.pow_succ'] at hx hy
        obtain ⟨j, hj, habove, hdiffer⟩ :=
          ih (Nat.div_lt_of_lt_mul hx) (Nat.div_lt_of_lt_mul hy) hrest
        refine ⟨j + 1, Nat.succ_lt_succ hj, ?_, ?_⟩
        · rwa [Nat.pow_succ', ← Nat.div_div_eq_div_mul, ← Nat.div_div_eq_div_mul]
        · rwa [Nat.pow_succ', ← Nat.div_div_eq_div_mul, ← Nat.div_div_eq_div_mul]

/-- The lowest and the highest digit in which two numbers differ, if any, compare alike. -/
def EndsAgree (base width x y : ℕ) : Prop :=
  ∀ i < width, ∀ j < width,
    x % base ^ i = y % base ^ i → x / base ^ i % base ≠ y / base ^ i % base →
    x / base ^ (j + 1) = y / base ^ (j + 1) → x / base ^ j % base ≠ y / base ^ j % base →
      (x / base ^ i % base < y / base ^ i % base ↔ x / base ^ j % base < y / base ^ j % base)

theorem reversed_lt_agrees_iff {width x y : ℕ} (hx : x < base ^ width) (hy : y < base ^ width) :
    (reversed base width x < reversed base width y ↔ x < y) ↔ EndsAgree base width x y := by
  constructor
  · intro hsame i hi j _ hbelow hlow habove hhigh
    rwa [← reversed_lt_iff_digit hbase hi hbelow hlow, ← lt_iff_digit hbase habove hhigh]
  · intro hends
    by_cases heq : x = y
    · simp [heq]
    · obtain ⟨i, hi, hbelow, hlow⟩ := exists_lowest hx hy heq
      obtain ⟨j, hj, habove, hhigh⟩ := exists_highest hx hy heq
      rw [reversed_lt_iff_digit hbase hi hbelow hlow, lt_iff_digit hbase habove hhigh]
      exact hends i hi j hj hbelow hlow habove hhigh

/-! ## Numbers that are added -/

/-- Adding a number changes the digit at its lowest digit that is not 0 first. The sum is
greater in the reverse order exactly if this digit does not overflow. -/
theorem reversed_lt_add_iff {width i x n : ℕ} (hi : i < width) (hzero : n % base ^ i = 0)
    (hdigit : n / base ^ i % base ≠ 0) :
    reversed base width x < reversed base width (x + n) ↔
      x / base ^ i % base + n / base ^ i % base < base := by
  have hpow : 0 < base ^ i := Nat.pow_pos hbase
  obtain ⟨times, rfl⟩ := Nat.dvd_of_mod_eq_zero hzero
  rw [Nat.mul_div_cancel_left _ hpow] at hdigit ⊢
  have hsum : (x + base ^ i * times) / base ^ i % base =
      (x / base ^ i % base + times % base) % base := by
    rw [Nat.add_mul_div_left _ _ hpow, Nat.add_mod]
  have hx := Nat.mod_lt (x / base ^ i) hbase
  have htimes := Nat.mod_lt times hbase
  have hcarry : (x / base ^ i % base + times % base) % base =
      if x / base ^ i % base + times % base < base then x / base ^ i % base + times % base
      else x / base ^ i % base + times % base - base := by
    split
    next hlt => exact Nat.mod_eq_of_lt hlt
    next hge =>
      rw [Nat.mod_eq_sub_mod (not_lt.mp hge), Nat.mod_eq_of_lt (by omega)]
  rw [reversed_lt_iff_digit hbase hi]
  · rw [hsum, hcarry]
    split <;> omega
  · exact (Nat.add_mul_mod_self_left _ _ _).symm
  · rw [hsum, hcarry]
    split <;> omega

/-! ## Intervals -/

/-- The greatest number with given digits above the lowest one. -/
theorem greatest_mod_div (high : ℕ) :
    (base * high + (base - 1)) % base = base - 1 ∧ (base * high + (base - 1)) / base = high := by
  have hlt : base - 1 < base := Nat.sub_one_lt_of_lt hbase
  rw [Nat.mul_add_mod, Nat.mod_eq_of_lt hlt, Nat.mul_add_div hbase, Nat.div_eq_of_lt hlt]
  exact ⟨rfl, rfl⟩

theorem greatest_between {first last high : ℕ} (hfrom : first / base ≤ high)
    (hto : high < last / base) :
    first ≤ base * high + (base - 1) ∧ base * high + (base - 1) < last := by
  have hfirst := Nat.div_add_mod first base
  have hlast := Nat.div_add_mod last base
  have hdigit := Nat.mod_lt first hbase
  have hlow : base * (first / base) ≤ base * high := Nat.mul_le_mul_left base hfrom
  have hhigh : base * (high + 1) ≤ base * (last / base) := Nat.mul_le_mul_left base hto
  rw [Nat.mul_succ] at hhigh
  omega

/-- All numbers from one to another are below the latter in the reverse order exactly if the
two agree above its lowest digit that is not the greatest one. -/
theorem reversed_lt_of_interval_iff {width first last : ℕ} (hle : first ≤ last)
    (hlast : last < base ^ width) :
    (∀ x, first ≤ x → x < last → reversed base width x < reversed base width last) ↔
      first / base ^ (trailing base width last + 1) =
        last / base ^ (trailing base width last + 1) := by
  induction width generalizing first last with
  | zero =>
      rw [pow_zero] at hlast
      obtain rfl : last = 0 := by omega
      obtain rfl : first = 0 := by omega
      simp
  | succ width ih =>
      have hlast' := Nat.div_add_mod last base
      have hlastDigit := Nat.mod_lt last hbase
      have hdiv : first / base ≤ last / base := Nat.div_le_div_right hle
      simp only [reversed_lt_succ_iff hbase, trailing]
      -- the lowest digit of the end decides, unless it is the greatest one
      by_cases htop : last % base = base - 1
      · rw [if_pos htop, Nat.pow_succ', ← Nat.div_div_eq_div_mul, ← Nat.div_div_eq_div_mul,
          ← ih hdiv (Nat.div_lt_of_lt_mul (by rwa [← Nat.pow_succ']))]
        constructor
        · intro hall high hfrom hto
          obtain ⟨hlow, hhigh⟩ := greatest_between hbase hfrom hto
          have hcase := hall _ hlow hhigh
          rw [(greatest_mod_div hbase high).1, (greatest_mod_div hbase high).2, htop] at hcase
          exact (hcase.resolve_left (lt_irrefl _)).2
        · intro hall x hfrom hto
          have hx := Nat.div_add_mod x base
          have hdigit := Nat.mod_lt x hbase
          have hfrom' : first / base ≤ x / base := Nat.div_le_div_right hfrom
          have hto' : x / base ≤ last / base := Nat.div_le_div_right hto.le
          by_cases hlow : x % base = last % base
          · refine Or.inr ⟨hlow, hall _ hfrom' (lt_of_le_of_ne hto' fun heq => hto.ne ?_)⟩
            rw [← hx, ← hlast', hlow, heq]
          · omega
      · rw [if_neg htop, zero_add, pow_one]
        constructor
        · intro hall
          by_contra hne
          have hlt : first / base < last / base := lt_of_le_of_ne hdiv hne
          obtain ⟨hlow, hhigh⟩ :=
            greatest_between hbase (Nat.le_sub_one_of_lt hlt) (Nat.sub_one_lt_of_lt hlt)
          have hcase := hall _ hlow hhigh
          rw [(greatest_mod_div hbase _).1] at hcase
          omega
        · intro heq x hfrom hto
          have hfrom' : first / base ≤ x / base := Nat.div_le_div_right hfrom
          have hto' : x / base ≤ last / base := Nat.div_le_div_right hto.le
          have hsame : x / base = last / base := by omega
          have hx := Nat.div_add_mod x base
          rw [hsame] at hx
          left
          omega

end Foundation
