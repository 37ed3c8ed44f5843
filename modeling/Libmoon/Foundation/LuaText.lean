import Libmoon.Foundation.LuaBit
import Mathlib.Data.Rat.Cast.Order
import Mathlib.Order.WithBot

/-! # Positions and numerals in strings of Lua

Positions in a string begin with one, and negative ones count from its end. `gmatch` with the
complement of a class finds the runs between its characters. A numeral is read as the double
that is nearest to it.
-/

namespace Foundation.LuaText

universe u

variable {α : Type u}

/-- `string.find` with a single character. -/
def find [BEq α] (char : α) (string : List α) : Option ℕ := (string.idxOf? char).map (· + 1)

/-- Where a position is in a string of some length. -/
def position (length : ℕ) (i : ℤ) : ℤ := if i < 0 then length + i + 1 else i

/-- `string.sub` -/
def sub (string : List α) (i j : ℤ) : List α :=
  let first := max (position string.length i) 1
  let last := min (position string.length j) string.length
  (string.drop (first - 1).toNat).take (last - first + 1).toNat

/-- `string.gmatch` with `[^...]+`. -/
def runs (separates : α → Bool) (string : List α) : List (List α) :=
  (string.splitOnP separates).filter fun run => !run.isEmpty

/-- The double nearest to a number, the even one of two. From half a unit below `2 ^ 1024` on
it is infinite. -/
def nearestDouble (number : ℕ) : WithTop ℚ :=
  let ulp : ℚ := 2 ^ (number.log2 + 1 - 53)
  let rounded : ℚ := roundEven (number / ulp) * ulp
  if rounded < 2 ^ 1024 then rounded else ⊤

/-- `tonumber`. What it makes of a string that is no sequence of digits is a parameter. -/
def tonumber (numeral : List Char → Option (WithTop ℚ)) (string : List Char) :
    Option (WithTop ℚ) :=
  if string ≠ [] ∧ string.all Char.isDigit then
    some (nearestDouble (Nat.ofDigitChars 10 string 0))
  else
    numeral string

/-! ## Positions -/

/-- The first of several characters is found. -/
theorem find_append [BEq α] [LawfulBEq α] {char : α} {front : List α} (hfront : char ∉ front)
    (back : List α) : find char (front ++ char :: back) = some (front.length + 1) := by
  induction front with
  | nil => simp [find, List.idxOf?_cons]
  | cons first front ih =>
      rw [List.mem_cons, not_or] at hfront
      have hne : (first == char) = false := by
        rw [beq_eq_false_iff_ne]
        exact Ne.symm hfront.left
      have ih := ih hfront.right
      simp only [find, Option.map_eq_some_iff, Nat.add_right_cancel_iff, exists_eq_right] at ih ⊢
      rw [List.cons_append, List.idxOf?_cons, hne]
      simp [ih]

/-- A part of a string, given the positions of its ends. -/
theorem sub_eq {string : List α} (front middle back : List α) {i j : ℤ}
    (hstring : string = front ++ (middle ++ back))
    (hi : position string.length i = front.length + 1)
    (hj : position string.length j = front.length + middle.length) :
    sub string i j = middle := by
  have hlength : string.length = front.length + (middle.length + back.length) := by
    simp only [hstring, List.length_append]
  unfold sub
  rw [hi, hj, hlength]
  have hfirst : (max ((front.length : ℤ) + 1) 1 - 1).toNat = front.length := by omega
  have hlast : (min ((front.length : ℤ) + middle.length)
      ((front.length + (middle.length + back.length) : ℕ) : ℤ) -
        max ((front.length : ℤ) + 1) 1 + 1).toNat = middle.length := by omega
  dsimp only
  rw [hfirst, hlast, hstring, List.drop_left, List.take_left]

theorem position_of_nonneg (length : ℕ) {i : ℤ} (hi : 0 ≤ i) : position length i = i :=
  if_neg (not_lt_of_ge hi)

theorem position_of_neg (length : ℕ) {i : ℤ} (hi : i < 0) : position length i = length + i + 1 :=
  if_pos hi

/-! ## Runs -/

variable {separates : α → Bool} {line breaks : List α}

theorem runs_line (hne : line ≠ []) (hline : ∀ char ∈ line, separates char = false) :
    runs separates line = [line] := by
  rw [runs, List.splitOnP_eq_singleton hline]
  simp [hne]

/-- Characters in front of the first run are skipped. -/
theorem runs_breaks_append (hbreaks : ∀ char ∈ breaks, separates char) (string : List α) :
    runs separates (breaks ++ string) = runs separates string := by
  induction breaks with
  | nil => rfl
  | cons char breaks ih =>
      obtain ⟨hchar, hrest⟩ := List.forall_mem_cons.mp hbreaks
      rw [List.cons_append, ← List.nil_append (char :: (breaks ++ string)), runs,
        List.splitOnP_append_cons [] (breaks ++ string) hchar, List.filter_append]
      exact ih hrest

/-- A run ends with the first character that is not part of it. -/
theorem runs_line_append (hne : line ≠ []) (hline : ∀ char ∈ line, separates char = false)
    (hbreaks : ∀ char ∈ breaks, separates char) (hbreaksne : breaks ≠ []) (string : List α) :
    runs separates (line ++ (breaks ++ string)) = line :: runs separates string := by
  cases breaks with
  | nil => exact absurd rfl hbreaksne
  | cons char breaks =>
      obtain ⟨hchar, hrest⟩ := List.forall_mem_cons.mp hbreaks
      have hfirst := runs_line hne hline
      have hothers := runs_breaks_append hrest string
      unfold runs at hfirst hothers ⊢
      rw [List.cons_append, List.splitOnP_append_cons line (breaks ++ string) hchar,
        List.filter_append, hfirst, hothers]
      rfl

/-! ## Numerals -/

/-- The numbers that a double holds. -/
def Representable (number : ℕ) : Prop :=
  ∃ mantissa exponent, mantissa < 2 ^ 53 ∧ number = mantissa * 2 ^ exponent ∧ number < 2 ^ 1024

theorem representable_of_lt {number : ℕ} (hlt : number < 2 ^ 53) : Representable number := by
  have hbelow (k : ℕ) (hk : 53 ≤ k) : number < 2 ^ k :=
    Nat.lt_of_lt_of_le hlt (Nat.pow_le_pow_right Nat.two_pos hk)
  exact ⟨number, 0, hlt, (Nat.mul_one number).symm, hbelow 1024 (by omega)⟩

/-- The unit in the last place divides what a double holds. -/
theorem ulp_dvd {number : ℕ} (hrepresentable : Representable number) :
    2 ^ (number.log2 + 1 - 53) ∣ number := by
  obtain ⟨mantissa, exponent, hmantissa, hnumber, -⟩ := hrepresentable
  rcases Nat.eq_zero_or_pos number with hzero | hpos
  · rw [hzero]
    exact dvd_zero _
  · have hlt : number < 2 ^ (53 + exponent) := by
      rw [hnumber, Nat.pow_add]
      exact Nat.mul_lt_mul_of_pos_right hmantissa (Nat.two_pow_pos exponent)
    have hlog := (Nat.log2_lt hpos.ne').mpr hlt
    have hdvd : 2 ^ exponent ∣ number := ⟨mantissa, hnumber.trans (Nat.mul_comm _ _)⟩
    exact (Nat.pow_dvd_pow 2 (by omega)).trans hdvd

/-- A number comes out as it is exactly if a double holds it. -/
theorem nearestDouble_eq_self_iff {number : ℕ} :
    nearestDouble number = (number : ℚ) ↔ Representable number := by
  have hne (place : ℕ) : (2 : ℚ) ^ place ≠ 0 := pow_ne_zero _ two_ne_zero
  constructor
  · intro hsame
    unfold nearestDouble at hsame
    dsimp only at hsame
    split_ifs at hsame with hlt
    · have hrounded := WithTop.coe_injective hsame
      rw [hrounded] at hlt
      generalize hunits : roundEven ((number : ℚ) / 2 ^ (number.log2 + 1 - 53)) = units at hrounded
      have hnumber : units * 2 ^ (number.log2 + 1 - 53) = (number : ℤ) := by
        exact_mod_cast hrounded
      have hpow : (0 : ℤ) < 2 ^ (number.log2 + 1 - 53) := pow_pos two_pos _
      have hnonneg : 0 ≤ units := nonneg_of_mul_nonneg_left (by omega) hpow
      -- the mantissa is the number of units
      obtain ⟨mantissa, rfl⟩ := Int.eq_ofNat_of_zero_le hnonneg
      have hnumber : mantissa * 2 ^ (number.log2 + 1 - 53) = number := by exact_mod_cast hnumber
      have hbelow : mantissa * 2 ^ (number.log2 + 1 - 53) <
          2 ^ 53 * 2 ^ (number.log2 + 1 - 53) := by
        rw [hnumber, ← Nat.pow_add]
        exact Nat.lt_log2_self.trans_le (Nat.pow_le_pow_right two_pos (by omega))
      exact ⟨mantissa, _, Nat.lt_of_mul_lt_mul_right hbelow, hnumber.symm, by exact_mod_cast hlt⟩
    · cases hsame
  · intro hrepresentable
    obtain ⟨units, hunits⟩ := ulp_dvd hrepresentable
    have hlt : (number : ℚ) < 2 ^ 1024 := by
      obtain ⟨-, -, -, -, hlt⟩ := hrepresentable
      exact_mod_cast hlt
    unfold nearestDouble
    generalize number.log2 + 1 - 53 = place at hunits
    -- a whole number of units is not changed by rounding
    have hquotient : (number : ℚ) / 2 ^ place = (units : ℤ) := by
      rw [div_eq_iff (hne place), hunits]
      push_cast
      exact mul_comm _ _
    have hrounded : ((roundEven ((number : ℚ) / 2 ^ place) : ℤ) : ℚ) * 2 ^ place = number := by
      rw [hquotient, roundEven_intCast, ← hquotient, div_mul_cancel₀ _ (hne place)]
    dsimp only
    rw [hrounded, if_pos hlt]

theorem tonumber_toDigits (numeral : List Char → Option (WithTop ℚ)) (number : ℕ) :
    tonumber numeral (Nat.toDigits 10 number) = some (nearestDouble number) := by
  have hdigits : (Nat.toDigits 10 number).all Char.isDigit := by
    rw [List.all_eq_true]
    exact fun char hchar => Nat.isDigit_of_mem_toDigits (by decide) (by decide) hchar
  rw [tonumber, if_pos ⟨Nat.toDigits_ne_nil, hdigits⟩, Nat.ofDigitChars_ten_toDigits]

end Foundation.LuaText
