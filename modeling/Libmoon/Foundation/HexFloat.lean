import Mathlib.Data.Nat.Log
import Mathlib.Data.List.TakeWhile
import Mathlib.Algebra.Order.Ring.Nat
import Mathlib.Tactic.Common

/-! # Hexadecimal floating point numerals

A binary number is an odd mantissa times a power of two. `%a` writes it with one leading
hexadecimal digit, and with as many behind the point as are needed to be exact. A numeral is
read up to the first byte that does not belong to it.
-/

namespace Foundation.HexFloat

/-! ## Numbers -/

/-- A number with a sign: an odd mantissa times a power of two, or zero. -/
@[ext] structure Binary where
  negative : Bool
  mantissa : ℕ
  exponent : ℤ
  canonical : mantissa % 2 = 1 ∨ mantissa = 0 ∧ exponent = 0
deriving DecidableEq

/-- Take factors of two out of a mantissa. -/
def reduce : ℕ → ℕ → ℤ → ℕ × ℤ
  | 0, mantissa, exponent => (mantissa, exponent)
  | fuel + 1, mantissa, exponent =>
      if mantissa % 2 = 0 then reduce fuel (mantissa / 2) (exponent + 1)
      else (mantissa, exponent)

theorem reduce_odd {fuel mantissa : ℕ} (hpos : 0 < mantissa) (hlt : mantissa < 2 ^ (fuel + 1))
    (exponent : ℤ) : (reduce fuel mantissa exponent).1 % 2 = 1 := by
  induction fuel generalizing mantissa exponent with
  | zero =>
      simp only [reduce]
      omega
  | succ fuel ih =>
      rw [reduce]
      split
      next heven => exact ih (by omega) (by omega) _
      next hodd => omega

theorem reduce_shifted {mantissa : ℕ} (hodd : mantissa % 2 = 1) {places fuel : ℕ}
    (hfuel : places ≤ fuel) (exponent : ℤ) :
    reduce fuel (2 ^ places * mantissa) exponent = (mantissa, exponent + places) := by
  induction places generalizing fuel exponent with
  | zero =>
      cases fuel with
      | zero => simp [reduce]
      | succ fuel => simp [reduce, hodd]
  | succ places ih =>
      cases fuel with
      | zero => omega
      | succ fuel =>
          have hhalf : 2 ^ (places + 1) * mantissa = 2 * (2 ^ places * mantissa) := by
            rw [Nat.pow_succ']
            exact Nat.mul_assoc _ _ _
          rw [reduce, hhalf, if_pos (Nat.mul_mod_right _ _), Nat.mul_div_cancel_left _ Nat.two_pos,
            ih (by omega)]
          simp only [Prod.mk.injEq, true_and]
          omega

/-- The number with this mantissa and exponent. -/
def Binary.of (negative : Bool) (mantissa : ℕ) (exponent : ℤ) : Binary :=
  if hzero : mantissa = 0 then ⟨negative, 0, 0, .inr ⟨rfl, rfl⟩⟩
  else
    { negative := negative
      mantissa := (reduce mantissa.log2 mantissa exponent).1
      exponent := (reduce mantissa.log2 mantissa exponent).2
      canonical := .inl (reduce_odd (Nat.pos_of_ne_zero hzero) Nat.lt_log2_self exponent) }

theorem reduce_scaled (fuel mantissa : ℕ) (exponent : ℤ) : ∃ places : ℕ,
    (reduce fuel mantissa exponent).2 = exponent + places ∧
      mantissa = 2 ^ places * (reduce fuel mantissa exponent).1 := by
  induction fuel generalizing mantissa exponent with
  | zero => exact ⟨0, by simp [reduce], by simp [reduce]⟩
  | succ fuel ih =>
      rw [reduce]
      split
      next heven =>
        obtain ⟨places, hexponent, hmantissa⟩ := ih (mantissa / 2) (exponent + 1)
        refine ⟨places + 1, ?_, ?_⟩
        · rw [hexponent]
          omega
        · rw [Nat.pow_succ', Nat.mul_assoc, ← hmantissa]
          omega
      next => exact ⟨0, by simp, by simp⟩

theorem Binary.of_injective {negative : Bool} {exponent : ℤ} :
    Function.Injective fun mantissa => Binary.of negative mantissa exponent := by
  have hzero : ∀ mantissa, (Binary.of negative mantissa exponent).mantissa = 0 ↔ mantissa = 0 := by
    intro mantissa
    unfold Binary.of
    split
    next hzero => simp [hzero]
    next hne =>
      have hodd := reduce_odd (Nat.pos_of_ne_zero hne) Nat.lt_log2_self exponent
      simp only [hne, iff_false]
      omega
  intro first second heq
  dsimp only at heq
  by_cases hfirst : first = 0
  · rw [hfirst, eq_comm, ← hzero second, ← heq, hzero, hfirst]
  · have hsecond : second ≠ 0 := by rwa [ne_eq, ← hzero second, ← heq, hzero]
    rw [Binary.of, dif_neg hfirst, Binary.of, dif_neg hsecond] at heq
    simp only [Binary.mk.injEq, true_and] at heq
    obtain ⟨places, hexponent, hmantissa⟩ := reduce_scaled first.log2 first exponent
    obtain ⟨others, hother, hsame⟩ := reduce_scaled second.log2 second exponent
    have hplaces : places = others := by omega
    rw [hmantissa, hsame, hplaces, heq.1]

theorem Binary.negative_of (negative : Bool) (mantissa : ℕ) (exponent : ℤ) :
    (Binary.of negative mantissa exponent).negative = negative := by
  unfold Binary.of
  split <;> rfl

/-- A natural number can be read off its mantissa and exponent. -/
theorem Binary.value_of (negative : Bool) (number : ℕ) :
    (Binary.of negative number 0).mantissa * 2 ^ (Binary.of negative number 0).exponent.toNat =
      number := by
  unfold Binary.of
  split
  next hzero => simp [hzero]
  next =>
    obtain ⟨places, hexponent, hmantissa⟩ := reduce_scaled number.log2 number 0
    dsimp only
    rw [hexponent, Int.zero_add, Int.toNat_natCast, Nat.mul_comm, ← hmantissa]

theorem Binary.of_shifted (number : Binary) (places : ℕ) :
    Binary.of number.negative (2 ^ places * number.mantissa) (number.exponent - places) =
      number := by
  obtain ⟨negative, mantissa, exponent, hodd | ⟨rfl, rfl⟩⟩ := number
  · have hne : 2 ^ places * mantissa ≠ 0 := by
      have hmantissa : mantissa ≠ 0 := by
        rintro rfl
        cases hodd
      exact Nat.mul_ne_zero (Nat.two_pow_pos places).ne' hmantissa
    have hplaces : places ≤ (2 ^ places * mantissa).log2 := by
      rw [Nat.le_log2 hne]
      exact Nat.le_mul_of_pos_right _ (by omega)
    rw [Binary.of, dif_neg hne]
    ext1
    · rfl
    · simp only [reduce_shifted hodd hplaces]
    · simp only [reduce_shifted hodd hplaces, Int.sub_add_cancel]
  · rfl

/-! ## Digits -/

def hexDigit (digit : ℕ) : UInt8 := UInt8.ofNat (if digit < 10 then 48 + digit else 87 + digit)

def hexValue (byte : UInt8) : Option ℕ :=
  if 48 ≤ byte ∧ byte ≤ 57 then some (byte.toNat - 48)
  else if 97 ≤ byte ∧ byte ≤ 102 then some (byte.toNat - 87)
  else if 65 ≤ byte ∧ byte ≤ 70 then some (byte.toNat - 55)
  else none

def decimalValue (byte : UInt8) : Option ℕ :=
  if 48 ≤ byte ∧ byte ≤ 57 then some (byte.toNat - 48) else none

/-- So many digits of a number, the highest first. -/
def hexDigits : ℕ → ℕ → List UInt8
  | 0, _ => []
  | count + 1, number => hexDigits count (number / 16) ++ [hexDigit (number % 16)]

def decimal (number : ℕ) : List UInt8 :=
  (Nat.toDigits 10 number).map fun char => UInt8.ofNat char.toNat

/-- Read the digits that a text starts with, behind those that were read before. -/
def readDigits (value : UInt8 → Option ℕ) (base : ℕ) : ℕ → List UInt8 → ℕ × List UInt8
  | number, [] => (number, [])
  | number, byte :: rest =>
      match value byte with
      | some digit => readDigits value base (base * number + digit) rest
      | none => (number, byte :: rest)

/-- The text does not go on with a digit. -/
def NoDigit (value : UInt8 → Option ℕ) (text : List UInt8) : Prop :=
  ∀ byte ∈ text.head?, value byte = none

theorem hexValue_hexDigit {digit : ℕ} (hlt : digit < 16) :
    hexValue (hexDigit digit) = some digit := by
  have hall : ∀ digit ∈ List.range 16, hexValue (hexDigit digit) = some digit := by decide
  exact hall digit (List.mem_range.mpr hlt)

theorem readDigits_of_noDigit {value : UInt8 → Option ℕ} {text : List UInt8}
    (hstop : NoDigit value text) (base number : ℕ) :
    readDigits value base number text = (number, text) := by
  cases text with
  | nil => rfl
  | cons byte rest => rw [readDigits, hstop byte rfl]

theorem length_hexDigits (count number : ℕ) : (hexDigits count number).length = count := by
  induction count generalizing number with
  | zero => rfl
  | succ count ih => rw [hexDigits, List.length_append, ih, List.length_singleton]

theorem readDigits_hexDigits {count number : ℕ} (hlt : number < 16 ^ count) (before : ℕ)
    (rest : List UInt8) :
    readDigits hexValue 16 before (hexDigits count number ++ rest) =
      readDigits hexValue 16 (16 ^ count * before + number) rest := by
  induction count generalizing number rest with
  | zero =>
      obtain rfl : number = 0 := by omega
      simp [hexDigits]
  | succ count ih =>
      have hdiv : number / 16 < 16 ^ count :=
        Nat.div_lt_of_lt_mul (by rwa [Nat.pow_succ'] at hlt)
      rw [hexDigits, List.append_assoc, ih hdiv, List.singleton_append, readDigits,
        hexValue_hexDigit (Nat.mod_lt _ (by decide))]
      dsimp only
      congr 1
      have hsplit := Nat.div_add_mod number 16
      rw [Nat.pow_succ]
      generalize 16 ^ count = power
      rw [Nat.mul_add, ← Nat.mul_assoc, Nat.mul_comm 16 power]
      omega

theorem decimalValue_digit {char : Char} (hdigit : char.isDigit) :
    decimalValue (UInt8.ofNat char.toNat) = some (char.toNat - '0'.toNat) := by
  have hbounds : 48 ≤ char.toNat ∧ char.toNat ≤ 57 := by
    simpa [Char.isDigit, UInt32.le_iff_toNat_le] using hdigit
  have hbyte : (UInt8.ofNat char.toNat).toNat = char.toNat := by
    rw [UInt8.toNat_ofNat']
    omega
  rw [decimalValue, if_pos, hbyte]
  · rfl
  · rw [UInt8.le_iff_toNat_le, UInt8.le_iff_toNat_le, hbyte]
    exact hbounds

theorem readDigits_decimal (number : ℕ) {rest : List UInt8} (hstop : NoDigit decimalValue rest) :
    readDigits decimalValue 10 0 (decimal number ++ rest) = (number, rest) := by
  have hdigits : ∀ chars : List Char, (∀ char ∈ chars, char.isDigit) → ∀ before,
      readDigits decimalValue 10 before
          (chars.map (fun char => UInt8.ofNat char.toNat) ++ rest) =
        (Nat.ofDigitChars 10 chars before, rest) := by
    intro chars hchars
    induction chars with
    | nil =>
        intro before
        exact readDigits_of_noDigit hstop 10 before
    | cons char chars ih =>
        intro before
        rw [List.map_cons, List.cons_append, readDigits,
          decimalValue_digit (hchars char List.mem_cons_self), Nat.ofDigitChars_cons]
        exact ih (fun later hlater => hchars later (List.mem_cons_of_mem _ hlater)) _
  rw [decimal, hdigits _ fun char hchar =>
    Nat.isDigit_of_mem_toDigits (by decide) (by decide) hchar, Nat.ofDigitChars_ten_toDigits]

/-! ## Numerals -/

/-- An exponent, with its sign. -/
def signed (number : ℤ) : List UInt8 :=
  (if number < 0 then 45 else 43) :: decimal number.natAbs

/-- `%a` of a number that is not negative: so many binary places as its mantissa has after the
first one, in digits of four. -/
def hexFloat (mantissa : ℕ) (exponent : ℤ) : List UInt8 :=
  if mantissa = 0 then [48, 120, 48, 112, 43, 48]
  else
    let places := mantissa.log2
    let digits := (places + 3) / 4
    let fraction := hexDigits digits (2 ^ (4 * digits - places) * (mantissa - 2 ^ places))
    [48, 120, 49] ++ (if digits = 0 then [] else 46 :: fraction) ++
      112 :: signed (exponent + places)

def readSigned (text : List UInt8) : ℤ × List UInt8 :=
  match text with
  | 45 :: rest =>
      let (number, rest) := readDigits decimalValue 10 0 rest
      (-number, rest)
  | 43 :: rest =>
      let (number, rest) := readDigits decimalValue 10 0 rest
      (number, rest)
  | rest =>
      let (number, rest) := readDigits decimalValue 10 0 rest
      (number, rest)

/-- The digits behind a point, if there is one, and how many they are. -/
def readFraction (whole : ℕ) (text : List UInt8) : ℕ × ℕ × List UInt8 :=
  match text with
  | 46 :: fraction =>
      let (mantissa, rest) := readDigits hexValue 16 whole fraction
      (mantissa, fraction.length - rest.length, rest)
  | rest => (whole, 0, rest)

/-- Read a hexadecimal numeral or a sequence of decimal digits, as mantissa and exponent. -/
def readNumeral (text : List UInt8) : Option ((ℕ × ℤ) × List UInt8) :=
  match text with
  | 48 :: 120 :: digits =>
      let (whole, rest) := readDigits hexValue 16 0 digits
      let (mantissa, places, rest) := readFraction whole rest
      match rest with
      | 112 :: rest =>
          let (exponent, rest) := readSigned rest
          some ((mantissa, exponent - 4 * places), rest)
      | rest => some ((mantissa, -(4 * places)), rest)
  | byte :: rest =>
      if (decimalValue byte).isSome then
        let (number, rest) := readDigits decimalValue 10 0 (byte :: rest)
        some ((number, 0), rest)
      else none
  | [] => none

theorem readSigned_signed (number : ℤ) {rest : List UInt8} (hstop : NoDigit decimalValue rest) :
    readSigned (signed number ++ rest) = (number, rest) := by
  rw [signed, List.cons_append]
  split
  next hneg =>
    simp only [readSigned, readDigits_decimal _ hstop]
    rw [show -(number.natAbs : ℤ) = number by omega]
  next hpos =>
    simp only [readSigned, readDigits_decimal _ hstop]
    rw [show (number.natAbs : ℤ) = number by omega]

theorem readNumeral_hex {digits point power rest : List UInt8} {whole mantissa places : ℕ}
    {exponent : ℤ} (hwhole : readDigits hexValue 16 0 digits = (whole, point))
    (hfraction : readFraction whole point = (mantissa, places, 112 :: power))
    (hpower : readSigned power = (exponent, rest)) :
    readNumeral (48 :: 120 :: digits) = some ((mantissa, exponent - 4 * places), rest) := by
  simp only [readNumeral, hwhole, hfraction, hpower]

theorem readFraction_hexDigits {count number : ℕ} (hlt : number < 16 ^ count) (whole : ℕ)
    {rest : List UInt8} (hstop : NoDigit hexValue rest) :
    readFraction whole (46 :: (hexDigits count number ++ rest)) =
      (16 ^ count * whole + number, count, rest) := by
  simp only [readFraction, readDigits_hexDigits hlt, readDigits_of_noDigit hstop,
    List.length_append, length_hexDigits, Nat.add_sub_cancel]

/-- A numeral is read as the number that it was written for. -/
theorem readNumeral_hexFloat (number : Binary) {rest : List UInt8}
    (hstop : NoDigit decimalValue rest) :
    ∃ mantissa exponent,
      readNumeral (hexFloat number.mantissa number.exponent ++ rest) =
          some ((mantissa, exponent), rest) ∧
        Binary.of number.negative mantissa exponent = number := by
  unfold hexFloat
  split
  next hzero =>
    have hexponent : number.exponent = 0 := by
      have hcanonical := number.canonical
      omega
    have hwhole : readDigits hexValue 16 0 (48 :: 112 :: (signed 0 ++ rest)) =
        (0, 112 :: (signed 0 ++ rest)) := rfl
    refine ⟨0, 0 - 4 * (0 : ℕ), readNumeral_hex hwhole rfl (readSigned_signed 0 hstop), ?_⟩
    have hshifted := number.of_shifted 0
    rw [hzero, hexponent] at hshifted
    exact hshifted
  next hzero =>
    have hlow := Nat.log2_self_le hzero
    have hhigh := Nat.lt_log2_self (n := number.mantissa)
    generalize number.mantissa.log2 = places at hlow hhigh
    have hpower : NoDigit hexValue (112 :: (signed (number.exponent + places) ++ rest)) := by
      intro byte hbyte
      cases hbyte
      rfl
    dsimp only
    split
    next hdigits =>
      -- nothing behind the point
      have hwhole : readDigits hexValue 16 0
          (49 :: 112 :: (signed (number.exponent + places) ++ rest)) =
            (1, 112 :: (signed (number.exponent + places) ++ rest)) := rfl
      refine ⟨1, number.exponent + places - 4 * (0 : ℕ),
        readNumeral_hex hwhole rfl (readSigned_signed _ hstop), ?_⟩
      obtain rfl : places = 0 := by omega
      have hone : number.mantissa = 1 := by omega
      have hshifted := number.of_shifted 0
      rw [hone] at hshifted
      rw [show number.exponent + (0 : ℕ) - 4 * (0 : ℕ) = number.exponent - (0 : ℕ) by omega]
      exact hshifted
    next hdigits =>
      generalize hcount : (places + 3) / 4 = count at hdigits
      obtain ⟨shift, hshift⟩ : ∃ shift, 4 * count = places + shift :=
        ⟨4 * count - places, by omega⟩
      have hsub : 4 * count - places = shift := by omega
      have hpow : 16 ^ count = 2 ^ shift * 2 ^ places := by
        rw [show 16 = 2 ^ 4 from rfl, ← Nat.pow_mul, hshift, Nat.pow_add, Nat.mul_comm]
      have hlt : 2 ^ shift * (number.mantissa - 2 ^ places) < 16 ^ count := by
        rw [hpow]
        refine Nat.mul_lt_mul_of_pos_left ?_ (Nat.two_pow_pos shift)
        rw [Nat.pow_succ] at hhigh
        omega
      have hmantissa : 16 ^ count * 1 + 2 ^ shift * (number.mantissa - 2 ^ places) =
          2 ^ shift * number.mantissa := by
        rw [hpow, Nat.mul_one, ← Nat.mul_add]
        congr 1
        omega
      have hwhole : readDigits hexValue 16 0 (49 :: 46 ::
          (hexDigits count (2 ^ shift * (number.mantissa - 2 ^ places)) ++
            112 :: (signed (number.exponent + places) ++ rest))) =
          (1, 46 :: (hexDigits count (2 ^ shift * (number.mantissa - 2 ^ places)) ++
            112 :: (signed (number.exponent + places) ++ rest))) := rfl
      refine ⟨2 ^ shift * number.mantissa, number.exponent + places - 4 * count, ?_, ?_⟩
      · rw [hsub, ← hmantissa]
        simp only [List.cons_append, List.nil_append, List.append_assoc]
        exact readNumeral_hex hwhole (readFraction_hexDigits hlt 1 hpower)
          (readSigned_signed _ hstop)
      · have hshifted := number.of_shifted shift
        rw [show number.exponent + places - 4 * count = number.exponent - (shift : ℤ) by omega]
        exact hshifted

/-! ## Bytes -/

theorem le_of_mem_hexDigits {count number : ℕ} {byte : UInt8}
    (hmem : byte ∈ hexDigits count number) : 43 ≤ byte := by
  induction count generalizing number with
  | zero => simp [hexDigits] at hmem
  | succ count ih =>
      rw [hexDigits, List.mem_append, List.mem_singleton] at hmem
      rcases hmem with hbefore | rfl
      · exact ih hbefore
      · have hall : ∀ digit ∈ List.range 16, 43 ≤ hexDigit digit := by decide
        exact hall _ (List.mem_range.mpr (Nat.mod_lt number (by decide)))

theorem le_of_mem_decimal {number : ℕ} {byte : UInt8} (hmem : byte ∈ decimal number) :
    43 ≤ byte := by
  obtain ⟨char, hchar, rfl⟩ := List.mem_map.mp hmem
  have hdigit := decimalValue_digit (Nat.isDigit_of_mem_toDigits (by decide) (by decide) hchar)
  rw [decimalValue] at hdigit
  split at hdigit
  next hbounds => exact UInt8.le_trans (by decide) hbounds.1
  next => cases hdigit

theorem le_of_mem_hexFloat {mantissa : ℕ} {exponent : ℤ} {byte : UInt8}
    (hmem : byte ∈ hexFloat mantissa exponent) : 43 ≤ byte := by
  have hsigned : ∀ number : ℤ, byte ∈ signed number → 43 ≤ byte := by
    intro number hmem
    rcases List.mem_cons.mp hmem with rfl | hdecimal
    · split <;> decide
    · exact le_of_mem_decimal hdecimal
  rw [hexFloat] at hmem
  split at hmem
  next =>
    have hall : ∀ byte ∈ ([48, 120, 48, 112, 43, 48] : List UInt8), 43 ≤ byte := by simp
    exact hall byte hmem
  next =>
    simp only [List.mem_append, List.mem_cons, List.not_mem_nil, or_false] at hmem
    rcases hmem with ((rfl | rfl | rfl) | hfraction) | rfl | hpower
    · decide
    · decide
    · decide
    · split at hfraction
      next => cases hfraction
      next =>
        rcases List.mem_cons.mp hfraction with rfl | hdigit
        · decide
        · exact le_of_mem_hexDigits hdigit
    · decide
    · exact hsigned _ hpower

end Foundation.HexFloat
