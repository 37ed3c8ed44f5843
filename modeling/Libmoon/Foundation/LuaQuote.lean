import Libmoon.Foundation.HexFloat

/-! # Quoted strings

`%q` writes a string between quotes so that it can be read back. Control characters are
written as decimal escapes, with as few digits as the byte behind them allows.
-/

namespace Foundation.LuaQuote

open HexFloat

def isDigit (byte : UInt8) : Bool := 48 ≤ byte && byte ≤ 57

/-- A decimal digit. -/
def digit (number : ℕ) : UInt8 := UInt8.ofNat (48 + number)

/-- A control character, if the byte behind it is known. -/
def escapeControl (byte : UInt8) (next : Option UInt8) : List UInt8 :=
  let number := byte.toNat
  if 100 ≤ number ∨ next.any isDigit then
    [92, digit (number / 100), digit (number / 10 % 10), digit (number % 10)]
  else if 10 ≤ number then [92, digit (number / 10), digit (number % 10)]
  else [92, digit number]

def escapeByte (byte : UInt8) (next : Option UInt8) : List UInt8 :=
  if byte = 34 ∨ byte = 92 ∨ byte = 10 then [92, byte]
  else if byte < 32 ∨ byte = 127 then escapeControl byte next
  else [byte]

def escapes : List UInt8 → List UInt8
  | [] => []
  | byte :: rest => escapeByte byte rest.head? ++ escapes rest

/-- `%q`. -/
def formatQ (string : List UInt8) : List UInt8 := 34 :: (escapes string ++ [34])

/-- `string.gsub` of a single byte. -/
def gsub (byte : UInt8) (replacement : List UInt8) (string : List UInt8) : List UInt8 :=
  string.flatMap fun other => if other = byte then replacement else [other]

/-- Where a reader is in a string: so many digits of an escape make this number. -/
inductive Mode where
  | plain
  | backslash
  | digits (count number : ℕ)

/-- A string up to its closing quote, and what follows. -/
def readFrom : Mode → List UInt8 → Option (List UInt8 × List UInt8)
  | _, [] => none
  | .plain, byte :: rest =>
      if byte = 34 then some ([], rest)
      else if byte = 10 then none
      else if byte = 92 then readFrom .backslash rest
      else (readFrom .plain rest).map (Prod.map (byte :: ·) id)
  | .backslash, byte :: rest =>
      if byte = 110 then (readFrom .plain rest).map (Prod.map (10 :: ·) id)
      else if byte = 34 ∨ byte = 92 ∨ byte = 10 then
        (readFrom .plain rest).map (Prod.map (byte :: ·) id)
      else if isDigit byte then readFrom (.digits 1 (byte.toNat - 48)) rest
      else none
  | .digits count number, byte :: rest =>
      if count < 3 ∧ isDigit byte then
        readFrom (.digits (count + 1) (10 * number + (byte.toNat - 48))) rest
      else if 256 ≤ number then none
      else
        Option.map (Prod.map (UInt8.ofNat number :: ·) id)
          (if byte = 34 then some ([], rest)
          else if byte = 10 then none
          else if byte = 92 then readFrom .backslash rest
          else (readFrom .plain rest).map (Prod.map (byte :: ·) id))

theorem readFrom_digits_end {count number : ℕ} {byte : UInt8} (hlt : number < 256)
    (hend : count = 3 ∨ isDigit byte = false) (rest : List UInt8) :
    readFrom (.digits count number) (byte :: rest) =
      (readFrom .plain (byte :: rest)).map (Prod.map (UInt8.ofNat number :: ·) id) := by
  have hstop : ¬ (count < 3 ∧ isDigit byte) := by
    rcases hend with rfl | hbyte
    · simp
    · simp [hbyte]
  simp only [readFrom, if_neg hstop, if_neg (Nat.not_le.mpr hlt)]

theorem isDigit_digit {number : ℕ} (hlt : number < 10) :
    isDigit (digit number) = true ∧ (digit number).toNat - 48 = number ∧
      digit number ≠ 110 ∧ digit number ≠ 34 ∧ digit number ≠ 92 ∧ digit number ≠ 10 := by
  have hall : ∀ number ∈ List.range 10, isDigit (digit number) = true ∧
      (digit number).toNat - 48 = number ∧ digit number ≠ 110 ∧ digit number ≠ 34 ∧
        digit number ≠ 92 ∧ digit number ≠ 10 := by decide
  exact hall number (List.mem_range.mpr hlt)

theorem readFrom_backslash_digit {number : ℕ} (hlt : number < 10) (rest : List UInt8) :
    readFrom .backslash (digit number :: rest) = readFrom (.digits 1 number) rest := by
  obtain ⟨hdigit, hvalue, hn, hquote, hbackslash, hline⟩ := isDigit_digit hlt
  rw [readFrom, if_neg hn, if_neg (by simp [hquote, hbackslash, hline]), if_pos hdigit, hvalue]

theorem readFrom_digits_digit {count number next : ℕ} (hcount : count < 3) (hlt : next < 10)
    (rest : List UInt8) :
    readFrom (.digits count number) (digit next :: rest) =
      readFrom (.digits (count + 1) (10 * number + next)) rest := by
  obtain ⟨hdigit, hvalue, -⟩ := isDigit_digit hlt
  rw [readFrom, if_pos ⟨hcount, hdigit⟩, hvalue]

/-- An escape ends where the byte behind it cannot be one of its digits. -/
theorem readFrom_escapeControl (byte : UInt8) {next : Option UInt8} {first : UInt8}
    (hnext : next.any isDigit = false → isDigit first = false) (rest : List UInt8) :
    readFrom .plain (escapeControl byte next ++ first :: rest) =
      (readFrom .plain (first :: rest)).map (Prod.map (byte :: ·) id) := by
  have hbyte : byte.toNat < 256 := byte.toNat_lt
  have hback : UInt8.ofNat byte.toNat = byte := UInt8.ofNat_toNat
  have hplain : ∀ text, readFrom .plain (92 :: text) = readFrom .backslash text := fun text => rfl
  unfold escapeControl
  dsimp only
  split
  next =>
    have hnumber : 10 * (10 * (byte.toNat / 100) + byte.toNat / 10 % 10) + byte.toNat % 10 =
        byte.toNat := by omega
    simp only [List.cons_append, List.nil_append]
    rw [hplain, readFrom_backslash_digit (by omega), readFrom_digits_digit (by omega) (by omega),
      readFrom_digits_digit (by omega) (by omega), hnumber, readFrom_digits_end hbyte (.inl rfl),
      hback]
  next hshort =>
    have hfirst := hnext (by simpa using (not_or.mp hshort).2)
    split
    next =>
      have hnumber : 10 * (byte.toNat / 10) + byte.toNat % 10 = byte.toNat := by omega
      simp only [List.cons_append, List.nil_append]
      rw [hplain, readFrom_backslash_digit (by omega), readFrom_digits_digit (by omega) (by omega),
        hnumber, readFrom_digits_end hbyte (.inr hfirst), hback]
    next =>
      simp only [List.cons_append, List.nil_append]
      rw [hplain, readFrom_backslash_digit (by omega), readFrom_digits_end hbyte (.inr hfirst),
        hback]

/-! ## Without line breaks -/

/-- `%q` with the escaped line breaks written as letters, which leaves no control character. -/
def quote (string : List UInt8) : List UInt8 :=
  gsub 26 [92, 48, 50, 54] (gsub 10 [110] (formatQ string))

def safeByte (byte : UInt8) (next : Option UInt8) : List UInt8 :=
  if byte = 10 then [92, 110] else escapeByte byte next

def safe : List UInt8 → List UInt8
  | [] => []
  | byte :: rest => safeByte byte rest.head? ++ safe rest

theorem gsub_append (byte : UInt8) (replacement first second : List UInt8) :
    gsub byte replacement (first ++ second) =
      gsub byte replacement first ++ gsub byte replacement second :=
  List.flatMap_append

theorem gsub_of_notMem {byte : UInt8} {string : List UInt8} (hmem : byte ∉ string)
    (replacement : List UInt8) : gsub byte replacement string = string := by
  induction string with
  | nil => rfl
  | cons first rest ih =>
      rw [List.mem_cons, not_or] at hmem
      have hne : first ≠ byte := Ne.symm hmem.1
      rw [gsub, List.flatMap_cons, if_neg hne]
      exact congrArg (first :: ·) (ih hmem.2)

theorem le_of_mem_digit {number : ℕ} (hlt : number < 10) : 32 ≤ digit number := by
  have hall : ∀ number ∈ List.range 10, 32 ≤ digit number := by decide
  exact hall number (List.mem_range.mpr hlt)

/-- What is written for a byte has no control characters, line breaks apart. -/
theorem le_of_mem_escapeByte {byte other : UInt8} {next : Option UInt8} (hne : byte ≠ 10)
    (hmem : other ∈ escapeByte byte next) : 32 ≤ other := by
  have hbyte : byte.toNat < 256 := byte.toNat_lt
  unfold escapeByte at hmem
  split at hmem
  next hspecial =>
    have hother : other = 92 ∨ other = 34 := by
      rcases hspecial with rfl | rfl | rfl
      · simpa using hmem
      · exact .inl (by simpa using hmem)
      · exact absurd rfl hne
    rcases hother with rfl | rfl <;> decide
  next =>
    split at hmem
    next =>
      have hslash : (32 : UInt8) ≤ 92 := by decide
      unfold escapeControl at hmem
      dsimp only at hmem
      split at hmem
      next =>
        simp only [List.mem_cons, List.not_mem_nil, or_false] at hmem
        rcases hmem with rfl | rfl | rfl | rfl
        · exact hslash
        all_goals exact le_of_mem_digit (by omega)
      next =>
        split at hmem
        · simp only [List.mem_cons, List.not_mem_nil, or_false] at hmem
          rcases hmem with rfl | rfl | rfl
          · exact hslash
          all_goals exact le_of_mem_digit (by omega)
        · simp only [List.mem_cons, List.not_mem_nil, or_false] at hmem
          rcases hmem with rfl | rfl
          · exact hslash
          · exact le_of_mem_digit (by omega)
    next hplain =>
      obtain rfl := List.mem_singleton.mp hmem
      exact UInt8.not_lt.mp (not_or.mp hplain).1

theorem gsub_escapeByte (byte : UInt8) (next : Option UInt8) :
    gsub 26 [92, 48, 50, 54] (gsub 10 [110] (escapeByte byte next)) = safeByte byte next := by
  unfold safeByte
  split
  next heq =>
    subst heq
    rfl
  next hne =>
    have hline : (10 : UInt8) ∉ escapeByte byte next := fun hmem =>
      absurd (le_of_mem_escapeByte hne hmem) (by decide)
    have hend : (26 : UInt8) ∉ escapeByte byte next := fun hmem =>
      absurd (le_of_mem_escapeByte hne hmem) (by decide)
    rw [gsub_of_notMem hline, gsub_of_notMem hend]

theorem quote_eq (string : List UInt8) : quote string = 34 :: (safe string ++ [34]) := by
  have hsafe : gsub 26 [92, 48, 50, 54] (gsub 10 [110] (escapes string)) = safe string := by
    induction string with
    | nil => rfl
    | cons byte rest ih => rw [escapes, gsub_append, gsub_append, gsub_escapeByte, ih, safe]
  have hquote : formatQ string = [34] ++ (escapes string ++ [34]) := rfl
  rw [quote, hquote]
  simp only [gsub_append, hsafe]
  rfl

theorem le_of_mem_safe {string : List UInt8} {other : UInt8} (hmem : other ∈ safe string) :
    32 ≤ other := by
  induction string with
  | nil => cases hmem
  | cons byte rest ih =>
      rcases List.mem_append.mp hmem with hmem | hmem
      · unfold safeByte at hmem
        split at hmem
        · simp only [List.mem_cons, List.not_mem_nil, or_false] at hmem
          rcases hmem with rfl | rfl <;> decide
        next hne => exact le_of_mem_escapeByte hne hmem
      · exact ih hmem

/-- A quoted string has no control characters. -/
theorem le_of_mem_quote {string : List UInt8} {other : UInt8} (hmem : other ∈ quote string) :
    32 ≤ other := by
  rw [quote_eq] at hmem
  simp only [List.mem_cons, List.mem_append, List.not_mem_nil, or_false] at hmem
  rcases hmem with rfl | hmem | rfl
  · decide
  · exact le_of_mem_safe hmem
  · decide

/-! ## Reading back -/

/-- The first byte that is written for a byte is a digit only if that one is. -/
theorem exists_safeByte (byte : UInt8) (next : Option UInt8) :
    ∃ first rest, safeByte byte next = first :: rest ∧
      (isDigit byte = false → isDigit first = false) := by
  unfold safeByte escapeByte escapeControl
  dsimp only
  split
  · exact ⟨92, [110], rfl, fun _ => rfl⟩
  · split
    · exact ⟨92, [byte], rfl, fun _ => rfl⟩
    · split
      · split
        · exact ⟨92, _, rfl, fun _ => rfl⟩
        · split
          · exact ⟨92, _, rfl, fun _ => rfl⟩
          · exact ⟨92, _, rfl, fun _ => rfl⟩
      · exact ⟨byte, [], rfl, id⟩

theorem readFrom_safeByte (byte : UInt8) {next : Option UInt8} {first : UInt8}
    (hnext : next.any isDigit = false → isDigit first = false) (rest : List UInt8) :
    readFrom .plain (safeByte byte next ++ first :: rest) =
      (readFrom .plain (first :: rest)).map (Prod.map (byte :: ·) id) := by
  unfold safeByte
  split
  next heq =>
    subst heq
    rfl
  next hline =>
    unfold escapeByte
    split
    next hspecial =>
      rcases hspecial with rfl | rfl | rfl
      · rfl
      · rfl
      · exact absurd rfl hline
    next hspecial =>
      split
      next => exact readFrom_escapeControl byte hnext rest
      next =>
        simp only [not_or] at hspecial
        rw [List.singleton_append, readFrom, if_neg hspecial.1, if_neg hspecial.2.2,
          if_neg hspecial.2.1]

theorem readFrom_safe (string rest : List UInt8) :
    readFrom .plain (safe string ++ 34 :: rest) = some (string, rest) := by
  induction string with
  | nil => rfl
  | cons byte string ih =>
      obtain ⟨first, tail, htext, hdigit⟩ : ∃ first tail,
          safe string ++ 34 :: rest = first :: tail ∧
          (string.head?.any isDigit = false → isDigit first = false) := by
        cases string with
        | nil => exact ⟨34, rest, rfl, fun _ => rfl⟩
        | cons other string =>
            obtain ⟨first, tail, hsafe, hdigit⟩ := exists_safeByte other string.head?
            refine ⟨first, tail ++ (safe string ++ 34 :: rest), ?_, hdigit⟩
            rw [safe, hsafe, List.append_assoc, List.cons_append]
      rw [safe, List.append_assoc, htext, readFrom_safeByte byte hdigit, ← htext, ih]
      rfl

end Foundation.LuaQuote
