import Mathlib.Tactic.Common
import Mathlib.Tactic.Ring

/-! # Strings of digits

`string.match` with patterns that are made of captured runs and of single characters
between them, and the numbers that such runs are read as.
-/

namespace Foundation

/-- The items of a pattern: `(%x+)` captures a run, `[-:]` is a single character. -/
inductive PatternItem where
  | run (cls : Char → Bool)
  | single (cls : Char → Bool)

/-- The lengths that are tried for a run, the longest first. -/
def runLengths (cls : Char → Bool) (chars : List Char) : List Nat :=
  ((List.range (chars.takeWhile cls).length).map (· + 1)).reverse

/-- Match the items at the beginning of a string. A run gives characters back when the rest
of the pattern does not match. -/
def matchItems : List PatternItem → List Char → Option (List (List Char))
  | [], _ => some []
  | .single _ :: _, [] => none
  | .single cls :: items, char :: chars => if cls char then matchItems items chars else none
  | .run cls :: items, chars =>
      (runLengths cls chars).findSome? fun length =>
        (matchItems items (chars.drop length)).map (chars.take length :: ·)

/-- `string.match`: the captures at the first position that matches. -/
def stringMatch (items : List PatternItem) : List Char → Option (List (List Char))
  | [] => matchItems items []
  | char :: chars =>
      match matchItems items (char :: chars) with
      | some captures => some captures
      | none => stringMatch items chars

theorem stringMatch_of_matchItems {items : List PatternItem} {chars : List Char}
    {captures : List (List Char)} (hmatch : matchItems items chars = some captures) :
    stringMatch items chars = some captures := by
  cases chars with
  | nil => exact hmatch
  | cons char chars => rw [stringMatch, hmatch]

/-- A run that ends where the class ends is captured as a whole. -/
theorem matchItems_run {cls : Char → Bool} {items : List PatternItem} {run rest : List Char}
    {captures : List (List Char)} (hne : run ≠ []) (hrun : ∀ char ∈ run, cls char)
    (hrest : ∀ char ∈ rest.head?, ¬ cls char) (hmatch : matchItems items rest = some captures) :
    matchItems (.run cls :: items) (run ++ rest) = some (run :: captures) := by
  have htake : (run ++ rest).takeWhile cls = run := by
    rw [List.takeWhile_append_of_pos hrun]
    cases rest with
    | nil => simp
    | cons char rest => simp [hrest char rfl]
  obtain ⟨length, hlength⟩ : ∃ length, run.length = length + 1 :=
    Nat.exists_eq_succ_of_ne_zero fun hzero => hne (List.length_eq_zero_iff.mp hzero)
  have hlengths : (runLengths cls (run ++ rest)).head? = some run.length := by
    rw [runLengths, htake, hlength, List.range_succ]
    simp
  obtain ⟨shorter, hshorter⟩ := List.head?_eq_some_iff.mp hlengths
  rw [matchItems, hshorter, List.findSome?_cons]
  simp [hmatch]

/-- A pattern like `(%d+)%.(%d+)`: runs with separators in between. -/
def runsPattern (cls separator : Char → Bool) : Nat → List PatternItem
  | 0 => []
  | 1 => [.run cls]
  | count + 2 => .run cls :: .single separator :: runsPattern cls separator (count + 1)

/-- Runs are found again when they are written with a separator. -/
theorem matchItems_intercalate {cls separator : Char → Bool} {char : Char} (hchar : separator char)
    (hcls : ¬ cls char) {runs : List (List Char)}
    (hruns : ∀ run ∈ runs, run ≠ [] ∧ ∀ digit ∈ run, cls digit) :
    matchItems (runsPattern cls separator runs.length) ([char].intercalate runs) = some runs := by
  induction runs with
  | nil => rfl
  | cons run runs ih =>
      obtain ⟨hne, hrun⟩ := hruns run List.mem_cons_self
      have hrest := ih fun other hother => hruns other (List.mem_cons_of_mem _ hother)
      cases runs with
      | nil =>
          have hmatch : matchItems [.run cls] (run ++ []) = some [run] :=
            matchItems_run hne hrun nofun rfl
          simpa [runsPattern] using hmatch
      | cons second runs =>
          rw [List.intercalate_cons_cons, List.append_assoc, List.singleton_append]
          apply matchItems_run hne hrun
          · simpa using hcls
          · rw [matchItems, if_pos hchar]
            exact hrest

/-! ## What is matched -/

section Runs

variable {cls separator : Char → Bool}

/-- A string begins with runs, with a separator between any two of them, and the last run does
not go on. -/
inductive StartsWithRuns (cls separator : Char → Bool) : List (List Char) → List Char → Prop
  | last {run rest : List Char} (hne : run ≠ []) (hrun : ∀ char ∈ run, cls char)
      (hrest : ∀ char ∈ rest.head?, ¬ cls char) :
      StartsWithRuns cls separator [run] (run ++ rest)
  | more {run chars : List Char} {char : Char} {runs : List (List Char)} (hne : run ≠ [])
      (hrun : ∀ char ∈ run, cls char) (hchar : separator char)
      (htail : StartsWithRuns cls separator runs chars) :
      StartsWithRuns cls separator (run :: runs) (run ++ char :: chars)

/-- The runs are somewhere in the string, and there are not as many runs further left. -/
inductive FirstRuns (cls separator : Char → Bool) : List (List Char) → List Char → Prop
  | here {runs : List (List Char)} {chars : List Char}
      (hruns : StartsWithRuns cls separator runs chars) : FirstRuns cls separator runs chars
  | later {runs : List (List Char)} {char : Char} {chars : List Char}
      (hnone : ∀ others, others.length = runs.length →
        ¬ StartsWithRuns cls separator others (char :: chars))
      (hruns : FirstRuns cls separator runs chars) : FirstRuns cls separator runs (char :: chars)

theorem StartsWithRuns.ne_nil {runs : List (List Char)} {chars : List Char}
    (hruns : StartsWithRuns cls separator runs chars) : runs ≠ [] := by
  cases hruns <;> exact List.cons_ne_nil _ _

theorem StartsWithRuns.run {runs : List (List Char)} {chars : List Char}
    (hruns : StartsWithRuns cls separator runs chars) :
    ∀ run ∈ runs, run ≠ [] ∧ ∀ char ∈ run, cls char := by
  induction hruns with
  | last hne hrun _ => simpa using ⟨hne, hrun⟩
  | more hne hrun _ _ ih =>
      intro run hmem
      rcases List.mem_cons.mp hmem with rfl | hmem
      · exact ⟨hne, hrun⟩
      · exact ih run hmem

theorem FirstRuns.run {runs : List (List Char)} {chars : List Char}
    (hruns : FirstRuns cls separator runs chars) :
    ∀ run ∈ runs, run ≠ [] ∧ ∀ char ∈ run, cls char := by
  induction hruns with
  | here hruns => exact hruns.run
  | later _ _ ih => exact ih

theorem mem_runLengths {chars : List Char} {length : Nat} :
    length ∈ runLengths cls chars ↔ 0 < length ∧ length ≤ (chars.takeWhile cls).length := by
  rw [runLengths, List.mem_reverse, List.mem_map]
  constructor
  · rintro ⟨shorter, hmem, rfl⟩
    exact ⟨Nat.succ_pos shorter, List.mem_range.mp hmem⟩
  · rintro ⟨hpos, hle⟩
    exact ⟨length - 1, List.mem_range.mpr (by omega), by omega⟩

theorem run_of_mem_runLengths {chars : List Char} {length : Nat}
    (hlength : length ∈ runLengths cls chars) :
    chars.take length ≠ [] ∧ ∀ char ∈ chars.take length, cls char := by
  obtain ⟨hpos, hle⟩ := mem_runLengths.mp hlength
  have htake : chars.take length = (chars.takeWhile cls).take length := by
    conv_lhs => rw [← List.takeWhile_append_dropWhile (p := cls) (l := chars)]
    exact List.take_append_of_le_length hle
  rw [htake]
  constructor
  · rw [ne_eq, List.take_eq_nil_iff, not_or]
    exact ⟨hpos.ne', List.ne_nil_of_length_pos (hpos.trans_le hle)⟩
  · intro char hchar
    exact List.all_eq_true.mp List.all_takeWhile char (List.mem_of_mem_take hchar)

/-- What is matched at the beginning is there. -/
theorem startsWithRuns_of_matchItems {count : Nat} {chars : List Char}
    {captures : List (List Char)}
    (hmatch : matchItems (runsPattern cls separator (count + 1)) chars = some captures) :
    captures.length = count + 1 ∧ StartsWithRuns cls separator captures chars := by
  induction count generalizing chars captures with
  | zero =>
      -- the longest run is tried first
      have hsplit : chars.takeWhile cls ++ chars.dropWhile cls = chars :=
        List.takeWhile_append_dropWhile
      have hrun : ∀ char ∈ chars.takeWhile cls, cls char :=
        List.all_eq_true.mp List.all_takeWhile
      have hne : chars.takeWhile cls ≠ [] := by
        intro hnil
        simp [runsPattern, matchItems, runLengths, hnil] at hmatch
      have hrest : ∀ char ∈ (chars.dropWhile cls).head?, ¬ cls char := by
        intro char hchar
        have hhead := List.head?_dropWhile_not cls chars
        rw [Option.mem_def.mp hchar] at hhead
        simpa using hhead
      have hlongest : matchItems [.run cls] (chars.takeWhile cls ++ chars.dropWhile cls) =
          some [chars.takeWhile cls] := matchItems_run hne hrun hrest rfl
      have hlast : StartsWithRuns cls separator [chars.takeWhile cls]
          (chars.takeWhile cls ++ chars.dropWhile cls) := .last hne hrun hrest
      rw [hsplit] at hlongest hlast
      obtain rfl := Option.some.inj (hlongest.symm.trans hmatch)
      exact ⟨rfl, hlast⟩
  | succ count ih =>
      rw [runsPattern, matchItems] at hmatch
      obtain ⟨length, hlength, hrest⟩ := List.exists_of_findSome?_eq_some hmatch
      obtain ⟨tail, htail, rfl⟩ := Option.map_eq_some_iff.mp hrest
      obtain ⟨hne, hrun⟩ := run_of_mem_runLengths hlength
      cases hdrop : chars.drop length with
      | nil =>
          rw [hdrop, matchItems] at htail
          cases htail
      | cons char rest =>
          rw [hdrop, matchItems] at htail
          split at htail
          next hchar =>
            obtain ⟨hcount, hruns⟩ := ih htail
            have hmore := StartsWithRuns.more hne hrun hchar hruns
            rw [← hdrop, List.take_append_drop] at hmore
            exact ⟨by rw [List.length_cons, hcount], hmore⟩
          next => cases htail

/-- What is there is matched at the beginning, if no separator can be part of a run. -/
theorem StartsWithRuns.matchItems (hdisjoint : ∀ char, separator char → ¬ cls char)
    {runs : List (List Char)} {chars : List Char}
    (hruns : StartsWithRuns cls separator runs chars) :
    Foundation.matchItems (runsPattern cls separator runs.length) chars = some runs := by
  induction hruns with
  | last hne hrun hrest => exact matchItems_run hne hrun hrest rfl
  | @more run chars char runs hne hrun hchar htail ih =>
      obtain ⟨second, rest, rfl⟩ := List.exists_cons_of_ne_nil htail.ne_nil
      apply matchItems_run hne hrun
      · simpa using hdisjoint char hchar
      · rw [Foundation.matchItems, if_pos hchar]
        exact ih

/-- The search finds the first runs. -/
theorem stringMatch_eq_some_iff (hdisjoint : ∀ char, separator char → ¬ cls char) {count : Nat}
    {chars : List Char} {runs : List (List Char)} :
    stringMatch (runsPattern cls separator (count + 1)) chars = some runs ↔
      runs.length = count + 1 ∧ FirstRuns cls separator runs chars := by
  have hhere {chars : List Char} (others : List (List Char)) (hlength : others.length = count + 1) :
      matchItems (runsPattern cls separator (count + 1)) chars = some others ↔
        StartsWithRuns cls separator others chars :=
    ⟨fun hmatch => (startsWithRuns_of_matchItems hmatch).2,
      fun hruns => hlength ▸ hruns.matchItems hdisjoint⟩
  induction chars with
  | nil =>
      rw [stringMatch]
      constructor
      · intro hmatch
        obtain ⟨hlength, hruns⟩ := startsWithRuns_of_matchItems hmatch
        exact ⟨hlength, .here hruns⟩
      · rintro ⟨hlength, ⟨hruns⟩⟩
        exact (hhere runs hlength).mpr hruns
  | cons char chars ih =>
      rw [stringMatch]
      split
      next captures hmatch =>
        obtain ⟨hlength, hruns⟩ := startsWithRuns_of_matchItems hmatch
        constructor
        · intro hsame
          obtain rfl := Option.some.inj hsame
          exact ⟨hlength, .here hruns⟩
        · rintro ⟨hlength', hfirst⟩
          cases hfirst with
          | here hruns' => exact hmatch.symm.trans ((hhere runs hlength').mpr hruns')
          | later hnone _ => exact absurd hruns (hnone captures (hlength.trans hlength'.symm))
      next hmatch =>
        -- without a match here, the first one is further on
        refine ih.trans (and_congr_right fun hlength =>
          ⟨fun hfirst => .later ?_ hfirst, fun hfirst => ?_⟩)
        · intro others hothers hruns
          rw [(hhere others (hothers.trans hlength)).mpr hruns] at hmatch
          cases hmatch
        · cases hfirst with
          | here hruns =>
              rw [(hhere runs hlength).mpr hruns] at hmatch
              cases hmatch
          | later _ hrest => exact hrest

end Runs

/-- The value of a digit. -/
def digitValue (char : Char) : Nat :=
  if char.isDigit then char.toNat - '0'.toNat
  else if 'a' ≤ char ∧ char ≤ 'f' then char.toNat - 'a'.toNat + 10
  else char.toNat - 'A'.toNat + 10

/-- `%x`. -/
def isHexDigit (char : Char) : Bool :=
  char.isDigit || decide ('a' ≤ char ∧ char ≤ 'f') || decide ('A' ≤ char ∧ char ≤ 'F')

/-- `tonumber` of a run of digits. -/
def digitsValue (base : Nat) (digits : List Char) : Nat :=
  digits.foldl (fun value char => value * base + digitValue char) 0

theorem digitsValue_append (base : Nat) (first second : List Char) :
    digitsValue base (first ++ second) =
      digitsValue base first * base ^ second.length + digitsValue base second := by
  have hfold (value : Nat) : ∀ digits : List Char,
      digits.foldl (fun value char => value * base + digitValue char) value =
        value * base ^ digits.length + digitsValue base digits := by
    intro digits
    induction digits generalizing value with
    | nil => simp [digitsValue]
    | cons char digits ih =>
        have hcons : digitsValue base (char :: digits) =
            (0 * base + digitValue char) * base ^ digits.length + digitsValue base digits :=
          ih _
        rw [List.foldl_cons, ih, hcons, List.length_cons, Nat.pow_succ]
        ring
  rw [digitsValue, List.foldl_append, hfold]
  rfl

/-- `%02x`. -/
def hexByte (byte : UInt8) : List Char :=
  [Nat.digitChar (byte.toNat / 16), Nat.digitChar (byte.toNat % 16)]

/-- `%02X`. -/
def upperHexByte (byte : UInt8) : List Char := (hexByte byte).map Char.toUpper

/-- `%d`. -/
def decimalByte (byte : UInt8) : List Char := Nat.toDigits 10 byte.toNat

/-- What is written for a byte consists of digits and is read as the byte. -/
structure Writes (base : Nat) (cls : Char → Bool) (digits : List Char) (byte : UInt8) : Prop where
  ne_nil : digits ≠ []
  cls : ∀ char ∈ digits, cls char
  value : digitsValue base digits = byte.toNat

/-- There are few enough bytes to try them all. -/
theorem writes_of_forall {base : Nat} {cls : Char → Bool} {write : UInt8 → List Char}
    (hall : ∀ n : Fin 256, write (UInt8.ofNat n) ≠ [] ∧ (write (UInt8.ofNat n)).all cls ∧
      digitsValue base (write (UInt8.ofNat n)) = n) (byte : UInt8) :
    Writes base cls (write byte) byte := by
  obtain ⟨hne, hcls, hvalue⟩ := hall ⟨byte.toNat, byte.toNat_lt⟩
  rw [UInt8.ofNat_toNat] at hne hcls hvalue
  exact ⟨hne, List.all_eq_true.mp hcls, hvalue⟩

theorem hexByte_writes (byte : UInt8) : Writes 16 isHexDigit (hexByte byte) byte := by
  apply writes_of_forall
  decide +kernel

theorem upperHexByte_writes (byte : UInt8) : Writes 16 isHexDigit (upperHexByte byte) byte := by
  apply writes_of_forall
  decide +kernel

theorem decimalByte_writes (byte : UInt8) : Writes 10 Char.isDigit (decimalByte byte) byte := by
  apply writes_of_forall
  decide +kernel

end Foundation
