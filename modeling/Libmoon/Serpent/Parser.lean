import Libmoon.Serpent.Syntax

/-! # Reading dumps

The parser for the part of Lua that dumps are written in. Each reader yields what it has
read and the rest of the text, and each is the inverse of its writer. Tables are nested up
to some level only.
-/

namespace Libmoon.Serpent

open Foundation.HexFloat Foundation.LuaQuote InterTask

/-! ## Readers -/

def skip (expected text : LuaString) : Option LuaString :=
  if expected.isPrefixOf text then some (text.drop expected.length) else none

/-- What follows a long comment, from inside it. -/
def afterComment : LuaString → Option LuaString
  | 93 :: 93 :: rest => some rest
  | _ :: rest => afterComment rest
  | [] => none

def skipComment (text : LuaString) : Option LuaString :=
  match skip (ascii " --[[") text with
  | some comment => afterComment comment
  | none => some text

/-- A numeral, or the quotient of one and zero. -/
def parseNumber (negative : Bool) (text : LuaString) : Option (Literal × LuaString) :=
  match readNumeral text with
  | some ((mantissa, _), 47 :: rest) =>
      match readNumeral rest with
      | some ((0, _), rest) =>
          (skipComment rest).map fun rest =>
            (.number (if mantissa = 0 then .nan else .infinite negative), rest)
      | _ => none
  | some ((mantissa, exponent), rest) =>
      (skipComment rest).map fun rest =>
        (.number (.finite (Binary.of negative mantissa exponent)), rest)
  | none => none

def readName (text : LuaString) : LuaString × LuaString :=
  (text.takeWhile isNameByte, text.dropWhile isNameByte)

def readCType (name : LuaString) : Option CType :=
  if hname : name.all (fun byte => isNameByte byte || byte = 32 || byte = 42) = true ∧
      name.getLast? = some 42 ∧ isAnonymous name = false then
    some ⟨name, hname.1, hname.2.1, hname.2.2⟩
  else none

/-- A call that makes a pointer of an address. -/
def parseCast (text : LuaString) : Option (Literal × LuaString) := do
  let rest ← skip castHead text
  let ctype ← readCType (rest.takeWhile (· ≠ 39))
  let rest ← skip castMiddle (rest.dropWhile (· ≠ 39))
  let (address, rest) := readDigits decimalValue 10 0 rest
  let rest ← skip castTail rest
  return (.pointer ctype address, rest)

def parseLiteral (text : LuaString) : Option (Literal × LuaString) :=
  match text with
  | [] => none
  | byte :: rest =>
      if byte = 34 then (readFrom .plain rest).map (Prod.map .string id)
      else if byte = 40 then parseCast (byte :: rest)
      else if byte = 45 then parseNumber true rest
      else if isDigit byte then parseNumber false (byte :: rest)
      else
        match readName (byte :: rest) with
        | (name, rest) =>
            if name = ascii "nil" then some (.nil, rest)
            else if name = ascii "true" then some (.boolean true, rest)
            else if name = ascii "false" then some (.boolean false, rest)
            else none

/-- A key in brackets, from behind the opening one. -/
def parseBracketed (text : LuaString) : Option (Key × LuaString) := do
  let (literal, rest) ← parseLiteral text
  let key ← literal.key
  let rest ← skip [93] rest
  return (key, rest)

/-- The key of a field with the sign behind it, if there is one. -/
def parseTag (text : LuaString) : Option (Option Key × LuaString) :=
  match text with
  | 91 :: rest => do
      let (key, rest) ← parseBracketed rest
      let rest ← skip [61] rest
      return (some key, rest)
  | byte :: rest =>
      if isLetter byte || byte = 95 then
        match readName (byte :: rest) with
        | (name, 61 :: after) =>
            if isPlain name then some (some ⟨.string name, rfl⟩, after) else none
        | _ => some (none, byte :: rest)
      else some (none, byte :: rest)
  | [] => some (none, [])

mutual

/-- An expression with tables that are nested in so many levels. -/
def parseExpr : ℕ → ℕ → LuaString → Option (Expr × LuaString)
  | 0, _, _ => none
  | fuel + 1, levels, text =>
      match text with
      | 123 :: 125 :: rest => if levels = 0 then none else some (.table .nil, rest)
      | 123 :: rest =>
          if levels = 0 then none
          else (parseFields fuel (levels - 1) rest).map (Prod.map .table id)
      | text => (parseLiteral text).map (Prod.map .literal id)

/-- One field and those behind it, up to the closing brace. -/
def parseFields : ℕ → ℕ → LuaString → Option (Fields × LuaString)
  | 0, _, _ => none
  | fuel + 1, levels, text => do
      let (key, rest) ← parseTag text
      let (value, rest) ← parseExpr fuel levels rest
      let (fields, rest) ← parseRest fuel levels rest
      return (.cons key value fields, rest)

def parseRest : ℕ → ℕ → LuaString → Option (Fields × LuaString)
  | 0, _, _ => none
  | fuel + 1, levels, text =>
      match text with
      | 125 :: rest => some (.nil, rest)
      | 44 :: rest => parseFields fuel levels rest
      | _ => none

end

def parseSelectors : ℕ → LuaString → Option (Path × LuaString)
  | 0, _ => none
  | fuel + 1, text =>
      match text with
      | 46 :: rest =>
          match readName rest with
          | (name, rest) =>
              if isPlain name then
                (parseSelectors fuel rest).map (Prod.map (⟨.string name, rfl⟩ :: ·) id)
              else none
      | 91 :: rest => do
          let (key, rest) ← parseBracketed rest
          let (path, rest) ← parseSelectors fuel rest
          return (key :: path, rest)
      | text => some ([], text)

def parsePath (text : LuaString) : Option (Path × LuaString) := do
  let rest ← skip [95] text
  parseSelectors text.length rest

def parseAssignments : ℕ → LuaString → Option (List (Path × Path))
  | 0, _ => none
  | fuel + 1, text =>
      if text = ascii "return _;end" then some []
      else do
        let (place, rest) ← parsePath text
        let rest ← skip [61] rest
        let (value, rest) ← parsePath rest
        let rest ← skip [59] rest
        let assignments ← parseAssignments fuel rest
        return (place, value) :: assignments

def parseChunk (levels : ℕ) (text : LuaString) : Option Chunk := do
  let rest ← skip (ascii "do local _=") text
  let (value, rest) ← parseExpr rest.length levels rest
  let rest ← skip [59] rest
  match skip (ascii "local __=\x7b\x7d;") rest with
  | some rest => do
      let assignments ← parseAssignments rest.length rest
      return ⟨value, assignments⟩
  | none => if rest = ascii "return _;end" then some ⟨value, []⟩ else none

/-! ## Literals -/

/-- The text goes on with something that ends a literal or a path. -/
def Stops (text : LuaString) : Prop :=
  ∃ byte rest, text = byte :: rest ∧ (byte = 44 ∨ byte = 59 ∨ byte = 61 ∨ byte = 93 ∨ byte = 125)

theorem Stops.cons {byte : UInt8}
    (hbyte : byte = 44 ∨ byte = 59 ∨ byte = 61 ∨ byte = 93 ∨ byte = 125) (rest : LuaString) :
    Stops (byte :: rest) := ⟨byte, rest, rfl, hbyte⟩

theorem skip_append (expected rest : LuaString) : skip expected (expected ++ rest) = some rest := by
  rw [skip, if_pos (by simp), List.drop_left]

theorem Stops.skipComment {rest : LuaString} (hstop : Stops rest) :
    skipComment rest = some rest := by
  obtain ⟨byte, rest, rfl, hbyte⟩ := hstop
  rcases hbyte with rfl | rfl | rfl | rfl | rfl <;> rfl

theorem Stops.noDigit {rest : LuaString} (hstop : Stops rest) : NoDigit decimalValue rest := by
  obtain ⟨byte, rest, rfl, hbyte⟩ := hstop
  intro other hother
  cases hother
  rcases hbyte with rfl | rfl | rfl | rfl | rfl <;> rfl

theorem Stops.ne_cons {rest : LuaString} (hstop : Stops rest) {byte : UInt8}
    (hbyte : byte ∉ [44, 59, 61, 93, 125]) (tail : LuaString) : rest ≠ byte :: tail := by
  obtain ⟨first, rest, rfl, hfirst⟩ := hstop
  rintro ⟨⟩
  simp at hbyte
  tauto

theorem parseNumber_hexFloat (binary : Binary) {rest : LuaString} (hstop : Stops rest) :
    parseNumber binary.negative (hexFloat binary.mantissa binary.exponent ++ rest) =
      some (.number (.finite binary), rest) := by
  obtain ⟨mantissa, exponent, hread, hbinary⟩ := readNumeral_hexFloat binary hstop.noDigit
  rw [parseNumber, hread]
  split
  next tail heq =>
    cases heq
    exact absurd rfl (hstop.ne_cons (by decide) _)
  next heq =>
    cases heq
    rw [hstop.skipComment, Option.map_some, hbinary]
  next heq => cases heq

/-- The text does not go on with a byte of a name. -/
def EndsName (text : LuaString) : Prop := ∀ byte ∈ text.head?, isNameByte byte = false

theorem Stops.endsName {rest : LuaString} (hstop : Stops rest) : EndsName rest := by
  obtain ⟨byte, rest, rfl, hbyte⟩ := hstop
  intro other hother
  cases hother
  rcases hbyte with rfl | rfl | rfl | rfl | rfl <;> rfl

theorem readName_append {name rest : LuaString} (hname : name.all isNameByte)
    (hends : EndsName rest) : readName (name ++ rest) = (name, rest) := by
  rw [List.all_eq_true] at hname
  have hstop : rest.takeWhile isNameByte = [] := by
    cases rest with
    | nil => rfl
    | cons byte rest => exact List.takeWhile_cons_of_neg (by simp [hends byte rfl])
  rw [readName, List.takeWhile_append_of_pos hname,
    List.dropWhile_append_of_pos hname, hstop, List.append_nil]
  cases rest with
  | nil => rfl
  | cons byte rest => rw [List.dropWhile_cons_of_neg (by simp [hends byte rfl])]

theorem hexFloat_eq (mantissa : ℕ) (exponent : ℤ) :
    ∃ tail, hexFloat mantissa exponent = 48 :: 120 :: tail := by
  unfold hexFloat
  split
  · exact ⟨_, rfl⟩
  · exact ⟨_, rfl⟩

theorem exists_cast (ctype : CType) (address : ℕ) :
    ∃ tail, safestr (.pointer ctype address) = 40 :: tail := ⟨_, rfl⟩

theorem readCType_name (ctype : CType) : readCType ctype.name = some ctype :=
  dif_pos ⟨ctype.valid, ctype.pointer, ctype.named⟩

theorem parseCast_text (ctype : CType) (address : ℕ) (rest : LuaString) :
    parseCast (safestr (.pointer ctype address) ++ rest) = some (.pointer ctype address, rest) := by
  have hname : ∀ byte ∈ ctype.name, byte ≠ 39 := by
    rintro byte hmem rfl
    exact absurd (List.all_eq_true.mp ctype.valid 39 hmem) (by decide)
  obtain ⟨middle, hmiddle⟩ : ∃ middle, castMiddle = 39 :: middle := ⟨_, rfl⟩
  have hstop : NoDigit decimalValue (castTail ++ rest) := by
    rintro byte hbyte
    cases hbyte
    rfl
  have htake : ∀ after, (ctype.name ++ (castMiddle ++ after)).takeWhile (· ≠ 39) = ctype.name := by
    intro after
    rw [List.takeWhile_append_of_pos (by simpa using hname), hmiddle]
    simp
  have hdrop : ∀ after, (ctype.name ++ (castMiddle ++ after)).dropWhile (· ≠ 39) =
      castMiddle ++ after := by
    intro after
    rw [List.dropWhile_append_of_pos (by simpa using hname), hmiddle]
    simp
  have htext : safestr (.pointer ctype address) ++ rest =
      castHead ++ (ctype.name ++ (castMiddle ++ (decimal address ++ (castTail ++ rest)))) := by
    simp [safestr]
  simp only [htext, parseCast, skip_append, Option.bind_eq_bind, Option.bind_some, htake, hdrop,
    readCType_name, readDigits_decimal address hstop, Option.pure_def]

/-- A literal is read as what it was written for. -/
theorem parseLiteral_safestr (literal : Literal) {rest : LuaString} (hstop : Stops rest) :
    parseLiteral (safestr literal ++ rest) = some (literal, rest) := by
  cases literal with
  | nil =>
      have hname : readName (ascii "nil" ++ rest) = (ascii "nil", rest) :=
        readName_append (by decide) hstop.endsName
      have htext : safestr .nil ++ rest = 110 :: 105 :: 108 :: rest := rfl
      rw [htext, parseLiteral, if_neg (by decide), if_neg (by decide), if_neg (by decide),
        if_neg (by decide)]
      simp only [show (110 :: 105 :: 108 :: rest) = ascii "nil" ++ rest from rfl, hname, if_true]
  | boolean value =>
      cases value with
      | true =>
          have hname : readName (ascii "true" ++ rest) = (ascii "true", rest) :=
            readName_append (by decide) hstop.endsName
          have htext : safestr (.boolean true) ++ rest = 116 :: 114 :: 117 :: 101 :: rest := rfl
          have hne : ascii "true" ≠ ascii "nil" := by decide
          rw [htext, parseLiteral, if_neg (by decide), if_neg (by decide), if_neg (by decide),
        if_neg (by decide)]
          simp only [show (116 :: 114 :: 117 :: 101 :: rest) = ascii "true" ++ rest from rfl, hname,
            if_neg hne, if_true]
      | false =>
          have hname : readName (ascii "false" ++ rest) = (ascii "false", rest) :=
            readName_append (by decide) hstop.endsName
          have htext : safestr (.boolean false) ++ rest =
            102 :: 97 :: 108 :: 115 :: 101 :: rest := rfl
          have hne : ascii "false" ≠ ascii "nil" := by decide
          have hne' : ascii "false" ≠ ascii "true" := by decide
          rw [htext, parseLiteral, if_neg (by decide), if_neg (by decide), if_neg (by decide),
        if_neg (by decide)]
          simp only [show (102 :: 97 :: 108 :: 115 :: 101 :: rest) = ascii "false" ++ rest from rfl,
            hname, if_neg hne, if_neg hne', if_true]
  | number value =>
      cases value with
      | nan =>
          obtain ⟨byte, rest, rfl, hbyte⟩ := hstop
          rcases hbyte with rfl | rfl | rfl | rfl | rfl <;> rfl
      | infinite negative => cases negative <;> rfl
      | finite binary =>
          have hread := parseNumber_hexFloat binary hstop
          obtain ⟨tail, htail⟩ := hexFloat_eq binary.mantissa binary.exponent
          cases hnegative : binary.negative with
          | true =>
              rw [hnegative] at hread
              have htext : safestr (.number (.finite binary)) ++ rest =
                  45 :: (hexFloat binary.mantissa binary.exponent ++ rest) := by
                simp [safestr, numberText, hnegative]
              rw [htext, parseLiteral, if_neg (by decide), if_neg (by decide), if_pos rfl, hread]
          | false =>
              rw [hnegative, htail] at hread
              have htext : safestr (.number (.finite binary)) ++ rest =
                  48 :: (120 :: tail ++ rest) := by
                simp [safestr, numberText, hnegative, htail]
              rw [htext, parseLiteral, if_neg (by decide), if_neg (by decide), if_neg (by decide),
                if_pos (by decide)]
              exact hread
  | string value =>
      have htext : safestr (.string value) ++ rest = 34 :: (safe value ++ 34 :: rest) := by
        simp [safestr, quote_eq]
      rw [htext, parseLiteral, if_pos rfl, readFrom_safe]
      rfl
  | pointer ctype address =>
      have hcast := parseCast_text ctype address rest
      obtain ⟨tail, htail⟩ := exists_cast ctype address
      rw [htail, List.cons_append] at hcast ⊢
      rw [parseLiteral, if_neg (by decide), if_pos rfl, hcast]

/-! ## Keys -/

theorem parseBracketed_safestr (key : Key) (rest : LuaString) :
    parseBracketed (safestr key.literal ++ 93 :: rest) = some (key, rest) := by
  have hskip : skip [93] (93 :: rest) = some rest := skip_append [93] rest
  have hstop : Stops (93 :: rest) := Stops.cons (by simp) rest
  simp only [parseBracketed, parseLiteral_safestr key.literal hstop, Option.bind_eq_bind,
    Option.bind_some, key.key_literal, hskip, Option.pure_def]

theorem parseTag_some (key : Key) (rest : LuaString) :
    parseTag (tag (some key) ++ rest) = some (some key, rest) := by
  have htag : tag (some key) ++ rest = key.text ++ 61 :: rest := by simp [tag]
  rw [htag]
  cases hplain : key.plain? with
  | none =>
      have hskip : skip [61] (61 :: rest) = some rest := skip_append [61] rest
      have hbracketed := parseBracketed_safestr key (61 :: rest)
      rw [Key.text_of_not_plain hplain]
      simp only [List.cons_append, List.append_assoc, List.nil_append, parseTag, hbracketed,
        Option.bind_eq_bind, Option.bind_some, hskip, Option.pure_def]
  | some name =>
      rw [Key.text_of_plain hplain]
      obtain ⟨hname, rfl⟩ := Key.of_plain hplain
      obtain ⟨hall, byte, tail, rfl, hfirst⟩ := isPlain_name hname
      have hread : readName (byte :: tail ++ 61 :: rest) = (byte :: tail, 61 :: rest) :=
        readName_append hall (Stops.cons (by simp) rest).endsName
      have hbracket : byte ≠ 91 := by
        rintro rfl
        exact absurd hfirst (by decide)
      simp only [List.cons_append] at hread ⊢
      unfold parseTag
      split
      next heq =>
        cases heq
        exact absurd rfl hbracket
      next heq =>
        cases heq
        rw [if_pos hfirst, hread]
        simp only [hname, if_true]
      next heq => cases heq

theorem exists_safestr (literal : Literal) :
    ∃ byte rest, safestr literal = byte :: rest ∧ byte ≠ 123 ∧ byte ≠ 125 := by
  cases literal with
  | nil => exact ⟨110, _, rfl, by decide, by decide⟩
  | boolean value =>
      cases value with
      | true => exact ⟨116, _, rfl, by decide, by decide⟩
      | false => exact ⟨102, _, rfl, by decide, by decide⟩
  | number value =>
      cases value with
      | nan => exact ⟨48, _, rfl, by decide, by decide⟩
      | infinite negative =>
          cases negative with
          | true => exact ⟨45, _, rfl, by decide, by decide⟩
          | false => exact ⟨49, _, rfl, by decide, by decide⟩
      | finite binary =>
          obtain ⟨tail, htail⟩ := hexFloat_eq binary.mantissa binary.exponent
          cases hnegative : binary.negative with
          | true =>
              refine ⟨45, hexFloat binary.mantissa binary.exponent, ?_, by decide, by decide⟩
              simp [safestr, numberText, hnegative]
          | false =>
              refine ⟨48, 120 :: tail, ?_, by decide, by decide⟩
              simp [safestr, numberText, hnegative, htail]
  | string value => exact ⟨34, _, rfl, by decide, by decide⟩
  | pointer ctype address => exact ⟨40, _, rfl, by decide, by decide⟩

theorem Key.exists_text (key : Key) : ∃ byte rest, key.text = byte :: rest ∧ byte ≠ 125 := by
  cases hplain : key.plain? with
  | none => exact ⟨91, _, Key.text_of_not_plain hplain, by decide⟩
  | some name =>
      obtain ⟨-, byte, rest, hname, hfirst⟩ := isPlain_name (Key.of_plain hplain).1
      refine ⟨byte, rest, (Key.text_of_plain hplain).trans hname, ?_⟩
      rintro rfl
      exact absurd hfirst (by decide)

/-- What ends a field. -/
def EndsField (text : LuaString) : Prop :=
  ∃ byte rest, text = byte :: rest ∧ (byte = 44 ∨ byte = 125)

theorem EndsField.stops {rest : LuaString} (hends : EndsField rest) : Stops rest := by
  obtain ⟨byte, rest, rfl, hbyte⟩ := hends
  exact Stops.cons (by tauto) rest

theorem Fields.endsField_restText (fields : Fields) (rest : LuaString) :
    EndsField (fields.restText ++ rest) := by
  cases fields with
  | nil => exact ⟨125, rest, rfl, .inr rfl⟩
  | cons key value fields => exact ⟨44, _, rfl, .inl rfl⟩

theorem parseTag_of_first {byte : UInt8} (hfirst : (isLetter byte || byte = 95) = false)
    (hbracket : byte ≠ 91) (rest : LuaString) :
    parseTag (byte :: rest) = some (none, byte :: rest) := by
  unfold parseTag
  split
  next heq =>
    cases heq
    exact absurd rfl hbracket
  next heq =>
    cases heq
    rw [if_neg (by simp [hfirst])]
  next heq => cases heq

theorem parseTag_of_name {name : LuaString} (hname : name.all isNameByte) {byte : UInt8}
    {tail : LuaString} (hcons : name = byte :: tail) (hletter : isLetter byte = true)
    {rest : LuaString} (hends : EndsField rest) :
    parseTag (name ++ rest) = some (none, name ++ rest) := by
  have hread := readName_append hname hends.stops.endsName
  have hbracket : byte ≠ 91 := by
    rintro rfl
    exact absurd hletter (by decide)
  obtain ⟨first, after, rfl, hfirst⟩ := hends
  subst hcons
  simp only [List.cons_append] at hread ⊢
  unfold parseTag
  split
  next heq =>
    cases heq
    exact absurd rfl hbracket
  next heq =>
    cases heq
    rw [if_pos (by simp [hletter]), hread]
    rcases hfirst with rfl | rfl <;> rfl
  next heq => cases heq

/-- A field without a key is not taken for one with a key. -/
theorem parseTag_none (value : Expr) {rest : LuaString} (hends : EndsField rest) :
    parseTag (value.text ++ rest) = some (none, value.text ++ rest) := by
  cases value with
  | table fields => cases fields <;> exact parseTag_of_first rfl (by decide) _
  | literal literal =>
      cases literal with
      | nil => exact parseTag_of_name (by decide) rfl rfl hends
      | boolean value => cases value <;> exact parseTag_of_name (by decide) rfl rfl hends
      | number value =>
          cases value with
          | nan => exact parseTag_of_first rfl (by decide) _
          | infinite negative => cases negative <;> exact parseTag_of_first rfl (by decide) _
          | finite binary =>
              obtain ⟨tail, htail⟩ := hexFloat_eq binary.mantissa binary.exponent
              cases hnegative : binary.negative with
              | true =>
                  have htext : (Expr.literal (.number (.finite binary))).text =
                      45 :: hexFloat binary.mantissa binary.exponent := by
                    simp [Expr.text, safestr, numberText, hnegative]
                  rw [htext]
                  exact parseTag_of_first rfl (by decide) _
              | false =>
                  have htext : (Expr.literal (.number (.finite binary))).text =
                      48 :: 120 :: tail := by
                    simp [Expr.text, safestr, numberText, hnegative, htail]
                  rw [htext]
                  exact parseTag_of_first rfl (by decide) _
      | string value => exact parseTag_of_first rfl (by decide) _
      | pointer ctype address => exact parseTag_of_first rfl (by decide) _

/-! ## Expressions -/

theorem Expr.exists_text (value : Expr) :
    ∃ byte rest, value.text = byte :: rest ∧ byte ≠ 125 := by
  cases value with
  | literal literal =>
      obtain ⟨byte, rest, htext, -, hne⟩ := exists_safestr literal
      exact ⟨byte, rest, htext, hne⟩
  | table fields =>
      cases fields with
      | nil => exact ⟨123, _, rfl, by decide⟩
      | cons key value fields => exact ⟨123, _, rfl, by decide⟩

theorem exists_field (key : Option Key) (value : Expr) (rest : LuaString) :
    ∃ byte tail, tag key ++ value.text ++ rest = byte :: tail ∧ byte ≠ 125 := by
  cases key with
  | none =>
      obtain ⟨byte, tail, htext, hne⟩ := value.exists_text
      exact ⟨byte, tail ++ rest, by simp [tag, htext], hne⟩
  | some key =>
      obtain ⟨byte, tail, htext, hne⟩ := key.exists_text
      exact ⟨byte, tail ++ ([61] ++ value.text ++ rest), by simp [tag, htext], hne⟩

theorem Fields.length_restText_pos (fields : Fields) : 0 < fields.restText.length := by
  cases fields with
  | nil => exact Nat.one_pos
  | cons key value fields => exact Nat.succ_pos _

theorem parseFields_cons {fuel levels : ℕ} {key : Option Key} {value : Expr} {fields : Fields}
    {rest : LuaString}
    (hvalue : ∀ after, Stops after →
      parseExpr fuel levels (value.text ++ after) = some (value, after))
    (hfields : parseRest fuel levels (fields.restText ++ rest) = some (fields, rest)) :
    parseFields (fuel + 1) levels (tag key ++ value.text ++ fields.restText ++ rest) =
      some (.cons key value fields, rest) := by
  have hends := fields.endsField_restText rest
  have htag : parseTag (tag key ++ (value.text ++ (fields.restText ++ rest))) =
      some (key, value.text ++ (fields.restText ++ rest)) := by
    cases key with
    | none => exact parseTag_none value hends
    | some key => exact parseTag_some key _
  rw [List.append_assoc, List.append_assoc, parseFields]
  simp only [htag, Option.bind_eq_bind, Option.bind_some, hvalue _ hends.stops, hfields,
    Option.pure_def]

mutual

/-- An expression is read as what it was written for, with as much fuel as it is long and as
many levels as it is deep. -/
theorem parseExpr_text : ∀ (value : Expr) {fuel levels : ℕ} {rest : LuaString},
    value.text.length ≤ fuel → value.depth ≤ levels → Stops rest →
      parseExpr fuel levels (value.text ++ rest) = some (value, rest)
  | .literal literal, fuel, levels, rest, hfuel, _, hstop => by
      obtain ⟨byte, tail, htext, hopen, -⟩ := exists_safestr literal
      have hread := parseLiteral_safestr literal hstop
      obtain ⟨fuel, rfl⟩ : ∃ fuel', fuel = fuel' + 1 := by
        refine Nat.exists_eq_succ_of_ne_zero fun hzero => ?_
        simp [Expr.text, htext, hzero] at hfuel
      have hne : ∀ after, safestr literal ++ rest ≠ 123 :: after := by
        intro after heq
        rw [htext] at heq
        cases heq
        exact hopen rfl
      rw [Expr.text, parseExpr, hread, Option.map_some, Prod.map, id]
      · exact fun after => hne _
      · exact hne
  | .table .nil, fuel, levels, rest, hfuel, hlevels, hstop => by
      obtain ⟨fuel, rfl⟩ : ∃ fuel', fuel = fuel' + 1 :=
        Nat.exists_eq_succ_of_ne_zero fun hzero => by simp [Expr.text, hzero] at hfuel
      have hne : levels ≠ 0 := Nat.ne_zero_of_lt hlevels
      exact if_neg hne
  | .table (.cons key value fields), fuel, levels, rest, hfuel, hlevels, hstop => by
      have hpos := fields.length_restText_pos
      obtain ⟨first, tail', hfirst, -⟩ := value.exists_text
      have hvaluePos : 0 < value.text.length := by simp [hfirst]
      simp only [Expr.text, List.length_cons, List.length_append] at hfuel
      obtain ⟨fuel, rfl⟩ : ∃ fuel', fuel = fuel' + 1 + 1 := ⟨fuel - 2, by omega⟩
      rw [Expr.depth, Fields.depth] at hlevels
      have hread : parseFields (fuel + 1) (levels - 1)
          (tag key ++ value.text ++ fields.restText ++ rest) = some (.cons key value fields, rest) :=
        parseFields_cons (fun after hafter => parseExpr_text value (by omega) (by omega) hafter)
          (parseRest_text fields (by omega) (by omega))
      obtain ⟨byte, tail, htext, hclose⟩ := exists_field key value (fields.restText ++ rest)
      rw [← List.append_assoc] at htext
      rw [Expr.text, List.cons_append, parseExpr, if_neg (by omega), hread, Option.map_some,
        Prod.map, id]
      intro after heq
      rw [htext] at heq
      cases heq
      exact hclose rfl

theorem parseRest_text : ∀ (fields : Fields) {fuel levels : ℕ} {rest : LuaString},
    fields.restText.length ≤ fuel → fields.depth ≤ levels →
      parseRest fuel levels (fields.restText ++ rest) = some (fields, rest)
  | .nil, fuel, levels, rest, hfuel, _ => by
      obtain ⟨fuel, rfl⟩ : ∃ fuel', fuel = fuel' + 1 :=
        Nat.exists_eq_succ_of_ne_zero fun hzero => by simp [Fields.restText, hzero] at hfuel
      rfl
  | .cons key value fields, fuel, levels, rest, hfuel, hlevels => by
      have hpos := fields.length_restText_pos
      obtain ⟨first, tail', hfirst, -⟩ := value.exists_text
      have hvaluePos : 0 < value.text.length := by simp [hfirst]
      simp only [Fields.restText, List.length_cons, List.length_append] at hfuel
      obtain ⟨fuel, rfl⟩ : ∃ fuel', fuel = fuel' + 1 + 1 := ⟨fuel - 2, by omega⟩
      rw [Fields.depth] at hlevels
      exact parseFields_cons
        (fun after hafter => parseExpr_text value (by omega) (by omega) hafter)
        (parseRest_text fields (by omega) (by omega))

end

/-! ## Paths and assignments -/

theorem endsName_selectors (path : Path) {rest : LuaString} (hstop : Stops rest) :
    EndsName (path.flatMap selector ++ rest) := by
  cases path with
  | nil => exact hstop.endsName
  | cons key path =>
      unfold selector
      rw [List.flatMap_cons]
      cases hplain : key.plain? with
      | none =>
          intro byte hbyte
          rw [Key.text_of_not_plain hplain] at hbyte
          cases hbyte
          rfl
      | some name =>
          intro byte hbyte
          cases hbyte
          rfl

theorem parseSelectors_text (path : Path) {fuel : ℕ} {rest : LuaString}
    (hfuel : path.length < fuel) (hstop : Stops rest) :
    parseSelectors fuel (path.flatMap selector ++ rest) = some (path, rest) := by
  induction path generalizing fuel with
  | nil =>
      obtain ⟨fuel, rfl⟩ : ∃ fuel', fuel = fuel' + 1 := ⟨fuel - 1, by simp at hfuel; omega⟩
      obtain ⟨byte, rest, rfl, hbyte⟩ := hstop
      rcases hbyte with rfl | rfl | rfl | rfl | rfl <;> rfl
  | cons key path ih =>
      obtain ⟨fuel, rfl⟩ : ∃ fuel', fuel = fuel' + 1 := ⟨fuel - 1, by omega⟩
      have hrest := ih (Nat.lt_of_succ_lt_succ hfuel)
      rw [List.flatMap_cons, List.append_assoc]
      cases hplain : key.plain? with
      | none =>
          have hselector : selector key = 91 :: (safestr key.literal ++ [93]) := by
            rw [selector, hplain, ← Key.text_of_not_plain hplain]
          have hbracketed := parseBracketed_safestr key (path.flatMap selector ++ rest)
          rw [hselector]
          simp only [List.cons_append, List.append_assoc, List.nil_append, parseSelectors,
            hbracketed, Option.bind_eq_bind, Option.bind_some, hrest, Option.pure_def]
      | some name =>
          have hselector : selector key = 46 :: name := by rw [selector, hplain]
          obtain ⟨hname, rfl⟩ := Key.of_plain hplain
          have hread := readName_append (isPlain_name hname).1 (endsName_selectors path hstop)
          rw [hselector]
          simp only [List.cons_append, parseSelectors, hread, hname, if_true, hrest,
            Option.map_some, Prod.map, id]

/-- A text has at least as many bytes as parts, if none of these is empty. -/
theorem length_le_flatMap {α : Type} {write : α → LuaString}
    (hpos : ∀ part, 0 < (write part).length) (parts : List α) :
    parts.length ≤ (parts.flatMap write).length := by
  induction parts with
  | nil => exact Nat.le_refl _
  | cons part parts ih =>
      have hpart := hpos part
      rw [List.flatMap_cons, List.length_append, List.length_cons]
      omega

theorem length_selector_pos (key : Key) : 0 < (selector key).length := by
  cases hplain : key.plain? with
  | none => simp [selector, hplain, Key.text_of_not_plain hplain]
  | some name => simp [selector, hplain]

theorem parsePath_text (path : Path) {rest : LuaString} (hstop : Stops rest) :
    parsePath (pathText path ++ rest) = some (path, rest) := by
  have hlength := length_le_flatMap length_selector_pos path
  have hskip : skip [95] (pathText path ++ rest) = some (path.flatMap selector ++ rest) :=
    skip_append [95] _
  have hfuel : path.length < (pathText path ++ rest).length := by
    simp only [pathText, List.cons_append, List.length_cons, List.length_append]
    omega
  simp only [parsePath, hskip, Option.bind_eq_bind, Option.bind_some,
    parseSelectors_text path hfuel hstop]

theorem parseAssignments_text (assignments : List (Path × Path)) {fuel : ℕ}
    (hfuel : assignments.length < fuel) :
    parseAssignments fuel ((assignments.flatMap fun assignment =>
      assignmentText assignment ++ ascii ";") ++ ascii "return _;end") = some assignments := by
  induction assignments generalizing fuel with
  | nil =>
      obtain ⟨fuel, rfl⟩ : ∃ fuel', fuel = fuel' + 1 := ⟨fuel - 1, by simp at hfuel; omega⟩
      rfl
  | cons assignment assignments ih =>
      obtain ⟨fuel, rfl⟩ : ∃ fuel', fuel = fuel' + 1 := ⟨fuel - 1, by omega⟩
      obtain ⟨place, value⟩ := assignment
      have hrest := ih (Nat.lt_of_succ_lt_succ hfuel)
      generalize htext : (assignments.flatMap fun assignment =>
        assignmentText assignment ++ ascii ";") ++ ascii "return _;end" = text at hrest
      have hplace := parsePath_text place (Stops.cons (by simp) (pathText value ++ 59 :: text) :
        Stops (61 :: (pathText value ++ 59 :: text)))
      have hvalue := parsePath_text value (Stops.cons (by simp) text : Stops (59 :: text))
      have hequals : skip [61] (61 :: (pathText value ++ 59 :: text)) =
        some (pathText value ++ 59 :: text) := skip_append [61] _
      have hend : skip [59] (59 :: text) = some text := skip_append [59] _
      have hall : ((place, value) :: assignments).flatMap
            (fun assignment => assignmentText assignment ++ ascii ";") ++ ascii "return _;end" =
          pathText place ++ 61 :: (pathText value ++ 59 :: text) := by
        rw [← htext]
        simp [assignmentText, ascii]
      have hne : pathText place ++ 61 :: (pathText value ++ 59 :: text) ≠ ascii "return _;end" := by
        intro heq
        cases heq
      rw [hall, parseAssignments, if_neg hne]
      simp only [hplace, Option.bind_eq_bind, Option.bind_some, hequals, hvalue, hend, hrest,
        Option.pure_def]

/-! ## Chunks -/

/-- Reading is the inverse of writing. -/
theorem parseChunk_text (chunk : Chunk) {levels : ℕ} (hlevels : chunk.value.depth ≤ levels) :
    parseChunk levels chunk.text = some chunk := by
  obtain ⟨value, assignments⟩ := chunk
  generalize hrest : (if assignments = [] then []
    else ascii "local __=\x7b\x7d;" ++
      assignments.flatMap fun assignment => assignmentText assignment ++ ascii ";") ++
    ascii "return _;end" = rest
  have htext : (⟨value, assignments⟩ : Chunk).text =
      ascii "do local _=" ++ (value.text ++ 59 :: rest) := by
    rw [← hrest]
    simp [Chunk.text, ascii]
  have hvalue : parseExpr (value.text ++ 59 :: rest).length levels (value.text ++ 59 :: rest) =
      some (value, 59 :: rest) :=
    parseExpr_text value (by simp) hlevels (Stops.cons (by simp) rest)
  have hend : skip [59] (59 :: rest) = some rest := skip_append [59] _
  rw [htext, parseChunk]
  simp only [skip_append, Option.bind_eq_bind, Option.bind_some, hvalue, hend]
  cases assignments with
  | nil =>
      subst hrest
      rfl
  | cons assignment assignments =>
      rw [if_neg (List.cons_ne_nil _ _), List.append_assoc] at hrest
      have hfuel : (assignment :: assignments).length <
          (((assignment :: assignments).flatMap fun assignment =>
            assignmentText assignment ++ ascii ";") ++ ascii "return _;end").length := by
        have hlength := @length_le_flatMap _ (fun assignment : Path × Path =>
          assignmentText assignment ++ ascii ";") (fun assignment => by
            simp [assignmentText, pathText]) (assignment :: assignments)
        have hend : 0 < (ascii "return _;end").length := by decide
        rw [List.length_append]
        omega
      rw [← hrest, skip_append]
      simp only [parseAssignments_text _ hfuel, Option.bind_some, Option.pure_def]

end Libmoon.Serpent
