import Libmoon.Foundation.LuaQuote
import Libmoon.InterTask.Serialization

/-! # The Lua code of dumps

A dump is Lua code of a small part of the language: literals, table constructors, and
assignments between paths. What it says is separated from how it is written. The parser
reads Lua code of that part, which is more than what dumps look like.
-/

namespace Libmoon.Serpent

open Foundation.HexFloat Foundation.LuaQuote InterTask

def ascii (string : String) : LuaString := string.toList.map fun char => UInt8.ofNat char.toNat

def isLetter (byte : UInt8) : Bool := 65 ≤ byte && byte ≤ 90 || 97 ≤ byte && byte ≤ 122

/-- The bytes that a name may go on with. -/
def isNameByte (byte : UInt8) : Bool := isLetter byte || isDigit byte || byte = 95

/-! ## Literals -/

/-- `cType:match("struct %d+ ?%*?$")` -/
def isAnonymous (name : LuaString) : Bool :=
  let rest := name.reverse
  let rest := if rest.head? = some 42 then rest.tail else rest
  let rest := if rest.head? = some 32 then rest.tail else rest
  let number := rest.takeWhile isDigit
  !number.isEmpty && (ascii "struct ").reverse.isPrefixOf (rest.drop number.length)

/-- The type of a pointer, as `tostring` has it. -/
@[ext] structure CType where
  name : LuaString
  valid : name.all (fun byte => isNameByte byte || byte = 32 || byte = 42) = true
  pointer : name.getLast? = some 42
  named : isAnonymous name = false

instance : DecidableEq CType := fun ctype other =>
  decidable_of_iff (ctype.name = other.name) ⟨CType.ext, congrArg CType.name⟩

/-- A Lua number. -/
inductive Number where
  | nan
  | infinite (negative : Bool)
  | finite (binary : Binary)
deriving DecidableEq

inductive Literal where
  | nil
  | boolean (value : Bool)
  | number (value : Number)
  | string (value : LuaString)
  /-- A cdata object. -/
  | pointer (ctype : CType) (address : ℕ)
deriving DecidableEq

/-- Tables have no entries for nil and nan, and take minus zero for zero. Pointers are not
written as keys. -/
def Literal.isKey : Literal → Bool
  | .nil => false
  | .pointer _ _ => false
  | .number .nan => false
  | .number (.finite binary) => !(binary.negative && binary.mantissa = 0)
  | _ => true

/-- A key of a table that is no table itself. -/
@[ext] structure Key where
  literal : Literal
  valid : literal.isKey = true
deriving DecidableEq

def zero : Number := .finite (.of false 0 0)

/-- The key that a value is taken for. -/
def Literal.key (literal : Literal) : Option Key :=
  if hkey : literal.isKey then some ⟨literal, hkey⟩
  else
    match literal with
    | .number (.finite _) => some ⟨.number zero, rfl⟩
    | _ => none

theorem Key.key_literal (key : Key) : key.literal.key = some key := dif_pos key.valid

/-- `safestr` of a number. -/
def numberText : Number → LuaString
  | .nan => ascii "0/0"
  | .infinite false => ascii "1/0 --[[math.huge]]"
  | .infinite true => ascii "-1/0 --[[-math.huge]]"
  | .finite binary =>
      (if binary.negative then [45] else []) ++ hexFloat binary.mantissa binary.exponent

def castHead : LuaString := ascii "(function() local ffi = require 'ffi' return ffi.cast('"

def castMiddle : LuaString := ascii "', ffi.cast('void*', "

def castTail : LuaString := ascii ")) end)()"

/-- `safestr`, and what is written for a pointer. -/
def safestr : Literal → LuaString
  | .nil => ascii "nil"
  | .boolean true => ascii "true"
  | .boolean false => ascii "false"
  | .number value => numberText value
  | .string value => quote value
  | .pointer ctype address =>
      castHead ++ ctype.name ++ castMiddle ++ decimal address ++ castTail

/-! ## Names -/

def keywords : List LuaString :=
  ["and", "break", "do", "else", "elseif", "end", "false", "for", "function", "goto", "if", "in",
    "local", "nil", "not", "or", "repeat", "return", "then", "true", "until", "while"].map ascii

/-- `n:match("^[%l%u_][%w_]*$") and not keyword[n]` -/
def isPlain (name : LuaString) : Bool :=
  (name.head?.any fun byte => isLetter byte || byte = 95) && name.all isNameByte &&
    !keywords.contains name

/-- The key as a name, if it can be written as one. -/
def Key.plain? (key : Key) : Option LuaString :=
  match key.literal with
  | .string name => if isPlain name then some name else none
  | _ => none

/-- `safename` without a path, of a key. -/
def Key.text (key : Key) : LuaString :=
  match key.plain? with
  | some name => name
  | none => 91 :: (safestr key.literal ++ [93])

theorem Key.of_plain {key : Key} {name : LuaString} (hplain : key.plain? = some name) :
    isPlain name ∧ key = ⟨.string name, rfl⟩ := by
  obtain ⟨literal, hvalid⟩ := key
  cases literal with
  | string value =>
      simp only [Key.plain?] at hplain
      split at hplain
      next hname =>
        cases hplain
        exact ⟨hname, rfl⟩
      next => cases hplain
  | nil => cases hplain
  | boolean value => cases hplain
  | number value => cases hplain
  | pointer ctype address => cases hplain

/-- A name has only bytes of a name, and starts with a letter or an underscore. -/
theorem isPlain_name {name : LuaString} (hplain : isPlain name) :
    name.all isNameByte ∧ ∃ byte rest, name = byte :: rest ∧ (isLetter byte || byte = 95) := by
  simp only [isPlain, Bool.and_eq_true] at hplain
  obtain ⟨⟨hfirst, hname⟩, -⟩ := hplain
  cases name with
  | nil => cases hfirst
  | cons byte rest => exact ⟨hname, byte, rest, rfl, hfirst⟩

theorem Key.text_of_plain {key : Key} {name : LuaString} (hplain : key.plain? = some name) :
    key.text = name := by
  rw [Key.text, hplain]

theorem Key.text_of_not_plain {key : Key} (hplain : key.plain? = none) :
    key.text = 91 :: (safestr key.literal ++ [93]) := by
  rw [Key.text, hplain]

/-! ## Expressions and statements -/

mutual

inductive Expr where
  | literal (literal : Literal)
  | table (fields : Fields)

/-- The fields of a table constructor, with or without a key. -/
inductive Fields where
  | nil
  | cons (key : Option Key) (value : Expr) (rest : Fields)

end

mutual

/-- How deep tables are nested. -/
def Expr.depth : Expr → ℕ
  | .literal _ => 0
  | .table fields => fields.depth + 1

def Fields.depth : Fields → ℕ
  | .nil => 0
  | .cons _ value rest => max value.depth rest.depth

end

/-- The variable `_` with the keys behind it. -/
abbrev Path := List Key

/-- `do local _=value;local __={};…;return _;end`, the assignments only where there are any. -/
structure Chunk where
  value : Expr
  assignments : List (Path × Path)

def tag : Option Key → LuaString
  | none => []
  | some key => key.text ++ [61]

mutual

def Expr.text : Expr → LuaString
  | .literal literal => safestr literal
  | .table .nil => [123, 125]
  | .table (.cons key value rest) => 123 :: (tag key ++ value.text ++ rest.restText)

/-- The fields behind the first one, and the closing brace. -/
def Fields.restText : Fields → LuaString
  | .nil => [125]
  | .cons key value rest => 44 :: (tag key ++ value.text ++ rest.restText)

end

/-- The key behind a path. -/
def selector (key : Key) : LuaString :=
  match key.plain? with
  | some name => 46 :: name
  | none => key.text

def pathText (path : Path) : LuaString := 95 :: path.flatMap selector

def assignmentText (assignment : Path × Path) : LuaString :=
  pathText assignment.1 ++ 61 :: pathText assignment.2

def Chunk.text (chunk : Chunk) : LuaString :=
  ascii "do local _=" ++ chunk.value.text ++ ascii ";" ++
    (if chunk.assignments = [] then []
      else ascii "local __=\x7b\x7d;" ++
        chunk.assignments.flatMap fun assignment => assignmentText assignment ++ ascii ";") ++
    ascii "return _;end"

/-! ## Bytes -/

/-- The text has no control characters, such as NUL. -/
def Visible (text : LuaString) : Prop := ∀ byte ∈ text, 32 ≤ byte

instance (text : LuaString) : Decidable (Visible text) :=
  List.decidableBAll (32 ≤ ·) text

@[simp] theorem visible_nil : Visible [] := by simp [Visible]

@[simp] theorem visible_cons {byte : UInt8} {text : LuaString} :
    Visible (byte :: text) ↔ 32 ≤ byte ∧ Visible text := List.forall_mem_cons

@[simp] theorem visible_append {first second : LuaString} :
    Visible (first ++ second) ↔ Visible first ∧ Visible second := List.forall_mem_append

theorem Visible.flatMap {α : Type} {write : α → LuaString} (hwrite : ∀ part, Visible (write part))
    (parts : List α) : Visible (parts.flatMap write) := by
  intro byte hmem
  obtain ⟨part, -, hbyte⟩ := List.mem_flatMap.mp hmem
  exact hwrite part byte hbyte

theorem le_of_isNameByte {byte : UInt8} (hbyte : isNameByte byte) : 32 ≤ byte := by
  by_contra hlt
  rw [UInt8.le_iff_toNat_le, not_le] at hlt
  simp [isNameByte, isLetter, isDigit, UInt8.le_iff_toNat_le, ← UInt8.toNat_inj] at hbyte
  have htoNat : (32 : UInt8).toNat = 32 := rfl
  omega

theorem CType.visible (ctype : CType) : Visible ctype.name := by
  intro byte hmem
  have hbyte := List.all_eq_true.mp ctype.valid byte hmem
  simp only [Bool.or_eq_true, decide_eq_true_eq] at hbyte
  rcases hbyte with (hname | rfl) | rfl
  · exact le_of_isNameByte hname
  · decide
  · decide

theorem visible_of_isPlain {name : LuaString} (hplain : isPlain name) : Visible name :=
  fun byte hmem => le_of_isNameByte (List.all_eq_true.mp (isPlain_name hplain).1 byte hmem)

theorem visible_safestr (literal : Literal) : Visible (safestr literal) := by
  rcases literal with _ | ⟨_ | _⟩ | ⟨_ | ⟨_ | _⟩ | binary⟩ | string | ⟨ctype, address⟩
  · decide
  · decide
  · decide
  · decide
  · decide
  · decide
  · rw [safestr, numberText, visible_append]
    refine ⟨?_, fun byte hmem => UInt8.le_trans (by decide) (le_of_mem_hexFloat hmem)⟩
    split <;> decide
  · exact fun byte hmem => le_of_mem_quote hmem
  · have haddress : Visible (decimal address) :=
      fun byte hmem => UInt8.le_trans (by decide) (le_of_mem_decimal hmem)
    simp only [safestr, visible_append, ctype.visible, haddress, and_true]
    decide

theorem Key.visible_text (key : Key) : Visible key.text := by
  cases hplain : key.plain? with
  | none =>
      rw [Key.text_of_not_plain hplain]
      simp [visible_safestr]
  | some name =>
      rw [Key.text_of_plain hplain]
      exact visible_of_isPlain (Key.of_plain hplain).1

theorem visible_selector (key : Key) : Visible (selector key) := by
  rw [selector]
  split
  next name hplain =>
    rw [visible_cons]
    exact ⟨by decide, visible_of_isPlain (Key.of_plain hplain).1⟩
  next => exact key.visible_text

theorem visible_pathText (path : Path) : Visible (pathText path) := by
  rw [pathText, visible_cons]
  exact ⟨by decide, .flatMap visible_selector path⟩

theorem visible_tag (key : Option Key) : Visible (tag key) := by
  cases key with
  | none => exact visible_nil
  | some key =>
      rw [tag, visible_append]
      exact ⟨key.visible_text, by decide⟩

mutual

theorem Expr.visible_text : ∀ value : Expr, Visible value.text
  | .literal literal => visible_safestr literal
  | .table .nil => by decide
  | .table (.cons key value rest) => by
      simp [Expr.text, visible_tag, value.visible_text, rest.visible_restText]

theorem Fields.visible_restText : ∀ fields : Fields, Visible fields.restText
  | .nil => by decide
  | .cons key value rest => by
      simp [Fields.restText, visible_tag, value.visible_text, rest.visible_restText]

end

theorem Chunk.visible_text (chunk : Chunk) : Visible chunk.text := by
  have hassignments : Visible (chunk.assignments.flatMap fun assignment =>
      assignmentText assignment ++ ascii ";") := by
    refine .flatMap (fun assignment => ?_) _
    rw [assignmentText, visible_append, visible_append, visible_cons]
    exact ⟨⟨visible_pathText _, by decide, visible_pathText _⟩, by decide⟩
  rw [Chunk.text, visible_append, visible_append, visible_append, visible_append]
  refine ⟨⟨⟨⟨by decide, chunk.value.visible_text⟩, by decide⟩, ?_⟩, by decide⟩
  split
  next => exact visible_nil
  next =>
    rw [visible_append]
    exact ⟨by decide, hassignments⟩

theorem Chunk.no_nul (chunk : Chunk) : 0 ∉ chunk.text :=
  fun hmem => absurd (chunk.visible_text 0 hmem) (by decide)

end Libmoon.Serpent
