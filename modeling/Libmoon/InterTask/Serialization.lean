import Mathlib.Data.List.Basic
import Mathlib.Data.List.DropRight
import Mathlib.Data.List.TakeWhile

/-! # Serialised Lua values

Tasks run in separate Lua states and exchange values as strings: Serpent dumps a
value to a piece of Lua code and `loadstring` evaluates it again. The strings
pass through C interfaces, which end them at the first NUL byte. Serpent is a
parameter, with the two properties that the callers rely on: a dump loads to the
value it was made of, and it has no NUL byte.
-/

namespace Libmoon.InterTask

/-- A Lua string: any bytes. -/
abbrev LuaString := List UInt8

/-- What is left of a string that is passed as `const char*`. -/
def cString (string : LuaString) : LuaString := string.takeWhile (· ≠ 0)

theorem cString_of_no_nul {string : LuaString} (hnul : 0 ∉ string) : cString string = string := by
  rw [cString, List.takeWhile_eq_self_iff]
  intro byte hbyte
  have hne : byte ≠ 0 := fun hzero => hnul (hzero ▸ hbyte)
  simpa using hne

/-- A Lua value that can be serialised. Numbers, strings and tables are `data`:
nothing below looks into them. -/
inductive Value (Data : Type) where
  | nil
  | boolean (value : Bool)
  | data (value : Data)
deriving DecidableEq

/-- What an `if` takes for true. -/
def Value.truthy {Data : Type} : Value Data → Bool
  | .nil => false
  | .boolean value => value
  | .data _ => true

/-- `serpent.dump` and the evaluation of a dump, for values of some type. A dump
is Lua code in which `%q` has escaped the NUL bytes of strings. -/
structure Serpent (Val : Type) where
  dump : Val → LuaString
  load : LuaString → Val
  load_dump : ∀ value, load (dump value) = value
  dump_no_nul : ∀ value, 0 ∉ dump value

/-- A dump survives the C interface. -/
@[simp] theorem Serpent.cString_dump {Val : Type} (serpent : Serpent Val) (value : Val) :
    cString (serpent.dump value) = serpent.dump value :=
  cString_of_no_nul (serpent.dump_no_nul value)

/-! ## Concrete dumps -/

/-- "do local _=" -/
def dumpHead : LuaString := [0x64, 0x6f, 0x20, 0x6c, 0x6f, 0x63, 0x61, 0x6c, 0x20, 0x5f, 0x3d]
/-- ";return _;end" -/
def dumpTail : LuaString :=
  [0x3b, 0x72, 0x65, 0x74, 0x75, 0x72, 0x6e, 0x20, 0x5f, 0x3b, 0x65, 0x6e, 0x64]

/-- The frame that `serpent.dump` puts around the text of a value. -/
def Serpent.ofBody {Val : Type} (body : Val → LuaString) (eval : LuaString → Val)
    (heval : ∀ value, eval (body value) = value) (hnul : ∀ value, 0 ∉ body value) :
    Serpent Val where
  dump value := dumpHead ++ body value ++ dumpTail
  load dump := eval ((dump.drop dumpHead.length).rdrop dumpTail.length)
  load_dump := by
    intro value
    rw [List.append_assoc, List.drop_left, List.rdrop_append_length, heval]
  dump_no_nul := by
    intro value
    have hhead : 0 ∉ dumpHead := by decide
    have htail : 0 ∉ dumpTail := by decide
    simp [hhead, htail, hnul]

/-- The literal that Serpent writes for nil and the booleans. -/
def literal : Value Empty → LuaString
  | .nil => [0x6e, 0x69, 0x6c]
  | .boolean false => [0x66, 0x61, 0x6c, 0x73, 0x65]
  | .boolean true => [0x74, 0x72, 0x75, 0x65]

/-- The evaluation of such a literal. -/
def evalLiteral (string : LuaString) : Value Empty :=
  if string = literal (.boolean false) then .boolean false
  else if string = literal (.boolean true) then .boolean true
  else .nil

theorem evalLiteral_literal (value : Value Empty) : evalLiteral (literal value) = value := by
  rcases value with _ | ⟨_ | _⟩ | ⟨⟨⟩⟩ <;> rfl

theorem literal_no_nul (value : Value Empty) : 0 ∉ literal value := by
  rcases value with _ | ⟨_ | _⟩ | ⟨⟨⟩⟩ <;> decide

end Libmoon.InterTask
