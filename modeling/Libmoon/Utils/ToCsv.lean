import Libmoon.Foundation.CsvRecord
import Mathlib.Data.List.Forall2

/-! # Printing of values as CSV

`toCsv` on tables and byte strings of Lua. A variable number of arguments is held in a table,
whose length is only defined up to the places of `nil` in it.
-/

namespace Libmoon.Utils

open Foundation

abbrev LuaString : Type := List UInt8

variable {Other : Type}

/-- A value that is not `nil`. -/
inductive Value (Other : Type) where
  | string (string : LuaString)
  | other (other : Other)
deriving DecidableEq

/-- The elements of a table from index one on. -/
abbrev Table (Other : Type) : Type := List (Option (Value Other))

/-- What depends on the implementation of Lua: the string forms of values other than strings,
the numbers that are converted in a concatenation, the length operator, which finds some border,
and `%s`, which may end at a null byte. -/
structure Lua (Other : Type) where
  tostring : Other → LuaString
  numberString : Other → Option LuaString
  length : Table Other → ℕ
  formatString : LuaString → LuaString
  length_border : ∀ table, (length table = 0 ∨ (table[length table - 1]?).join.isSome) ∧
    (table[length table]?).join = none
  formatString_of_notMem : ∀ string, 0 ∉ string → formatString string = string

section Functions

variable (lua : Lua Other)

/-- `tostring` -/
def Lua.tostringValue : Option (Value Other) → LuaString
  | none => [0x6E, 0x69, 0x6C]
  | some (.string string) => string
  | some (.other other) => lua.tostring other

/-- `for i, v in ipairs(l) do l[i] = f(v) end` -/
def mapIpairs (f : Value Other → Option (Value Other)) : Table Other → Option (Table Other)
  | some v :: rest => do
      let v' ← f v
      let rest' ← mapIpairs f rest
      some (some v' :: rest')
  | table => some table

/-- `unpack`, for as many values as the stack of Lua takes (about 8000). -/
def Lua.unpack (table : Table Other) : Table Other := table.take (lua.length table)

/-- `mapVarArg` -/
def mapVarArg (f : Value Other → Option (Value Other)) (args : Table Other) :
    Option (Table Other) := do
  let l ← mapIpairs f args
  some (lua.unpack l)

/-- `tostringall` -/
def tostringall (args : Table Other) : Option (Table Other) :=
  mapVarArg lua (fun v => some (.string (lua.tostringValue (some v)))) args

/-- What the loop of `toCsv` makes of a string. -/
def Lua.fieldText (original : LuaString) : LuaString :=
  let v := if Csv.dquote ∈ original then Csv.escape original else original
  if Csv.lf ∈ v ∨ Csv.cr ∈ v ∨ Csv.dquote ∈ v ∨ Csv.comma ∈ v then
    Csv.dquote :: (lua.formatString v ++ [Csv.dquote])
  else
    original

/-- The body of the loop. Values other than strings have no method `find`. -/
def quoteField : Value Other → Option (Value Other)
  | .string original => some (.string (lua.fieldText original))
  | .other _ => none

/-- An element for `table.concat`. -/
def Lua.concatElement : Option (Value Other) → Option LuaString
  | none => none
  | some (.string string) => some string
  | some (.other other) => lua.numberString other

/-- `table.concat(vals, ",")` -/
def Lua.concat (table : Table Other) : Option LuaString := do
  let strings ← (lua.unpack table).mapM lua.concatElement
  some ([Csv.comma].intercalate strings)

/-- `toCsv`, or an error. -/
def toCsv (args : Table Other) : Option LuaString := do
  let vals ← tostringall lua args
  let vals ← mapIpairs (quoteField lua) vals
  lua.concat vals

end Functions

variable {lua : Lua Other} {values : List (Value Other)} {table post : Table Other}

/-! ## Tables -/

theorem length_of_values : lua.length (values.map some) = values.length := by
  obtain ⟨hlast, hend⟩ := lua.length_border (values.map some)
  generalize lua.length (values.map some) = border at hlast hend
  have hge : values.length ≤ border := by
    by_contra hlt
    rw [List.getElem?_map, List.getElem?_eq_getElem (by omega)] at hend
    cases hend
  rcases hlast with hzero | hlast
  · omega
  · have hlt : border - 1 < values.length := by
      by_contra hge
      rw [List.getElem?_map, List.getElem?_eq_none (by omega)] at hlast
      cases hlast
    omega

theorem unpack_values : lua.unpack (values.map some) = values.map some := by
  refine List.take_of_length_le (Nat.le_of_eq ?_)
  rw [length_of_values, List.length_map]

/-- The border of a table with `nil` in it is in front of the first one or somewhere after it. -/
theorem unpack_nil (values : List (Value Other)) (post : Table Other) :
    lua.unpack (values.map some ++ none :: post) = values.map some ∨
      ∃ post', lua.unpack (values.map some ++ none :: post) = values.map some ++ none :: post' := by
  obtain ⟨-, hend⟩ := lua.length_border (values.map some ++ none :: post)
  unfold Lua.unpack
  generalize lua.length (values.map some ++ none :: post) = border at hend
  have hge : values.length ≤ border := by
    by_contra hlt
    rw [List.getElem?_append_left (by rw [List.length_map]; omega), List.getElem?_map,
      List.getElem?_eq_getElem (by omega)] at hend
    cases hend
  obtain ⟨beyond, rfl⟩ := Nat.exists_eq_add_of_le hge
  rw [← @List.length_map _ _ values some, List.take_length_add_append]
  cases beyond with
  | zero => exact .inl (List.append_nil _)
  | succ beyond => exact .inr ⟨_, rfl⟩

/-- `ipairs` ends in front of the first `nil`. -/
theorem mapIpairs_append {f : Value Other → Option (Value Other)} {g : Value Other → Value Other}
    (hf : ∀ v ∈ values, f v = some (g v)) (htable : table = [] ∨ ∃ post, table = none :: post) :
    mapIpairs f (values.map some ++ table) = some ((values.map g).map some ++ table) := by
  induction values with
  | nil =>
      rcases htable with rfl | ⟨post, rfl⟩
      · rfl
      · rfl
  | cons v values ih =>
      obtain ⟨hv, hvalues⟩ := List.forall_mem_cons.mp hf
      rw [List.map_cons, List.cons_append, mapIpairs, hv, Option.bind_eq_bind, Option.bind_some,
        ih hvalues]
      rfl

/-! ## Fields and records -/

/-- The string form of a value. -/
def Lua.form (lua : Lua Other) (v : Value Other) : LuaString := lua.tostringValue (some v)

/-- A string without null bytes is a field, quoted where it has to be. -/
theorem field_fieldText {original : LuaString} (hnul : 0 ∉ original) :
    Csv.Field (lua.fieldText original) original := by
  have hescape : (if Csv.dquote ∈ original then Csv.escape original else original) =
      Csv.escape original := by
    split
    next => rfl
    next hquote => exact (Csv.escape_of_notMem hquote).symm
  have hnul' : 0 ∉ Csv.escape original := fun hmem => hnul (Csv.mem_escape.mp hmem)
  -- escaping keeps the characters that are looked for
  unfold Lua.fieldText
  rw [hescape]
  dsimp only
  simp only [Csv.mem_escape]
  split
  next =>
    rw [lua.formatString_of_notMem _ hnul']
    exact .escaped original
  next hplain =>
    simp only [not_or] at hplain
    obtain ⟨hlf, hcr, hquote, hcomma⟩ := hplain
    refine .nonEscaped fun byte hbyte => ⟨?_, ?_, ?_, ?_⟩ <;> rintro rfl
    · exact hquote hbyte
    · exact hcomma hbyte
    · exact hcr hbyte
    · exact hlf hbyte

/-- The text of some values, none of them `nil`. -/
def Lua.recordText (lua : Lua Other) (values : List (Value Other)) : LuaString :=
  [Csv.comma].intercalate (values.map fun v => lua.fieldText (lua.form v))

theorem record_recordText (hne : values ≠ []) (hnul : ∀ v ∈ values, 0 ∉ lua.form v) :
    Csv.Record (lua.recordText values) (values.map lua.form) := by
  refine .intercalate ?_ fun hnil => hne (List.map_eq_nil_iff.mp hnil)
  rw [List.forall₂_map_left_iff, List.forall₂_map_right_iff, List.forall₂_same]
  intro v hv
  exact field_fieldText (hnul v hv)

theorem tostringall_append (htable : table = [] ∨ ∃ post, table = none :: post) :
    tostringall lua (values.map some ++ table) =
      some (lua.unpack ((values.map fun v => .string (lua.form v)).map some ++ table)) := by
  rw [tostringall, mapVarArg, mapIpairs_append (fun _ _ => rfl) htable, Option.bind_eq_bind,
    Option.bind_some]
  rfl

theorem quoteFields_append (htable : table = [] ∨ ∃ post, table = none :: post) :
    mapIpairs (quoteField lua) ((values.map fun v => .string (lua.form v)).map some ++ table) =
      some ((values.map fun v => .string (lua.fieldText (lua.form v))).map some ++ table) := by
  have hquote : ∀ v ∈ values.map fun v => (.string (lua.form v) : Value Other),
      quoteField lua v = some (.string (lua.fieldText (lua.tostringValue (some v)))) := by
    intro v hv
    obtain ⟨v, _, rfl⟩ := List.mem_map.mp hv
    rfl
  rw [mapIpairs_append hquote htable, List.map_map (g := some), List.map_map, List.map_map]
  rfl

theorem mapM_concatElement (text : Value Other → LuaString) (values : List (Value Other)) :
    ((values.map fun v => (.string (text v) : Value Other)).map some).mapM lua.concatElement =
      some (values.map text) := by
  induction values with
  | nil => rfl
  | cons v values ih =>
      rw [List.map_cons, List.map_cons, List.mapM_cons, ih]
      rfl

theorem mapM_concatElement_nil (values : List (Value Other)) (post : Table Other) :
    (values.map some ++ none :: post).mapM lua.concatElement = none := by
  induction values with
  | nil => rfl
  | cons v values ih =>
      rw [List.map_cons, List.cons_append, List.mapM_cons, ih]
      cases lua.concatElement (some v) <;> rfl

/-- The loop over the fields and their concatenation. -/
theorem toCsv_of_tostringall {args : Table Other}
    (htable : table = [] ∨ ∃ post, table = none :: post)
    (hstrings : tostringall lua args =
      some ((values.map fun v => .string (lua.form v)).map some ++ table)) :
    toCsv lua args = lua.concat
      ((values.map fun v => .string (lua.fieldText (lua.form v))).map some ++ table) := by
  rw [toCsv, hstrings, Option.bind_eq_bind, Option.bind_some, quoteFields_append htable]
  rfl

theorem concat_values : lua.concat
    ((values.map fun v => .string (lua.fieldText (lua.form v))).map some) =
      some (lua.recordText values) := by
  rw [Lua.concat, unpack_values, mapM_concatElement]
  rfl

theorem concat_nil {text : LuaString} (htext : lua.concat
    ((values.map fun v => .string (lua.fieldText (lua.form v))).map some ++ none :: post) =
      some text) : text = lua.recordText values := by
  rcases @unpack_nil _ lua (values.map fun v => .string (lua.fieldText (lua.form v))) post with
    hfront | ⟨post', hafter⟩
  · have hconcat := @concat_values _ lua values
    rw [Lua.concat, unpack_values, ← hfront] at hconcat
    exact Option.some.inj (htext.symm.trans hconcat)
  · rw [Lua.concat, hafter, mapM_concatElement_nil] at htext
    cases htext

/-- Without `nil` among them, values are printed as a record. -/
theorem toCsv_values : toCsv lua (values.map some) = some (lua.recordText values) := by
  have hstrings := @tostringall_append _ lua values [] (.inl rfl)
  rw [List.append_nil, List.append_nil, unpack_values] at hstrings
  rw [@toCsv_of_tostringall _ lua values [] _ (.inl rfl) (hstrings.trans (by rw [List.append_nil])),
    List.append_nil, concat_values]

/-- What follows the first `nil` is not printed. -/
theorem toCsv_nil {text : LuaString}
    (htext : toCsv lua (values.map some ++ none :: post) = some text) :
    text = lua.recordText values := by
  have hstrings := @tostringall_append _ lua values (none :: post) (.inr ⟨post, rfl⟩)
  rcases @unpack_nil _ lua (values.map fun v => .string (lua.form v)) post with
    hfront | ⟨post', hafter⟩
  -- unpacked up to the first nil, or with it
  · rw [hfront] at hstrings
    rw [@toCsv_of_tostringall _ lua values [] _ (.inl rfl)
      (hstrings.trans (by rw [List.append_nil])), List.append_nil, concat_values] at htext
    exact (Option.some.inj htext).symm
  · rw [hafter] at hstrings
    rw [toCsv_of_tostringall (.inr ⟨post', rfl⟩) hstrings] at htext
    exact concat_nil htext

/-- A table with `nil` in it begins with the values in front of the first one. -/
theorem exists_of_nil_mem {args : Table Other} (hnil : none ∈ args) :
    ∃ (values : List (Value Other)) (post : Table Other),
      args = values.map some ++ none :: post := by
  induction args with
  | nil => cases hnil
  | cons arg args ih =>
      cases arg with
      | none => exact ⟨[], args, rfl⟩
      | some v =>
          obtain ⟨values, post, rfl⟩ := ih ((List.mem_cons.mp hnil).resolve_left (by simp))
          exact ⟨v :: values, post, rfl⟩

theorem exists_of_nil_notMem {args : Table Other} (hnil : none ∉ args) :
    ∃ values : List (Value Other), args = values.map some := by
  induction args with
  | nil => exact ⟨[], rfl⟩
  | cons arg args ih =>
      rw [List.mem_cons, not_or] at hnil
      obtain ⟨values, rfl⟩ := ih hnil.right
      cases arg with
      | none => exact absurd rfl hnil.left
      | some v => exact ⟨v :: values, rfl⟩

/-- With `nil` among the values, what is printed is no record of their forms. -/
theorem parse_ne_of_nil {text : LuaString} (hnul : ∀ v ∈ values, 0 ∉ lua.form v)
    (htext : toCsv lua (values.map some ++ none :: post) = some text) :
    Csv.parseRecord text ≠ some ((values.map some ++ none :: post).map lua.tostringValue) := by
  rw [toCsv_nil htext]
  cases values with
  | nil =>
      intro hparse
      cases hparse
  | cons v values =>
      rw [(record_recordText (List.cons_ne_nil v values) hnul).parses]
      intro heq
      have hlength := congrArg List.length (Option.some.inj heq)
      simp at hlength

/-- What `toCsv` prints is parsed as the string forms of the values, provided that none of them
is `nil`. -/
theorem toCsv_parses_iff {args : Table Other} (hne : args ≠ [])
    (hnul : ∀ v ∈ args, 0 ∉ lua.tostringValue v) :
    (∃ text, toCsv lua args = some text ∧
        Csv.parseRecord text = some (args.map lua.tostringValue)) ↔ none ∉ args := by
  constructor
  · rintro ⟨text, htext, hparse⟩ hnil
    obtain ⟨values, post, rfl⟩ := exists_of_nil_mem hnil
    refine parse_ne_of_nil ?_ htext hparse
    intro v hv
    exact hnul (some v) (List.mem_append_left _ (List.mem_map_of_mem hv))
  · intro hnil
    obtain ⟨values, rfl⟩ := exists_of_nil_notMem hnil
    refine ⟨_, toCsv_values, ?_⟩
    rw [List.map_map]
    refine (record_recordText ?_ ?_).parses
    · rintro rfl
      exact hne rfl
    · intro v hv
      exact hnul (some v) (List.mem_map_of_mem hv)

/-- The first border of a table. -/
def firstBorder (table : Table Other) : ℕ := (table.takeWhile Option.isSome).length

theorem firstBorder_border (table : Table Other) :
    (firstBorder table = 0 ∨ (table[firstBorder table - 1]?).join.isSome) ∧
      (table[firstBorder table]?).join = none := by
  induction table with
  | nil => exact ⟨.inl rfl, rfl⟩
  | cons arg rest ih =>
      cases arg with
      | none => exact ⟨.inl rfl, rfl⟩
      | some v =>
          have hborder : firstBorder (some v :: rest) = firstBorder rest + 1 := rfl
          rw [hborder, List.getElem?_cons_succ, Nat.add_sub_cancel]
          refine ⟨.inr ?_, ih.2⟩
          cases hlength : firstBorder rest with
          | zero => rfl
          | succ last =>
              rw [hlength] at ih
              exact ih.1.resolve_left (Nat.succ_ne_zero last)

/-- A Lua with no values but strings. -/
def stringsOnly : Lua Empty where
  tostring := Empty.elim
  numberString := Empty.elim
  length := firstBorder
  formatString := id
  length_border := firstBorder_border
  formatString_of_notMem _ _ := rfl

/-- The values `a` and `,"`. -/
theorem toCsv_parses_iff_two :
    (∃ text, toCsv stringsOnly [some (.string [0x61]), some (.string [0x2C, 0x22])] = some text ∧
        Csv.parseRecord text = some
          ([some (.string [0x61]), some (.string [0x2C, 0x22])].map stringsOnly.tostringValue)) ↔
      none ∉ [some (Value.string [0x61] : Value Empty), some (.string [0x2C, 0x22])] :=
  toCsv_parses_iff (by simp) (by decide)

/-- `nil` is printed as nothing and parsed as the empty string. -/
theorem toCsv_nil_empty :
    toCsv stringsOnly [none] = some [] ∧ Csv.parseRecord [] = some [[]] ∧
    [none].map stringsOnly.tostringValue = [[0x6E, 0x69, 0x6C]] ∧
    ¬ ∃ text, toCsv stringsOnly [none] = some text ∧
      Csv.parseRecord text = some ([none].map stringsOnly.tostringValue) := by
  refine ⟨rfl, rfl, rfl, ?_⟩
  rintro ⟨text, htext, hparse⟩
  cases htext
  cases hparse

end Libmoon.Utils
