import Libmoon.Serpent.RoundTrip

/-! # Dumps of records

Tasks mostly exchange literals, and tables of literals under names. Serpent is what they
take it for on these: a dump loads to the value that it was made of.
-/

namespace Libmoon.Serpent

open InterTask

/-- A table of literals under names, in the order of `pairs`. -/
structure Record where
  entries : List (LuaString × Literal)
  nodup : (entries.map Prod.fst).Nodup
  not_nil : ∀ entry ∈ entries, entry.2 ≠ .nil

def Record.get (record : Record) (name : LuaString) : Literal :=
  (record.entries.lookup name).getD .nil

theorem isKey_string (name : LuaString) : (Literal.string name).isKey = true := rfl

def nameKey (name : LuaString) : Key := ⟨.string name, isKey_string name⟩

theorem nameKey_injective : Function.Injective nameKey := by
  intro first second heq
  have hliteral := congrArg Key.literal heq
  exact Literal.string.inj hliteral

def Record.table {Ref : Type} (record : Record) : TableObject Ref where
  entries := record.entries.map (Prod.map nameKey .literal)
  length := 0
  nodup := by
    rw [List.map_map]
    have hkeys : Prod.fst ∘ Prod.map nameKey (Val.literal : Literal → Val Ref) =
        nameKey ∘ Prod.fst := rfl
    rw [hkeys, ← List.map_map]
    exact List.Nodup.map nameKey_injective record.nodup
  not_nil := by
    intro entry hentry
    obtain ⟨given, hgiven, rfl⟩ := List.mem_map.mp hentry
    simpa [Val.nil] using record.not_nil given hgiven

theorem lookup_nameKey {Ref : Type} (entries : List (LuaString × Literal)) (name : LuaString) :
    ((entries.map (Prod.map nameKey Val.literal)).lookup (nameKey name)).getD Val.nil =
      (Val.literal ((entries.lookup name).getD .nil) : Val Ref) := by
  induction entries with
  | nil => rfl
  | cons entry entries ih =>
      have hkey : (nameKey name == nameKey entry.1) = (name == entry.1) := by
        rw [Bool.eq_iff_iff, beq_iff_eq, beq_iff_eq, nameKey_injective.eq_iff]
      rw [List.map_cons, List.lookup_cons, List.lookup_cons, Prod.map_fst, hkey]
      cases name == entry.1 with
      | true => rfl
      | false => exact ih

theorem Record.get_table {Ref : Type} (record : Record) (name : LuaString) :
    (record.table : TableObject Ref).get (nameKey name) = .literal (record.get name) :=
  lookup_nameKey record.entries name

/-- What a value is for Serpent. -/
inductive Plain where
  | literal (value : Literal)
  | table (record : Record)

def Plain.val : Plain → (graph : Graph) × Val (Fin graph.size)
  | .literal value => ⟨⟨0, Fin.elim0⟩, .literal value⟩
  | .table record => ⟨⟨1, fun _ => record.table⟩, .table (⟨0, Nat.one_pos⟩ : Fin 1)⟩

def Plain.dump (plain : Plain) : LuaString := (Serpent.dump plain.val.1 plain.val.2).getD []

/-- A literal, or a table as a function of names. -/
inductive Loaded where
  | literal (value : Literal)
  | table (get : LuaString → Val ℕ)

/-- `loadstring` of the dump of such a value, which nests no tables. -/
def loadPlain (text : LuaString) : Option Loaded :=
  (load 1 text).map fun (result, heap) =>
    match result with
    | .literal value => .literal value
    | .table place => .table fun name => heap.cells place (nameKey name)

def Plain.loaded : Plain → Loaded
  | .literal value => .literal value
  | .table record => .table fun name => .literal (record.get name)

theorem Plain.no_nul (plain : Plain) : 0 ∉ plain.dump := by
  obtain ⟨text, hdump⟩ := exists_dump plain.val.1 plain.val.2
  rw [Plain.dump, hdump]
  exact no_nul_of_dump hdump

theorem Plain.nesting_le (plain : Plain) : nesting plain.val.1 plain.val.2 ≤ 1 := by
  refine (nesting_le_size _ _).trans ?_
  cases plain with
  | literal value => exact Nat.zero_le 1
  | table record => exact Nat.le_refl 1

theorem loadPlain_dump (plain : Plain) : loadPlain plain.dump = some plain.loaded := by
  obtain ⟨text, hdump⟩ := exists_dump plain.val.1 plain.val.2
  obtain ⟨result, heap, place, hload, hcopies⟩ := load_of_dump plain.nesting_le hdump
  rw [Plain.dump, hdump, Option.getD_some, loadPlain, hload, Option.map_some, hcopies.root]
  cases plain with
  | literal value => rfl
  | table record =>
      have hcells : ∀ name, heap.cells (place (⟨0, Nat.one_pos⟩ : Fin 1)) (nameKey name) =
          .literal (record.get name) := by
        intro name
        rw [hcopies.cells (.value rfl) (nameKey name)]
        exact congrArg (Val.map place) (record.get_table name)
      simp only [Plain.val, Val.map, Plain.loaded, hcells]

/-- Serpent on values that are given to it in this way. -/
def plainSerpent {Value : Type} (write : Value → Plain) (read : Option Loaded → Value)
    (hread : ∀ value, read (some (write value).loaded) = value) : InterTask.Serpent Value where
  dump value := (write value).dump
  load text := read (loadPlain text)
  load_dump value := by rw [loadPlain_dump, hread]
  dump_no_nul value := (write value).no_nul

end Libmoon.Serpent
