import Libmoon.Serpent.Parser
import Mathlib.Data.Fin.Basic
import Mathlib.Data.List.Nodup

/-! # Writing dumps

`serpent.dump` of any tables that refer to each other, shared and cyclic ones among them: a
table is written where it is met first, with nil in every other place, and assignments
behind the value put it into these. Tables have no metatable that serialises them, cdata
objects are pointers, and neither these nor tables, functions or userdata are keys.
-/

namespace Libmoon.Serpent

open Foundation.HexFloat Foundation.LuaQuote InterTask

/-! ## Values -/

/-- A value with tables that are known by references. -/
inductive Val (Ref : Type) where
  | literal (value : Literal)
  | table (ref : Ref)
deriving DecidableEq

variable {Ref : Type}

def Val.nil : Val Ref := .literal .nil

def Val.isNil : Val Ref → Bool
  | .literal .nil => true
  | _ => false

theorem Val.isNil_iff {value : Val Ref} : value.isNil = true ↔ value = .nil := by
  rcases value with ⟨_ | _ | _ | _⟩ | _ <;> simp [isNil, nil]

/-- The positive integers as keys. -/
def index (number : ℕ) : Key where
  literal := .number (.finite (Binary.of false number 0))
  valid := by
    unfold Binary.of
    split <;> rfl

/-- A table. `pairs` yields the entries in their order, and `#` the length. -/
structure TableObject (Ref : Type) where
  entries : List (Key × Val Ref)
  length : ℕ
  nodup : (entries.map Prod.fst).Nodup
  not_nil : ∀ entry ∈ entries, entry.2 ≠ .nil

def TableObject.get (table : TableObject Ref) (key : Key) : Val Ref :=
  (table.entries.lookup key).getD .nil

structure Graph where
  size : ℕ
  tables : Fin size → TableObject (Fin size)

/-! ## Keys -/

/-- `o[key] == key` -/
def isListed (o : List Key) (key : Key) : Bool :=
  o.zipIdx.any fun (other, place) => index (place + 1) = key && other = key

/-- `o`: the keys up to the length, and those of `pairs` that are not among them. -/
def TableObject.keys (table : TableObject Ref) : List Key :=
  table.entries.foldl (fun o entry => if isListed o entry.1 then o else o ++ [entry.1])
    ((List.range table.length).map fun place => index (place + 1))

/-- `local sparse` -/
def TableObject.sparse (table : TableObject Ref) : Bool := table.length < table.keys.length

/-! ## `val2str` -/

/-- `seen` and `sref`. -/
structure Sref (Ref : Type) where
  seen : List (Ref × LuaString)
  sref : List LuaString

/-- `safename` -/
def safename (path : Option LuaString) (name : Key) : LuaString × LuaString :=
  (path.getD [] ++ (if name.plain?.isSome ∧ path.isSome then [46] else []) ++ name.text, name.text)

/-- `tag` -/
def tagText (name : Key) (plainindex : Bool) : LuaString :=
  if plainindex then
    match name.literal with
    | .number _ => []
    | .string name => name ++ [61]
    | _ => []
  else name.text ++ [61]

/-- The loop over the keys of a table, from the n-th one on. -/
def outTexts (val2str : Val Ref → Key → Bool → Sref Ref → Option (LuaString × Sref Ref))
    (table : TableObject Ref) : List Key → ℕ → Sref Ref → Option (List LuaString × Sref Ref)
  | [], _, state => some ([], state)
  | key :: keys, n, state =>
      if table.sparse && (table.get key).isNil then outTexts val2str table keys (n + 1) state
      else do
        let (text, state) ← val2str (table.get key) key (n ≤ table.length && !table.sparse) state
        let (out, state) ← outTexts val2str table keys (n + 1) state
        return (text :: out, state)

def val2str (graph : Graph) : ℕ → Val (Fin graph.size) → Key → Option LuaString → Bool →
    Sref (Fin graph.size) → Option (LuaString × Sref (Fin graph.size))
  | 0, _, _, _, _, _ => none
  | fuel + 1, value, name, path, plainindex, state =>
      let (spath, _) := safename path name
      let tag := tagText name plainindex
      match value with
      | .literal literal => some (tag ++ safestr literal, state)
      | .table ref =>
          match state.seen.lookup ref with
          | some place =>
              some (tag ++ ascii "nil", { state with sref := state.sref ++ [spath ++ 61 :: place] })
          | none =>
              let state := { state with seen := state.seen ++ [(ref, spath)] }
              let table := graph.tables ref
              if table.entries = [] then some (tag ++ ascii "\x7b\x7d", state)
              else do
                let (out, state) ← outTexts
                  (fun value name plainindex =>
                    val2str graph fuel value name (some spath) plainindex)
                  table table.keys 1 state
                return (tag ++ ascii "\x7b" ++ List.intercalate [44] out ++ ascii "\x7d", state)

def underscore : Key := ⟨.string (ascii "_"), rfl⟩

/-- `serpent.dump`. Every table is met at most once, so that the fuel suffices. -/
def dump (graph : Graph) (value : Val (Fin graph.size)) : Option LuaString := do
  let (body, state) ← val2str graph (graph.size + 1) value underscore none false
    ⟨[], [ascii "local __=\x7b\x7d"]⟩
  let tail := if 1 < state.sref.length then List.intercalate [59] state.sref ++ [59] else []
  return ascii "do local " ++ body ++ [59] ++ tail ++ ascii "return _;end"

/-! ## Keys in the order of a dump -/

theorem index_injective : Function.Injective index := by
  intro first second heq
  have hbinary : Binary.of false first 0 = Binary.of false second 0 := by
    simpa [index] using heq
  exact Binary.of_injective hbinary

/-- `for key = 1, maxn do o[key] = key end` -/
def TableObject.items (table : TableObject Ref) : List Key :=
  (List.range table.length).map fun place => index (place + 1)

theorem TableObject.isListed_items (table : TableObject Ref) {others : List Key} {key : Key}
    (hothers : key ∉ others) :
    isListed (table.items ++ others) key = decide (key ∈ table.items) := by
  rw [Bool.eq_iff_iff, decide_eq_true_iff, isListed, List.any_eq_true]
  constructor
  · rintro ⟨⟨other, place⟩, hmem, hequal⟩
    obtain ⟨-, rfl⟩ : index (place + 1) = key ∧ other = key := by simpa using hequal
    exact (List.mem_append.mp (List.fst_mem_of_mem_zipIdx hmem)).resolve_right hothers
  · intro hmem
    obtain ⟨place, hplace, rfl⟩ := List.mem_map.mp hmem
    have hlt : place < table.items.length := by
      simpa [items] using hplace
    refine ⟨(index (place + 1), place), ?_, by simp⟩
    rw [List.mem_zipIdx_iff_getElem?, List.getElem?_append_left hlt]
    simp [items, List.mem_range.mp hplace]

/-- Every key is written once: first the items, then the others as `pairs` yields them. -/
theorem TableObject.keys_eq (table : TableObject Ref) : table.keys =
    table.items ++ (table.entries.map Prod.fst).filter fun key => key ∉ table.items := by
  have hfold : ∀ (entries : List (Key × Val Ref)) (others : List Key),
      (others ++ entries.map Prod.fst).Nodup →
      entries.foldl (fun o entry => if isListed o entry.1 then o else o ++ [entry.1])
          (table.items ++ others) =
        table.items ++ others ++
          (entries.map Prod.fst).filter fun key => key ∉ table.items := by
    intro entries
    induction entries with
    | nil =>
        intro others _
        simp
    | cons entry entries ih =>
        intro others hnodup
        have hothers : entry.1 ∉ others := by
          intro hmem
          exact (List.nodup_append.mp hnodup).2.2 _ hmem _ (by simp) rfl
        rw [List.foldl_cons, table.isListed_items hothers]
        by_cases hmem : entry.1 ∈ table.items
        · have hrest : (others ++ entries.map Prod.fst).Nodup :=
            hnodup.sublist (by simp)
          rw [if_pos (by simpa using hmem), ih others hrest, List.map_cons,
            List.filter_cons_of_neg (by simpa using hmem)]
        · have hrest : ((others ++ [entry.1]) ++ entries.map Prod.fst).Nodup := by
            simpa using hnodup
          rw [if_neg (by simpa using hmem), List.append_assoc, ih _ hrest, List.map_cons,
            List.filter_cons_of_pos (by simpa using hmem)]
          simp
  simpa [keys, items] using hfold table.entries [] (by simpa using table.nodup)

theorem TableObject.items_nodup (table : TableObject Ref) : table.items.Nodup := by
  have hinjective : Function.Injective fun place => index (place + 1) :=
    index_injective.comp (add_left_injective 1)
  exact List.Nodup.map hinjective List.nodup_range

theorem TableObject.keys_nodup (table : TableObject Ref) : table.keys.Nodup := by
  rw [keys_eq, List.nodup_append]
  refine ⟨table.items_nodup, table.nodup.filter _, ?_⟩
  intro key hitem other hother heq
  have hnot := (List.mem_filter.mp hother).2
  rw [← heq] at hnot
  simp [hitem] at hnot

/-- A key that is not written has no value. -/
theorem TableObject.get_of_notMem_keys (table : TableObject Ref) {key : Key}
    (hkey : key ∉ table.keys) : table.get key = .nil := by
  rw [keys_eq, List.mem_append, not_or, List.mem_filter, not_and] at hkey
  have hentries : key ∉ table.entries.map Prod.fst := by
    intro hmem
    have hitem := hkey.2 hmem
    simp [hkey.1] at hitem
  rw [get, List.lookup_eq_none_iff.mpr, Option.getD_none]
  intro entry hentry
  rw [bne_iff_ne]
  rintro rfl
  exact hentries (List.mem_map_of_mem hentry)

/-- A table that is not sparse has no keys but its items. -/
theorem TableObject.keys_of_not_sparse (table : TableObject Ref) (hsparse : table.sparse = false) :
    table.keys = table.items := by
  have hlength : table.keys.length ≤ table.items.length := by
    simpa [sparse, items] using hsparse
  have hsublist : table.items.Sublist table.keys := by
    rw [keys_eq]
    exact List.sublist_append_left _ _
  exact (hsublist.eq_of_length_le hlength).symm

end Libmoon.Serpent
