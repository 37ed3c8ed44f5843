import Libmoon.Serpent.Chunks
import Mathlib.Logic.Function.Basic

/-! # Loading dumps

What Lua does with the code of a dump. A table constructor makes a new table and then
evaluates its fields one after the other. The assignments follow paths from the value.
-/

namespace Libmoon.Serpent

open InterTask

variable {Ref : Type}

/-! ## Heaps -/

/-- The tables made so far, by their numbers. -/
structure Heap where
  size : ℕ
  cells : ℕ → Key → Val ℕ

def Heap.empty : Heap := ⟨0, fun _ _ => .nil⟩

def Heap.new (heap : Heap) : Heap where
  size := heap.size + 1
  cells := Function.update heap.cells heap.size fun _ => .nil

def Heap.set (heap : Heap) (place : ℕ) (key : Key) (value : Val ℕ) : Heap :=
  { heap with
    cells := Function.update heap.cells place (Function.update (heap.cells place) key value) }

@[simp] theorem Heap.size_new (heap : Heap) : heap.new.size = heap.size + 1 := rfl

@[simp] theorem Heap.size_set (heap : Heap) (place : ℕ) (key : Key) (value : Val ℕ) :
    (heap.set place key value).size = heap.size := rfl

@[simp] theorem Heap.cells_new_self (heap : Heap) (key : Key) :
    heap.new.cells heap.size key = .nil := by
  simp [new]

theorem Heap.cells_new_of_ne (heap : Heap) {place : ℕ} (hne : place ≠ heap.size) :
    heap.new.cells place = heap.cells place := Function.update_of_ne hne _ _

@[simp] theorem Heap.cells_set_self (heap : Heap) (place : ℕ) (key : Key) (value : Val ℕ) :
    (heap.set place key value).cells place key = value := by
  simp [set]

theorem Heap.cells_set_of_ne (heap : Heap) {place other : ℕ} {key name : Key}
    (hne : ¬(other = place ∧ name = key)) (value : Val ℕ) :
    (heap.set place key value).cells other name = heap.cells other name := by
  by_cases hother : other = place
  · subst other
    have hname : name ≠ key := fun heq => hne ⟨rfl, heq⟩
    simp [set, hname]
  · simp [set, hother]

/-! ## Evaluation -/

mutual

def Expr.eval : Expr → Heap → Val ℕ × Heap
  | .literal literal, heap => (.literal literal, heap)
  | .table fields, heap => (.table heap.size, fields.store heap.size 1 heap.new)

/-- Store the fields in a table. Fields without a key are numbered. -/
def Fields.store (place : ℕ) : Fields → ℕ → Heap → Heap
  | .nil, _, heap => heap
  | .cons none value rest, item, heap =>
      rest.store place (item + 1)
        ((value.eval heap).2.set place (index item) (value.eval heap).1)
  | .cons (some key) value rest, item, heap =>
      rest.store place item ((value.eval heap).2.set place key (value.eval heap).1)

end

def Heap.walk (heap : Heap) : Val ℕ → Path → Option (Val ℕ)
  | value, [] => some value
  | .table place, key :: path => heap.walk (heap.cells place key) path
  | .literal _, _ :: _ => none

/-- One assignment. The state is the value of `_` and the tables. -/
def assign (state : Val ℕ × Heap) (assignment : Path × Path) : Option (Val ℕ × Heap) := do
  let value ← state.2.walk state.1 assignment.2
  match assignment.1.getLast? with
  | none => return (value, state.2)
  | some key =>
      match ← state.2.walk state.1 assignment.1.dropLast with
      | .table place => return (state.1, state.2.set place key value)
      | .literal _ => none

def Chunk.run (chunk : Chunk) : Option (Val ℕ × Heap) :=
  chunk.assignments.foldlM assign (chunk.value.eval .empty)

/-- `loadstring` of a dump, and the call of what it returns. The parser takes tables that are
nested in so many levels. -/
def load (levels : ℕ) (text : LuaString) : Option (Val ℕ × Heap) :=
  (parseChunk levels text).bind Chunk.run

/-! ## Paths -/

/-- What is stored stays stored. -/
def Heap.Keeps (heap later : Heap) : Prop :=
  ∀ place key, heap.cells place key ≠ .nil → later.cells place key = heap.cells place key

theorem Heap.Keeps.refl (heap : Heap) : heap.Keeps heap := fun _ _ _ => rfl

theorem Heap.Keeps.trans {heap middle later : Heap} (hfirst : heap.Keeps middle)
    (hsecond : middle.Keeps later) : heap.Keeps later := by
  intro place key hne
  have hmiddle := hfirst place key hne
  rw [hsecond place key (by rwa [hmiddle]), hmiddle]

theorem Heap.walk_append (heap : Heap) (value : Val ℕ) (path rest : Path) :
    heap.walk value (path ++ rest) =
      (heap.walk value path).bind fun value => heap.walk value rest := by
  induction path generalizing value with
  | nil => rfl
  | cons key path ih =>
      cases value with
      | literal literal => rfl
      | table place => exact ih _

theorem Heap.Keeps.walk {heap later : Heap} (hkeeps : heap.Keeps later) {place : ℕ} (path : Path)
    {value : Val ℕ} (hwalk : heap.walk value path = some (.table place)) :
    later.walk value path = some (.table place) := by
  induction path generalizing value with
  | nil => exact hwalk
  | cons key path ih =>
      cases value with
      | literal literal => cases hwalk
      | table above =>
          rw [Heap.walk] at hwalk ⊢
          have hne : heap.cells above key ≠ .nil := by
            intro hnil
            rw [hnil, Val.nil] at hwalk
            cases path <;> simp [Heap.walk] at hwalk
          rw [hkeeps above key hne]
          exact ih hwalk

theorem assign_append {root : Val ℕ} {heap : Heap} {path target : Path} {key : Key} {place : ℕ}
    {value : Val ℕ} (hpath : heap.walk root path = some (.table place))
    (htarget : heap.walk root target = some value) :
    assign (root, heap) (path ++ [key], target) = some (root, heap.set place key value) := by
  simp [assign, htarget, hpath]

end Libmoon.Serpent
