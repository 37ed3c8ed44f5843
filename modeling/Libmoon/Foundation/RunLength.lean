import Libmoon.Foundation.OrderStatistics
import Mathlib.Algebra.BigOperators.Group.List.Basic
import Mathlib.Algebra.GroupWithZero.Nat
import Mathlib.Data.List.Flatten

/-! # Counted values

A list of values with the number of times each of them occurs stands for the list in which
every value is repeated that often. Counting one more value adds it to that list, in any
place; sorting the counted values by value sorts it.
-/

namespace Foundation

universe u

variable {α : Type u}

/-- Every value, as often as it is counted. -/
def expand (cells : List (α × ℕ)) : List α :=
  cells.flatMap fun cell => List.replicate cell.2 cell.1

@[simp] theorem expand_nil : expand ([] : List (α × ℕ)) = [] := rfl

@[simp] theorem expand_cons (cell : α × ℕ) (rest : List (α × ℕ)) :
    expand (cell :: rest) = List.replicate cell.2 cell.1 ++ expand rest := rfl

theorem length_expand (cells : List (α × ℕ)) :
    (expand cells).length = (cells.map Prod.snd).sum := by
  induction cells with
  | nil => rfl
  | cons cell rest ih => simp [ih]

theorem List.Perm.expand {first second : List (α × ℕ)} (hperm : first.Perm second) :
    (Foundation.expand first).Perm (Foundation.expand second) :=
  hperm.flatMap_right _

section Counting

variable [DecidableEq α]

/-- One more of a value. A value that is not counted yet comes last. -/
def increment (value : α) : List (α × ℕ) → List (α × ℕ)
  | [] => [(value, 1)]
  | cell :: rest =>
      if cell.1 = value then (cell.1, cell.2 + 1) :: rest else cell :: increment value rest

theorem expand_increment (value : α) (cells : List (α × ℕ)) :
    (expand (increment value cells)).Perm (value :: expand cells) := by
  induction cells with
  | nil => exact List.Perm.refl _
  | cons cell rest ih =>
      by_cases hsame : cell.1 = value
      · subst hsame
        simp [increment, List.replicate_succ]
      · simp only [increment, if_neg hsame, expand_cons]
        exact (ih.append_left _).trans List.perm_middle

theorem mem_keys_increment {value other : α} {cells : List (α × ℕ)} :
    other ∈ (increment value cells).map Prod.fst ↔ other = value ∨ other ∈ cells.map Prod.fst := by
  induction cells with
  | nil => simp [increment]
  | cons cell rest ih =>
      by_cases hsame : cell.1 = value
      · simp [increment, hsame]
      · simp only [increment, if_neg hsame, List.map_cons, List.mem_cons, ih]
        exact or_left_comm

theorem nodup_keys_increment (value : α) {cells : List (α × ℕ)}
    (hnodup : (cells.map Prod.fst).Nodup) : ((increment value cells).map Prod.fst).Nodup := by
  induction cells with
  | nil => simp [increment]
  | cons cell rest ih =>
      obtain ⟨hcell, hrest⟩ := List.nodup_cons.mp hnodup
      by_cases hsame : cell.1 = value
      · simpa [increment, hsame] using hnodup
      · simp only [increment, if_neg hsame, List.map_cons, List.nodup_cons]
        refine ⟨fun hmem => ?_, ih hrest⟩
        exact (mem_keys_increment.mp hmem).elim hsame hcell

end Counting

section Sorted

variable [LinearOrder α]

/-- The counted values in ascending order. -/
def sortCells (cells : List (α × ℕ)) : List (α × ℕ) :=
  cells.mergeSort fun left right => left.1 ≤ right.1

theorem sortCells_perm (cells : List (α × ℕ)) : (sortCells cells).Perm cells :=
  List.mergeSort_perm cells _

theorem pairwise_sortCells (cells : List (α × ℕ)) :
    (sortCells cells).Pairwise fun left right => left.1 ≤ right.1 :=
  List.pairwise_mergeSort' (Order.Preimage Prod.fst (· ≤ ·)) cells

theorem pairwise_expand {cells : List (α × ℕ)}
    (hcells : cells.Pairwise fun left right => left.1 ≤ right.1) :
    (expand cells).Pairwise (· ≤ ·) := by
  induction cells with
  | nil => exact List.Pairwise.nil
  | cons cell rest ih =>
      obtain ⟨hcell, hrest⟩ := List.pairwise_cons.mp hcells
      refine List.pairwise_append.mpr ⟨by simp, ih hrest, ?_⟩
      intro low hlow high hhigh
      obtain ⟨later, hlater, hmem⟩ := List.mem_flatMap.mp hhigh
      rw [List.eq_of_mem_replicate hlow, List.eq_of_mem_replicate hmem]
      exact hcell later hlater

/-- Sorted cells stand for the sorted values. -/
theorem expand_sortCells {cells : List (α × ℕ)} {values : List α}
    (hperm : (expand cells).Perm values) : expand (sortCells cells) = ascending values :=
  eq_ascending ((List.Perm.expand (sortCells_perm cells)).trans hperm)
    (pairwise_expand (pairwise_sortCells cells))

end Sorted

end Foundation
