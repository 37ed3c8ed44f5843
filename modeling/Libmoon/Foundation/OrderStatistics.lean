import Mathlib.Data.List.Sort
import Mathlib.Order.Defs.LinearOrder
import Mathlib.Tactic.Common

/-! # Order statistics

In a sorted list, the entries with a property that smaller entries inherit stand in front.
The entry at a place therefore has it exactly if enough entries have it. Bounds on the
median follow from how many entries meet them, whatever the other entries are.
-/

namespace Foundation

universe u

variable {α : Type u} [LinearOrder α]

/-- The values in ascending order. -/
def ascending (values : List α) : List α := values.mergeSort fun left right => left ≤ right

/-- The entry in the middle of the values in ascending order. -/
def median (values : List α) : Option α := (ascending values)[values.length / 2]?

theorem ascending_perm (values : List α) : (ascending values).Perm values :=
  List.mergeSort_perm values _

theorem length_ascending (values : List α) : (ascending values).length = values.length :=
  (ascending_perm values).length_eq

theorem pairwise_ascending (values : List α) : (ascending values).Pairwise (· ≤ ·) :=
  List.pairwise_mergeSort' (· ≤ ·) values

theorem eq_ascending {values sorted : List α} (hperm : sorted.Perm values)
    (hsorted : sorted.Pairwise (· ≤ ·)) : sorted = ascending values :=
  (hperm.trans (ascending_perm values).symm).eq_of_pairwise' hsorted (pairwise_ascending values)

/-- The entries with a property that is passed down stand in front of the others. -/
theorem getElem_iff_lt_countP {p : α → Bool} (hp : ∀ left right, left ≤ right → p right → p left)
    {sorted : List α} (hsorted : sorted.Pairwise (· ≤ ·)) {k : ℕ} (hk : k < sorted.length) :
    p sorted[k] ↔ k < sorted.countP p := by
  induction sorted generalizing k with
  | nil => exact absurd hk (Nat.not_lt_zero k)
  | cons first rest ih =>
      obtain ⟨hfirst, hrest⟩ := List.pairwise_cons.mp hsorted
      by_cases hhead : p first
      · rw [List.countP_cons_of_pos hhead]
        cases k with
        | zero => simp [hhead]
        | succ k =>
            rw [List.getElem_cons_succ, ih hrest (Nat.lt_of_succ_lt_succ hk)]
            exact Nat.succ_lt_succ_iff.symm
      · -- no entry has the property when the smallest one has not
        have hnone : ∀ value ∈ first :: rest, ¬ p value := by
          intro value hvalue
          rcases List.mem_cons.mp hvalue with rfl | hmem
          · exact hhead
          · exact fun hpass => hhead (hp first value (hfirst value hmem) hpass)
        rw [List.countP_eq_zero.mpr hnone]
        exact iff_of_false (hnone _ (List.getElem_mem hk)) (Nat.not_lt_zero k)

section Ranks

variable {sorted : List α} {k : ℕ}

theorem lt_getElem_iff_countP_le (hsorted : sorted.Pairwise (· ≤ ·)) (hk : k < sorted.length)
    (bound : α) : bound < sorted[k] ↔ sorted.countP (· ≤ bound) ≤ k := by
  rw [← not_iff_not, not_lt, not_le]
  have hpassed : ∀ left right : α, left ≤ right → decide (right ≤ bound) →
      decide (left ≤ bound) := by
    simp only [decide_eq_true_eq]
    exact fun left right hle hright => hle.trans hright
  simpa only [decide_eq_true_eq] using getElem_iff_lt_countP hpassed hsorted hk

theorem le_getElem_iff_countP_le (hsorted : sorted.Pairwise (· ≤ ·)) (hk : k < sorted.length)
    (bound : α) : bound ≤ sorted[k] ↔ sorted.countP (· < bound) ≤ k := by
  rw [← not_iff_not, not_le, not_le]
  have hpassed : ∀ left right : α, left ≤ right → decide (right < bound) →
      decide (left < bound) := by
    simp only [decide_eq_true_eq]
    exact fun left right hle hright => hle.trans_lt hright
  simpa only [decide_eq_true_eq] using getElem_iff_lt_countP hpassed hsorted hk

theorem countP_lt_getElem_le (hsorted : sorted.Pairwise (· ≤ ·)) (hk : k < sorted.length) :
    sorted.countP (· < sorted[k]) ≤ k :=
  (le_getElem_iff_countP_le hsorted hk sorted[k]).mp le_rfl

theorem lt_countP_le_getElem (hsorted : sorted.Pairwise (· ≤ ·)) (hk : k < sorted.length) :
    k < sorted.countP (· ≤ sorted[k]) :=
  lt_of_not_ge fun hle =>
    lt_irrefl sorted[k] ((lt_getElem_iff_countP_le hsorted hk sorted[k]).mpr hle)

/-- Where some values are smaller than a bound, the greatest of them has all of them up to it. -/
theorem exists_countP_le_eq {values : List α} {bound : α} (hsome : 0 < values.countP (· < bound)) :
    ∃ value ∈ values, values.countP (· ≤ value) = values.countP (· < bound) := by
  obtain ⟨k, hcount⟩ := Nat.exists_eq_add_one.mpr hsome
  have hperm := ascending_perm values
  have hsorted := pairwise_ascending values
  have hk : k < (ascending values).length := by
    have hle := values.countP_le_length (p := fun value => decide (value < bound))
    rw [length_ascending]
    omega
  have hbelow : (ascending values)[k] < bound := by
    rw [← not_le, le_getElem_iff_countP_le hsorted hk, hperm.countP_eq]
    omega
  refine ⟨(ascending values)[k], hperm.subset (List.getElem_mem hk), le_antisymm ?_ ?_⟩
  · refine List.countP_mono_left fun value _ hvalue => ?_
    simp only [decide_eq_true_eq] at hvalue ⊢
    exact hvalue.trans_lt hbelow
  · have hleast := lt_countP_le_getElem hsorted hk
    rw [hperm.countP_eq] at hleast
    omega

end Ranks

section Bounds

variable {values : List α} {middle : α}

theorem median_iff_lt_countP {p : α → Bool} (hp : ∀ left right, left ≤ right → p right → p left)
    (hmiddle : median values = some middle) : p middle ↔ values.length / 2 < values.countP p := by
  obtain ⟨hlt, rfl⟩ := List.getElem?_eq_some_iff.mp hmiddle
  rw [getElem_iff_lt_countP hp (pairwise_ascending values) hlt,
    (ascending_perm values).countP_eq]

/-- The median is at most what more than half of the values are at most. -/
theorem median_le_iff {bound : α} (hmiddle : median values = some middle) :
    middle ≤ bound ↔ values.length / 2 < values.countP (· ≤ bound) := by
  rw [← median_iff_lt_countP (p := fun value => decide (value ≤ bound)) _ hmiddle,
    decide_eq_true_eq]
  intro left right hle hright
  simp only [decide_eq_true_eq] at *
  exact hle.trans hright

/-- The median is at least what no more than half of the values are below. -/
theorem le_median_iff {bound : α} (hmiddle : median values = some middle) :
    bound ≤ middle ↔ values.countP (· < bound) ≤ values.length / 2 := by
  rw [← not_lt, ← not_lt,
    ← median_iff_lt_countP (p := fun value => decide (value < bound)) _ hmiddle,
    decide_eq_true_eq]
  intro left right hle hright
  simp only [decide_eq_true_eq] at *
  exact hle.trans_lt hright

/-- Where more than half of the values are in an interval, the median is. -/
theorem median_mem_of_majority (low high : α) {within : List α}
    (hmiddle : median values = some middle) (hsublist : within.Sublist values)
    (hmajority : values.length < 2 * within.length)
    (hwithin : ∀ value ∈ within, low ≤ value ∧ value ≤ high) : low ≤ middle ∧ middle ≤ high := by
  have hlow : values.countP (· < low) + within.length ≤ values.length := by
    have hcount : within.length ≤ values.countP (low ≤ ·) := by
      rw [← List.countP_eq_length.mpr fun value hvalue => decide_eq_true (hwithin value hvalue).1]
      exact hsublist.countP_le
    have htotal := values.length_eq_countP_add_countP (fun value => decide (low ≤ value))
    simp only [decide_eq_true_eq, not_le] at htotal
    omega
  have hhigh : within.length ≤ values.countP (· ≤ high) := by
    rw [← List.countP_eq_length.mpr fun value hvalue => decide_eq_true (hwithin value hvalue).2]
    exact hsublist.countP_le
  rw [le_median_iff hmiddle, median_le_iff hmiddle]
  omega

theorem exists_median (hvalues : values ≠ []) :
    ∃ middle ∈ values, median values = some middle := by
  have hpos := List.length_pos_iff.mpr hvalues
  have hlt : values.length / 2 < (ascending values).length := by
    rw [length_ascending]
    omega
  exact ⟨_, (ascending_perm values).subset (List.getElem_mem hlt), List.getElem?_eq_getElem hlt⟩

end Bounds

end Foundation
