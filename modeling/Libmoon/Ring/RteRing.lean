import Mathlib.Data.List.Basic
import Mathlib.Tactic.Common

/-! # DPDK's bounded ring, as the byte- and packet-sized rings use it

`rte_ring` is not part of the repository. What the wrappers rely on is its
documented behaviour: a FIFO created for `count` entries holds `count - 1`
objects, the single-object calls return `0` or a negative errno, a bulk call
moves all `n` objects or none, and a burst call moves the longest prefix that
fits. A C array of objects is a pointer: `obj i` is whatever is stored at index
`i`, whether or not the caller meant that index to be part of the batch.
-/

namespace Libmoon.Ring

universe u

variable {Obj : Type u}

/-- The objects `obj[0] .. obj[n - 1]`. -/
def batch (obj : Nat → Obj) (n : Nat) : List Obj := (List.range n).map obj

@[simp] theorem length_batch (obj : Nat → Obj) (n : Nat) : (batch obj n).length = n := by
  simp [batch]

@[simp] theorem batch_zero (obj : Nat → Obj) : batch obj 0 = [] := rfl

theorem batch_succ (obj : Nat → Obj) (n : Nat) : batch obj (n + 1) = batch obj n ++ [obj n] := by
  simp [batch, List.range_succ]

/-- A ring never holds more than its usable entries. -/
structure RteRing (Obj : Type u) where
  usable : Nat
  objs : List Obj
  bounded : objs.length ≤ usable

namespace RteRing

/-- `ENOBUFS`, the errno of an enqueue into a full ring. -/
def enobufs : Int := 105

/-- `ENOENT`, the errno of a dequeue from an empty ring. -/
def enoent : Int := 2

/-- `rte_ring_create`, when it succeeds. -/
def create (count : Nat) : RteRing Obj := ⟨count - 1, [], Nat.zero_le _⟩

/-- `rte_ring_count`. -/
def count (ring : RteRing Obj) : Nat := ring.objs.length

/-- `rte_ring_free_count`. -/
def free (ring : RteRing Obj) : Nat := ring.usable - ring.objs.length

/-- Append objects for which there is room. -/
def push (ring : RteRing Obj) (objs : List Obj) (hroom : objs.length ≤ ring.free) :
    RteRing Obj where
  usable := ring.usable
  objs := ring.objs ++ objs
  bounded := by
    have hbounded := ring.bounded
    rw [List.length_append]
    unfold free at hroom
    omega

/-- Remove the first `n` objects. -/
def drop (ring : RteRing Obj) (n : Nat) : RteRing Obj where
  usable := ring.usable
  objs := ring.objs.drop n
  bounded := by
    have hbounded := ring.bounded
    rw [List.length_drop]
    omega

/-- `rte_ring_sp_enqueue`. -/
def spEnqueue (ring : RteRing Obj) (obj : Obj) : Int × RteRing Obj :=
  if hroom : 1 ≤ ring.free then (0, ring.push [obj] hroom) else (-enobufs, ring)

/-- `rte_ring_sp_enqueue_bulk`. -/
def spEnqueueBulk (ring : RteRing Obj) (obj : Nat → Obj) (n : Nat) : Nat × RteRing Obj :=
  if hroom : n ≤ ring.free then
    (n, ring.push (batch obj n) (by rwa [length_batch]))
  else (0, ring)

/-- `rte_ring_sp_enqueue_burst`. -/
def spEnqueueBurst (ring : RteRing Obj) (obj : Nat → Obj) (n : Nat) : Nat × RteRing Obj :=
  (min n ring.free, ring.push (batch obj (min n ring.free)) (by
    rw [length_batch]
    exact Nat.min_le_right _ _))

/-- `rte_ring_sc_dequeue`. -/
def scDequeue (ring : RteRing Obj) : Int × List Obj × RteRing Obj :=
  if 1 ≤ ring.objs.length then (0, ring.objs.take 1, ring.drop 1) else (-enoent, [], ring)

/-- `rte_ring_sc_dequeue_bulk`; the number moved is the length of the list. -/
def scDequeueBulk (ring : RteRing Obj) (n : Nat) : List Obj × RteRing Obj :=
  if n ≤ ring.objs.length then (ring.objs.take n, ring.drop n) else ([], ring)

/-- `rte_ring_sc_dequeue_burst`. -/
def scDequeueBurst (ring : RteRing Obj) (n : Nat) : List Obj × RteRing Obj :=
  (ring.objs.take n, ring.drop n)

@[simp] theorem push_objs (ring : RteRing Obj) (objs : List Obj)
    (hroom : objs.length ≤ ring.free) : (ring.push objs hroom).objs = ring.objs ++ objs := rfl

@[simp] theorem drop_objs (ring : RteRing Obj) (n : Nat) :
    (ring.drop n).objs = ring.objs.drop n := rfl

@[simp] theorem create_usable (count : Nat) :
    (create count : RteRing Obj).usable = count - 1 := rfl

/-- The two outcomes of a single enqueue. -/
theorem spEnqueue_cases (ring : RteRing Obj) (obj : Obj) :
    (1 ≤ ring.free ∧ (ring.spEnqueue obj).1 = 0 ∧
        (ring.spEnqueue obj).2.objs = ring.objs ++ [obj]) ∨
      (ring.free = 0 ∧ (ring.spEnqueue obj).1 ≠ 0 ∧ (ring.spEnqueue obj).2 = ring) := by
  unfold spEnqueue
  split
  next hroom => exact .inl ⟨hroom, rfl, rfl⟩
  next hroom => exact .inr ⟨by omega, by simp [enobufs], rfl⟩

theorem spEnqueueBulk_of_le (ring : RteRing Obj) (obj : Nat → Obj) {n : Nat}
    (hroom : n ≤ ring.free) :
    (ring.spEnqueueBulk obj n).1 = n ∧
      (ring.spEnqueueBulk obj n).2.objs = ring.objs ++ batch obj n := by
  simp [spEnqueueBulk, hroom]

theorem spEnqueueBulk_of_not_le (ring : RteRing Obj) (obj : Nat → Obj) {n : Nat}
    (hroom : ¬ n ≤ ring.free) : ring.spEnqueueBulk obj n = (0, ring) := by
  simp [spEnqueueBulk, hroom]

/-- A bulk enqueue appends exactly as many objects as it reports. -/
theorem spEnqueueBulk_objs (ring : RteRing Obj) (obj : Nat → Obj) (n : Nat) :
    (ring.spEnqueueBulk obj n).2.objs =
      ring.objs ++ batch obj (ring.spEnqueueBulk obj n).1 := by
  by_cases hroom : n ≤ ring.free
  · obtain ⟨hcount, hobjs⟩ := ring.spEnqueueBulk_of_le obj hroom
    rw [hcount, hobjs]
  · simp [ring.spEnqueueBulk_of_not_le obj hroom]

theorem spEnqueueBulk_le (ring : RteRing Obj) (obj : Nat → Obj) (n : Nat) :
    (ring.spEnqueueBulk obj n).1 ≤ n := by
  unfold spEnqueueBulk
  split <;> simp

@[simp] theorem spEnqueueBurst_fst (ring : RteRing Obj) (obj : Nat → Obj) (n : Nat) :
    (ring.spEnqueueBurst obj n).1 = min n ring.free := rfl

@[simp] theorem spEnqueueBurst_objs (ring : RteRing Obj) (obj : Nat → Obj) (n : Nat) :
    (ring.spEnqueueBurst obj n).2.objs = ring.objs ++ batch obj (min n ring.free) := rfl

@[simp] theorem spEnqueueBurst_usable (ring : RteRing Obj) (obj : Nat → Obj) (n : Nat) :
    (ring.spEnqueueBurst obj n).2.usable = ring.usable := rfl

@[simp] theorem spEnqueue_usable (ring : RteRing Obj) (obj : Obj) :
    (ring.spEnqueue obj).2.usable = ring.usable := by
  unfold spEnqueue
  split <;> rfl

@[simp] theorem spEnqueueBulk_usable (ring : RteRing Obj) (obj : Nat → Obj) (n : Nat) :
    (ring.spEnqueueBulk obj n).2.usable = ring.usable := by
  unfold spEnqueueBulk
  split <;> rfl

@[simp] theorem scDequeue_usable (ring : RteRing Obj) :
    ring.scDequeue.2.2.usable = ring.usable := by
  unfold scDequeue
  split <;> rfl

@[simp] theorem scDequeueBulk_usable (ring : RteRing Obj) (n : Nat) :
    (ring.scDequeueBulk n).2.usable = ring.usable := by
  unfold scDequeueBulk
  split <;> rfl

/-- What a dequeue returns and what it leaves make up the old contents. -/
theorem scDequeue_append (ring : RteRing Obj) :
    ring.scDequeue.2.1 ++ ring.scDequeue.2.2.objs = ring.objs := by
  unfold scDequeue
  split
  · exact List.take_append_drop 1 ring.objs
  · rfl

theorem scDequeueBulk_append (ring : RteRing Obj) (n : Nat) :
    (ring.scDequeueBulk n).1 ++ (ring.scDequeueBulk n).2.objs = ring.objs := by
  unfold scDequeueBulk
  split
  · exact List.take_append_drop n ring.objs
  · rfl

theorem scDequeueBurst_append (ring : RteRing Obj) (n : Nat) :
    (ring.scDequeueBurst n).1 ++ (ring.scDequeueBurst n).2.objs = ring.objs :=
  List.take_append_drop n ring.objs

/-- A failed single dequeue returns nothing. -/
theorem scDequeue_of_ne (ring : RteRing Obj) (hfail : ring.scDequeue.1 ≠ 0) :
    ring.scDequeue.2.1 = [] := by
  unfold scDequeue at hfail ⊢
  split at hfail
  · exact absurd rfl hfail
  · rw [if_neg (by assumption)]

end RteRing

end Libmoon.Ring
