import Libmoon.Ring.BurstHandover

/-! # Slots of the byte-sized ring

`create_bsring` chooses the number of slots for packets of at least 60 bytes. A
DPDK ring leaves one slot unused, so the byte capacity is the only limit exactly
if the number of packets of 60 bytes that fit is not itself the power of two that
the doubling loop arrives at.
-/

namespace Libmoon.Ring

open Foundation

/-- The ring operation of each enqueue function takes the packet. -/
def SlotFree (bsr : BsRing) (obj : Mbuf) : Prop :=
  (bsr.ring.spEnqueue obj).1 = 0 ∧ (bsr.ring.spEnqueueBulk (fun _ => obj) 1).1 = 1

/-- As long as all packets have 60 bytes or more, one that fits into the bytes
that are left of the capacity finds a slot, in every state a ring can reach. -/
def SlotsSuffice (capacity : UInt32) : Prop :=
  ∀ bsr, bsringMachine.Reachable (createBsring capacity) bsr →
    (∀ queued ∈ bsr.ring.objs, 60 ≤ queued.pktLen.toNat) →
      ∀ obj : Mbuf, 60 ≤ obj.pktLen.toNat →
        bytes bsr.ring.objs + obj.pktLen.toNat ≤ capacity.toNat → SlotFree bsr obj

theorem slotFree_iff (bsr : BsRing) (obj : Mbuf) : SlotFree bsr obj ↔ 1 ≤ bsr.ring.free := by
  constructor
  · rintro ⟨hcode, -⟩
    rcases bsr.ring.spEnqueue_cases obj with ⟨hfree, -, -⟩ | ⟨-, hfailed, -⟩
    · exact hfree
    · exact absurd hcode hfailed
  · intro hfree
    refine ⟨?_, (bsr.ring.spEnqueueBulk_of_le _ hfree).1⟩
    rcases bsr.ring.spEnqueue_cases obj with ⟨-, hcode, -⟩ | ⟨hfull, -, -⟩
    · exact hcode
    · omega

/-! ## The number of slots -/

/-- The limit on the number of slots is out of reach of the loop. -/
theorem bsRingCount_eq (capacity : UInt32) :
    bsRingCount capacity = doubleWhile (fun count => count < capacity.toNat / 60) 32 1 := by
  have hcapacity := capacity.toNat_lt
  have hlimit : (fun count : Nat => decide (count < capacity.toNat / 60) &&
      decide (count ≤ bsRingSizeLimit)) = fun count => decide (count < capacity.toNat / 60) := by
    funext count
    unfold bsRingSizeLimit
    by_cases hcount : count < capacity.toNat / 60
    · simp only [hcount, decide_true, Bool.true_and, decide_eq_true_eq]
      omega
    · simp [hcount]
  rw [bsRingCount, hlimit]

theorem le_bsRingCount (capacity : UInt32) : capacity.toNat / 60 ≤ bsRingCount capacity := by
  have hcapacity := capacity.toNat_lt
  rw [bsRingCount_eq]
  exact le_doubleWhile (by omega)

theorem bsRingCount_eq_iff {capacity : UInt32} (hcapacity : 60 ≤ capacity.toNat) :
    bsRingCount capacity = capacity.toNat / 60 ↔ (capacity.toNat / 60).isPowerOfTwo := by
  have hbound := capacity.toNat_lt
  rw [bsRingCount_eq]
  exact doubleWhile_eq_iff (by omega) (by omega)

theorem usable_of_reachable {capacity : UInt32} {bsr : BsRing}
    (hreach : bsringMachine.Reachable (createBsring capacity) bsr) :
    bsr.ring.usable = bsRingCount capacity - 1 := by
  have hstep : ∀ bsr call, bsr.ring.usable = bsRingCount capacity - 1 →
      (bsringMachine.step bsr call).2.ring.usable = bsRingCount capacity - 1 := by
    intro bsr call husable
    rwa [step_usable]
  exact hreach.invariant hstep rfl

/-! ## Enough slots -/

theorem length_le_bytes {objs : List Mbuf} (hobjs : ∀ obj ∈ objs, 60 ≤ obj.pktLen.toNat) :
    60 * objs.length ≤ bytes objs := by
  induction objs with
  | nil => exact Nat.zero_le _
  | cons obj rest ih =>
      have hfirst := hobjs obj List.mem_cons_self
      have hrest := ih fun later hlater => hobjs later (List.mem_cons_of_mem obj hlater)
      simp only [bytes, List.map_cons, List.sum_cons, List.length_cons] at hrest ⊢
      omega

theorem slotsSuffice_of_le {capacity : UInt32}
    (hslots : capacity.toNat / 60 ≤ bsRingCount capacity - 1) : SlotsSuffice capacity := by
  intro bsr hreach hqueued obj hobj hfits
  have husable := usable_of_reachable hreach
  have hlength := length_le_bytes hqueued
  rw [slotFree_iff, RteRing.free, husable]
  omega

/-! ## One slot too few -/

/-- Packets of 60 bytes. -/
def smallest (i : Nat) : Mbuf := ⟨i, 60⟩

theorem bytes_smallest (n : Nat) : bytes (batch smallest n) = 60 * n := by
  induction n with
  | zero => rfl
  | succ n ih =>
      rw [bytes_batch_succ, ih]
      exact (Nat.mul_succ 60 n).symm

/-- A new ring takes as many packets of 60 bytes at once as it has slots. -/
theorem bulk_fills_slots {capacity : UInt32}
    (hfits : 60 * (bsRingCount capacity - 1) ≤ capacity.toNat) :
    (bsringEnqueueBulk (createBsring capacity) smallest
        (UInt32.ofNat (bsRingCount capacity - 1))).2.ring.objs =
      batch smallest (bsRingCount capacity - 1) := by
  have hcapacity := capacity.toNat_lt
  have hn : (UInt32.ofNat (bsRingCount capacity - 1)).toNat = bsRingCount capacity - 1 := by
    rw [UInt32.toNat_ofNat', Nat.mod_eq_of_lt (by omega)]
  have hpasses : ¬ (createBsring capacity).bytesUsed +
      totalSize smallest (bsRingCount capacity - 1) > (createBsring capacity).capacity := by
    rw [gt_iff_lt, UInt32.lt_iff_toNat_lt, UInt32.toNat_add, toNat_totalSize, bytes_smallest]
    show ¬ capacity.toNat <
      ((0 : UInt32).toNat + 60 * (bsRingCount capacity - 1) % 2 ^ 32) % 2 ^ 32
    rw [UInt32.toNat_zero]
    omega
  have htaken := ((createBsring capacity).ring.spEnqueueBulk_of_le smallest
    (show bsRingCount capacity - 1 ≤ (createBsring capacity).ring.free from Nat.le_refl _)).2
  unfold bsringEnqueueBulk
  rw [hn, if_neg hpasses]
  exact htaken

theorem not_slotsSuffice_of_lt {capacity : UInt32}
    (hslots : bsRingCount capacity - 1 < capacity.toNat / 60) : ¬ SlotsSuffice capacity := by
  intro hsuffice
  have hobjs := @bulk_fills_slots capacity (by omega)
  have hreach : bsringMachine.Reachable (createBsring capacity)
      (bsringEnqueueBulk (createBsring capacity) smallest
        (UInt32.ofNat (bsRingCount capacity - 1))).2 := ⟨[.enqueueBulk smallest _], rfl⟩
  have hfree := hsuffice _ hreach
    (by
      intro queued hqueued
      rw [hobjs] at hqueued
      obtain ⟨i, -, rfl⟩ := List.mem_map.mp hqueued
      exact Nat.le_refl 60)
    (smallest 0) (Nat.le_refl 60)
    (by
      rw [hobjs, bytes_smallest]
      show 60 * (bsRingCount capacity - 1) + 60 ≤ capacity.toNat
      omega)
  rw [slotFree_iff, RteRing.free, hobjs, length_batch, usable_of_reachable hreach] at hfree
  omega

/-- Slots never limit the ring exactly if the number of packets of 60 bytes that
fit into its capacity is not a power of two. -/
theorem slotsSuffice_iff {capacity : UInt32} (hcapacity : 60 ≤ capacity.toNat) :
    SlotsSuffice capacity ↔ ¬ (capacity.toNat / 60).isPowerOfTwo := by
  have hle := le_bsRingCount capacity
  rw [← bsRingCount_eq_iff hcapacity]
  constructor
  · intro hsuffice heq
    exact not_slotsSuffice_of_lt (by omega) hsuffice
  · intro hne
    exact slotsSuffice_of_le (by omega)

/-- Ten packets of 60 bytes fit, and there are sixteen slots. -/
theorem slotsSuffice_ten_packets : SlotsSuffice 600 :=
  (slotsSuffice_iff (by decide)).mpr (by decide)

/-- A ring of 1000 bytes has 15 usable slots, which 16 packets of 60 bytes do not find. -/
theorem not_slotsSuffice_sixteen_packets :
    ¬ ∀ capacity : UInt32, 60 ≤ capacity.toNat → SlotsSuffice capacity := by
  intro halways
  have hfree := halways 1000 (by decide)
    (bsringEnqueueBulk (createBsring 1000) smallest 15).2 ⟨[.enqueueBulk smallest 15], rfl⟩
    (by decide) (smallest 15) (by decide) (by decide)
  exact absurd hfree.1 (by decide)

end Libmoon.Ring
