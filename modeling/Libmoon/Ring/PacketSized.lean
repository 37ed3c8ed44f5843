import Libmoon.Foundation.Machine
import Libmoon.Foundation.Word32
import Libmoon.Ring.ByteSized

/-! # The packet-sized ring and the bounded FIFO it stands for

`pktsizedring.cpp` wraps a DPDK ring in a structure whose capacity limits the
number of packets it holds. It is compared with a FIFO of exactly that capacity,
answer by answer, over every sequence of calls.
-/

namespace Libmoon.Ring

open Foundation

/-- `struct ps_ring`. -/
structure PsRing where
  ring : RteRing Mbuf
  capacity : UInt32

/-- `PS_RING_SIZE_LIMIT`. -/
def psRingSizeLimit : Nat := 268435455

/-- The number of ring entries `create_psring` asks for. -/
def psRingCount (capacity : UInt32) : Nat :=
  doubleWhile (fun count => count < capacity.toNat) 32 1

/-- `create_psring`, when the allocations succeed. -/
def createPsring (capacity : UInt32) : PsRing :=
  let capacity := if capacity.toNat > psRingSizeLimit then UInt32.ofNat psRingSizeLimit else capacity
  { ring := RteRing.create (psRingCount capacity), capacity := capacity }

/-- `rte_ring_count` as the 32-bit word the code computes with. -/
def PsRing.countWord (psr : PsRing) : UInt32 := UInt32.ofNat psr.ring.count

/-- `psring_enqueue_bulk`. -/
def psringEnqueueBulk (psr : PsRing) (obj : Nat → Mbuf) (n : UInt32) : Int32 × PsRing :=
  if psr.countWord + n < psr.capacity then
    let added := psr.ring.spEnqueueBulk obj n.toNat
    ((UInt32.ofNat added.1).toInt32, { psr with ring := added.2 })
  else (0, psr)

/-- `psring_enqueue_burst`. -/
def psringEnqueueBurst (psr : PsRing) (obj : Nat → Mbuf) (n : UInt32) : Int32 × PsRing :=
  if psr.countWord > psr.capacity then
    -- pktsized ring is over capacity
    (0, psr)
  else
    let numToAdd := if psr.countWord + n > psr.capacity then psr.capacity - psr.countWord else n
    let added := psr.ring.spEnqueueBurst obj numToAdd.toNat
    ((UInt32.ofNat added.1).toInt32, { psr with ring := added.2 })

/-- `psring_enqueue`. -/
def psringEnqueue (psr : PsRing) (obj : Mbuf) : Int32 × PsRing :=
  if psr.countWord + 1 ≤ psr.capacity then
    let added := psr.ring.spEnqueue obj
    (if added.1 = 0 then 1 else 0, { psr with ring := added.2 })
  else (0, psr)

/-- `psring_dequeue_bulk`: the return value, the packets stored through `obj`
and the ring. -/
def psringDequeueBulk (psr : PsRing) (n : UInt32) : Int32 × List Mbuf × PsRing :=
  let got := psr.ring.scDequeueBulk n.toNat
  ((UInt32.ofNat got.1.length).toInt32, got.1, { psr with ring := got.2 })

/-- `psring_dequeue_burst`. -/
def psringDequeueBurst (psr : PsRing) (n : UInt32) : Int32 × List Mbuf × PsRing :=
  let got := psr.ring.scDequeueBurst n.toNat
  ((UInt32.ofNat got.1.length).toInt32, got.1, { psr with ring := got.2 })

/-- `psring_dequeue`. -/
def psringDequeue (psr : PsRing) : Int32 × List Mbuf × PsRing :=
  let got := psr.ring.scDequeue
  (if got.1 = 0 then 1 else 0, got.2.1, { psr with ring := got.2.2 })

/-- `psring_count`. -/
def psringCount (psr : PsRing) : Int32 := psr.countWord.toInt32

/-- `psring_capacity`. -/
def psringCapacity (psr : PsRing) : Int32 := psr.capacity.toInt32

/-- The calls of the packet-sized ring. -/
inductive PsCall where
  | enqueue (obj : Mbuf)
  | enqueueBulk (obj : Nat → Mbuf) (n : UInt32)
  | enqueueBurst (obj : Nat → Mbuf) (n : UInt32)
  | dequeue
  | dequeueBulk (n : UInt32)
  | dequeueBurst (n : UInt32)
  | count
  | capacity

/-- The packet-sized ring as a machine. An answer is the return value and the
packets stored through `obj`. -/
def psringMachine : Machine PsRing PsCall (Int × List Mbuf) where
  step psr call :=
    match call with
    | .enqueue obj => (((psringEnqueue psr obj).1.toInt, []), (psringEnqueue psr obj).2)
    | .enqueueBulk obj n =>
        (((psringEnqueueBulk psr obj n).1.toInt, []), (psringEnqueueBulk psr obj n).2)
    | .enqueueBurst obj n =>
        (((psringEnqueueBurst psr obj n).1.toInt, []), (psringEnqueueBurst psr obj n).2)
    | .dequeue =>
        (((psringDequeue psr).1.toInt, (psringDequeue psr).2.1), (psringDequeue psr).2.2)
    | .dequeueBulk n =>
        (((psringDequeueBulk psr n).1.toInt, (psringDequeueBulk psr n).2.1),
          (psringDequeueBulk psr n).2.2)
    | .dequeueBurst n =>
        (((psringDequeueBurst psr n).1.toInt, (psringDequeueBurst psr n).2.1),
          (psringDequeueBurst psr n).2.2)
    | .count => (((psringCount psr).toInt, []), psr)
    | .capacity => (((psringCapacity psr).toInt, []), psr)

/-! ## The abstract FIFO -/

/-- A FIFO of a fixed capacity: a single enqueue succeeds while there is room, a
bulk call moves its whole batch or nothing, a burst moves what fits. -/
def fifoMachine (capacity : Nat) : Machine (List Mbuf) PsCall (Int × List Mbuf) where
  step queue call :=
    match call with
    | .enqueue obj =>
        if queue.length < capacity then ((1, []), queue ++ [obj]) else ((0, []), queue)
    | .enqueueBulk obj n =>
        if queue.length + n.toNat ≤ capacity then
          (((n.toNat : Int), []), queue ++ batch obj n.toNat)
        else ((0, []), queue)
    | .enqueueBurst obj n =>
        (((min n.toNat (capacity - queue.length) : Nat), []),
          queue ++ batch obj (min n.toNat (capacity - queue.length)))
    | .dequeue =>
        match queue with
        | [] => ((0, []), [])
        | obj :: rest => ((1, [obj]), rest)
    | .dequeueBulk n =>
        if n.toNat ≤ queue.length then
          (((n.toNat : Int), queue.take n.toNat), queue.drop n.toNat)
        else ((0, []), queue)
    | .dequeueBurst n =>
        (((min n.toNat queue.length : Nat), queue.take n.toNat), queue.drop n.toNat)
    | .count => (((queue.length : Int), []), queue)
    | .capacity => (((capacity : Int), []), queue)

theorem fifoMachine_length_le {capacity : Nat} {queue : List Mbuf}
    (hqueue : queue.length ≤ capacity) (call : PsCall) :
    ((fifoMachine capacity).step queue call).2.length ≤ capacity := by
  cases call with
  | enqueue obj =>
      simp only [fifoMachine]
      split
      next hroom => simpa using Nat.succ_le_of_lt hroom
      next => exact hqueue
  | enqueueBulk obj n =>
      simp only [fifoMachine]
      split
      next hroom => simpa using hroom
      next => exact hqueue
  | enqueueBurst obj n =>
      simp only [fifoMachine, List.length_append, length_batch]
      omega
  | dequeue =>
      cases queue with
      | nil => exact hqueue
      | cons obj rest => exact Nat.le_of_succ_le hqueue
  | dequeueBulk n =>
      simp only [fifoMachine]
      split
      next =>
        rw [List.length_drop]
        omega
      next => exact hqueue
  | dequeueBurst n =>
      simp only [fifoMachine, List.length_drop]
      omega
  | count => exact hqueue
  | capacity => exact hqueue

/-! ## The size of the ring -/

theorem le_psRingCount (capacity : UInt32) : capacity.toNat ≤ psRingCount capacity :=
  le_doubleWhile (Nat.le_of_lt capacity.toNat_lt)

/-- The ring has as many entries as the capacity exactly when the capacity is a
power of two. One entry of a DPDK ring stays unused, so it then holds one packet
less than the capacity. -/
theorem psRingCount_eq_iff {capacity : UInt32} (hpos : 1 ≤ capacity.toNat) :
    psRingCount capacity = capacity.toNat ↔ capacity.toNat.isPowerOfTwo :=
  doubleWhile_eq_iff hpos (Nat.le_of_lt capacity.toNat_lt)

/-! ## One call -/

/-- The concrete ring holds the packets of the FIFO. -/
structure Related (capacity : UInt32) (psr : PsRing) (queue : List Mbuf) : Prop where
  capacity_eq : psr.capacity = capacity
  usable_eq : psr.ring.usable = psRingCount capacity - 1
  queued : psr.ring.objs = queue
  within : queue.length ≤ capacity.toNat

/-- Conditions on a call and the state it is issued in under which the ring
answers as the FIFO does. A single enqueue misses the last packet of a capacity
that is a power of two, a bulk enqueue never fills the ring to the last entry,
and a burst that would fill a power of two falls one packet short. -/
def FifoExact (psr : PsRing) : PsCall → Prop
  | .enqueue _ => ¬ (psr.capacity.toNat.isPowerOfTwo ∧
      psr.ring.count + 1 = psr.capacity.toNat)
  | .enqueueBulk _ n => n.toNat = 0 ∨ psr.ring.count + n.toNat ≠ psr.capacity.toNat
  | .enqueueBurst _ n => ¬ (psr.capacity.toNat.isPowerOfTwo ∧
      psr.capacity.toNat ≤ psr.ring.count + n.toNat)
  | .dequeue | .dequeueBulk _ | .dequeueBurst _ | .count | .capacity => True

instance (psr : PsRing) (call : PsCall) : Decidable (FifoExact psr call) := by
  cases call <;> unfold FifoExact <;> infer_instance

/-- The packets in the ring and those of a batch can be counted in 32 bits. -/
def BatchBounded (psr : PsRing) : PsCall → Prop
  | .enqueueBulk _ n | .enqueueBurst _ n => psr.ring.count + n.toNat < 2 ^ 32
  | .enqueue _ | .dequeue | .dequeueBulk _ | .dequeueBurst _ | .count | .capacity => True

instance (psr : PsRing) (call : PsCall) : Decidable (BatchBounded psr call) := by
  cases call <;> unfold BatchBounded <;> infer_instance

theorem psring_step_capacity (psr : PsRing) (call : PsCall) :
    (psringMachine.step psr call).2.capacity = psr.capacity := by
  cases call with
  | enqueue obj =>
      simp only [psringMachine, psringEnqueue]
      split <;> rfl
  | enqueueBulk obj n =>
      simp only [psringMachine, psringEnqueueBulk]
      split <;> rfl
  | enqueueBurst obj n =>
      simp only [psringMachine, psringEnqueueBurst]
      split <;> rfl
  | dequeue | dequeueBulk n | dequeueBurst n | count | capacity => rfl

theorem psring_step_usable (psr : PsRing) (call : PsCall) :
    (psringMachine.step psr call).2.ring.usable = psr.ring.usable := by
  cases call with
  | enqueue obj =>
      simp only [psringMachine, psringEnqueue]
      split <;> simp
  | enqueueBulk obj n =>
      simp only [psringMachine, psringEnqueueBulk]
      split <;> simp
  | enqueueBurst obj n =>
      simp only [psringMachine, psringEnqueueBurst]
      split <;> simp
  | dequeue => exact psr.ring.scDequeue_usable
  | dequeueBulk n => exact psr.ring.scDequeueBulk_usable n.toNat
  | dequeueBurst n | count | capacity => rfl

/-- A count below `2 ^ 31` survives the conversion to `int`. -/
theorem toInt_toInt32_ofNat {n : Nat} (hn : n < 2 ^ 31) :
    (UInt32.ofNat n).toInt32.toInt = n := by
  rw [toInt_toInt32, UInt32.toNat_ofNat', Nat.mod_eq_of_lt (by omega), if_pos (by omega)]

section Step

variable {capacity : UInt32} {psr : PsRing} {queue : List Mbuf}

theorem Related.capacity_le_usable (hrel : Related capacity psr queue) :
    capacity.toNat ≤ psr.ring.usable + 1 := by
  have husable := hrel.usable_eq
  have hle := le_psRingCount capacity
  omega

theorem Related.isPowerOfTwo_iff (hrel : Related capacity psr queue)
    (hpos : 1 ≤ capacity.toNat) :
    capacity.toNat.isPowerOfTwo ↔ psr.ring.usable + 1 = capacity.toNat := by
  have husable := hrel.usable_eq
  have hle := le_psRingCount capacity
  rw [← psRingCount_eq_iff hpos]
  omega

theorem Related.countWord_toNat (hrel : Related capacity psr queue) :
    psr.countWord.toNat = queue.length := by
  have hcapacity := capacity.toNat_lt
  have hwithin := hrel.within
  rw [PsRing.countWord, RteRing.count, hrel.queued, UInt32.toNat_ofNat',
    Nat.mod_eq_of_lt (by omega)]

theorem Related.free_eq (hrel : Related capacity psr queue) :
    psr.ring.free = psr.ring.usable - queue.length := by
  rw [RteRing.free, hrel.queued]

/-- A single enqueue succeeds below both the capacity and the usable entries. -/
theorem psringEnqueue_spec (hrel : Related capacity psr queue)
    (hlimit : capacity.toNat ≤ psRingSizeLimit) (obj : Mbuf) :
    ((psringEnqueue psr obj).1.toInt, (psringEnqueue psr obj).2.ring.objs) =
      if queue.length < capacity.toNat ∧ queue.length < psr.ring.usable then
        (1, queue ++ [obj])
      else (0, queue) := by
  have hcount := hrel.countWord_toNat
  have hwithin := hrel.within
  unfold psRingSizeLimit at hlimit
  have htest : psr.countWord + 1 ≤ psr.capacity ↔ queue.length < capacity.toNat := by
    rw [UInt32.le_iff_toNat_le, UInt32.toNat_add, hcount, hrel.capacity_eq, UInt32.toNat_one]
    omega
  unfold psringEnqueue
  by_cases hroom : queue.length < capacity.toNat
  · rcases psr.ring.spEnqueue_cases obj with ⟨hfree, hcode, hobjs⟩ | ⟨hfull, hcode, hring⟩
    · rw [hrel.free_eq] at hfree
      rw [if_pos (htest.mpr hroom), if_pos ⟨hroom, by omega⟩]
      simp only [hcode, if_true, hobjs, hrel.queued]
      rfl
    · rw [hrel.free_eq] at hfull
      rw [if_pos (htest.mpr hroom), if_neg (by omega)]
      simp only [hcode, if_false, hring, hrel.queued]
      rfl
  · rw [if_neg (mt htest.mp hroom), if_neg (by omega)]
    simp only [hrel.queued]
    rfl

/-- A bulk enqueue succeeds strictly below the capacity. -/
theorem psringEnqueueBulk_spec (hrel : Related capacity psr queue)
    (hlimit : capacity.toNat ≤ psRingSizeLimit)
    (obj : Nat → Mbuf) (n : UInt32) (hbatch : queue.length + n.toNat < 2 ^ 32) :
    ((psringEnqueueBulk psr obj n).1.toInt, (psringEnqueueBulk psr obj n).2.ring.objs) =
      if queue.length + n.toNat < capacity.toNat then
        ((n.toNat : Int), queue ++ batch obj n.toNat)
      else (0, queue) := by
  unfold psRingSizeLimit at hlimit
  have htest : psr.countWord + n < psr.capacity ↔
      queue.length + n.toNat < capacity.toNat := by
    rw [UInt32.lt_iff_toNat_lt, UInt32.toNat_add, hrel.countWord_toNat, hrel.capacity_eq,
      Nat.mod_eq_of_lt hbatch]
  unfold psringEnqueueBulk
  by_cases hroom : queue.length + n.toNat < capacity.toNat
  · -- the usable entries are at least the capacity less one, so the ring takes the batch
    have hfree : n.toNat ≤ psr.ring.free := by
      have husable := hrel.capacity_le_usable
      rw [hrel.free_eq]
      omega
    obtain ⟨hmoved, hobjs⟩ := psr.ring.spEnqueueBulk_of_le obj hfree
    rw [if_pos (htest.mpr hroom), if_pos hroom]
    simp only [hmoved, hobjs, hrel.queued]
    rw [toInt_toInt32_ofNat (by omega)]
  · rw [if_neg (mt htest.mp hroom), if_neg hroom]
    simp only [hrel.queued]
    rfl

/-- A burst is cut to the capacity by the code and to the usable entries by the
ring. -/
theorem psringEnqueueBurst_spec (hrel : Related capacity psr queue)
    (hlimit : capacity.toNat ≤ psRingSizeLimit)
    (obj : Nat → Mbuf) (n : UInt32) (hbatch : queue.length + n.toNat < 2 ^ 32) :
    ((psringEnqueueBurst psr obj n).1.toInt, (psringEnqueueBurst psr obj n).2.ring.objs) =
      (((min (min n.toNat (capacity.toNat - queue.length))
          (psr.ring.usable - queue.length) : Nat) : Int),
        queue ++ batch obj (min (min n.toNat (capacity.toNat - queue.length))
          (psr.ring.usable - queue.length))) := by
  unfold psRingSizeLimit at hlimit
  have hcount := hrel.countWord_toNat
  have hwithin := hrel.within
  have hover : ¬ psr.countWord > psr.capacity := by
    rw [gt_iff_lt, UInt32.lt_iff_toNat_lt, hcount, hrel.capacity_eq]
    omega
  have hcut : (if psr.countWord + n > psr.capacity then psr.capacity - psr.countWord
      else n).toNat = min n.toNat (capacity.toNat - queue.length) := by
    have htest : psr.countWord + n > psr.capacity ↔
        capacity.toNat < queue.length + n.toNat := by
      rw [gt_iff_lt, UInt32.lt_iff_toNat_lt, UInt32.toNat_add, hcount, hrel.capacity_eq,
        Nat.mod_eq_of_lt hbatch]
    split
    next hlong =>
      rw [htest] at hlong
      have hle : psr.countWord ≤ psr.capacity := UInt32.not_lt.mp hover
      rw [UInt32.toNat_sub_of_le _ _ hle, hcount, hrel.capacity_eq]
      omega
    next hshort =>
      rw [htest] at hshort
      omega
  unfold psringEnqueueBurst
  rw [if_neg hover]
  simp only [hcut, RteRing.spEnqueueBurst_fst, RteRing.spEnqueueBurst_objs, hrel.free_eq,
    hrel.queued]
  rw [toInt_toInt32_ofNat (by omega)]

/-- Dequeues never differ. -/
theorem psringDequeue_spec (hrel : Related capacity psr queue) :
    (((psringDequeue psr).1.toInt, (psringDequeue psr).2.1),
        (psringDequeue psr).2.2.ring.objs) =
      (fifoMachine capacity.toNat).step queue .dequeue := by
  unfold psringDequeue RteRing.scDequeue
  rw [hrel.queued]
  cases queue with
  | nil => simp [fifoMachine, hrel.queued, RteRing.enoent]
  | cons obj rest => simp [fifoMachine, hrel.queued]

theorem psringDequeueBulk_spec (hrel : Related capacity psr queue)
    (hlimit : capacity.toNat ≤ psRingSizeLimit) (n : UInt32) :
    (((psringDequeueBulk psr n).1.toInt, (psringDequeueBulk psr n).2.1),
        (psringDequeueBulk psr n).2.2.ring.objs) =
      (fifoMachine capacity.toNat).step queue (.dequeueBulk n) := by
  have hwithin := hrel.within
  unfold psRingSizeLimit at hlimit
  simp only [psringDequeueBulk, RteRing.scDequeueBulk, hrel.queued, fifoMachine]
  by_cases hcount : n.toNat ≤ queue.length
  · simp only [hcount, if_true, RteRing.drop_objs, hrel.queued, List.length_take_of_le]
    rw [toInt_toInt32_ofNat (by omega)]
  · simp only [hcount, if_false, hrel.queued]
    rfl

theorem psringDequeueBurst_spec (hrel : Related capacity psr queue)
    (hlimit : capacity.toNat ≤ psRingSizeLimit) (n : UInt32) :
    (((psringDequeueBurst psr n).1.toInt, (psringDequeueBurst psr n).2.1),
        (psringDequeueBurst psr n).2.2.ring.objs) =
      (fifoMachine capacity.toNat).step queue (.dequeueBurst n) := by
  have hwithin := hrel.within
  unfold psRingSizeLimit at hlimit
  simp only [psringDequeueBurst, RteRing.scDequeueBurst, hrel.queued, fifoMachine,
    RteRing.drop_objs, List.length_take]
  rw [toInt_toInt32_ofNat (by omega)]

/-- A call that meets the condition is answered as by the FIFO and leaves the
packets the FIFO holds. -/
theorem psring_step_eq (hrel : Related capacity psr queue) (hpos : 1 ≤ capacity.toNat)
    (hlimit : capacity.toNat ≤ psRingSizeLimit) {call : PsCall}
    (hbatch : BatchBounded psr call) (hexact : FifoExact psr call) :
    ((psringMachine.step psr call).1, (psringMachine.step psr call).2.ring.objs) =
      (fifoMachine capacity.toNat).step queue call := by
  have hpower := hrel.isPowerOfTwo_iff hpos
  have husable := hrel.capacity_le_usable
  have hwithin := hrel.within
  cases call with
  | enqueue obj =>
      have hspec := psringEnqueue_spec hrel hlimit obj
      simp only [FifoExact, RteRing.count, hrel.queued, hrel.capacity_eq, hpower] at hexact
      simp only [psringMachine, fifoMachine]
      split at hspec
      next hroom =>
        obtain ⟨hcode, hobjs⟩ := Prod.mk.inj hspec
        rw [hcode, hobjs, if_pos hroom.1]
      next hroom =>
        obtain ⟨hcode, hobjs⟩ := Prod.mk.inj hspec
        rw [hcode, hobjs, if_neg (by omega)]
  | enqueueBulk obj n =>
      simp only [BatchBounded, RteRing.count, hrel.queued] at hbatch
      simp only [FifoExact, RteRing.count, hrel.queued, hrel.capacity_eq] at hexact
      have hspec := psringEnqueueBulk_spec hrel hlimit obj n hbatch
      simp only [psringMachine, fifoMachine]
      split at hspec
      next hroom =>
        obtain ⟨hcode, hobjs⟩ := Prod.mk.inj hspec
        rw [hcode, hobjs, if_pos (by omega)]
      next hroom =>
        obtain ⟨hcode, hobjs⟩ := Prod.mk.inj hspec
        rw [hcode, hobjs]
        -- a refused batch does not fit, unless it is empty and moves nothing anyway
        split
        next hfits =>
          have hempty : n.toNat = 0 := by omega
          simp [hempty]
        next => rfl
  | enqueueBurst obj n =>
      simp only [BatchBounded, RteRing.count, hrel.queued] at hbatch
      simp only [FifoExact, RteRing.count, hrel.queued, hrel.capacity_eq, hpower] at hexact
      obtain ⟨hcode, hobjs⟩ := Prod.mk.inj
        (psringEnqueueBurst_spec hrel hlimit obj n hbatch)
      have hcut : min (min n.toNat (capacity.toNat - queue.length))
          (psr.ring.usable - queue.length) = min n.toNat (capacity.toNat - queue.length) := by
        omega
      simp only [psringMachine, fifoMachine, hcode, hobjs, hcut]
  | dequeue => exact psringDequeue_spec hrel
  | dequeueBulk n => exact psringDequeueBulk_spec hrel hlimit n
  | dequeueBurst n => exact psringDequeueBurst_spec hrel hlimit n
  | count =>
      unfold psRingSizeLimit at hlimit
      simp only [psringMachine, fifoMachine, psringCount, hrel.queued]
      rw [(toInt_toInt32_eq_iff (by omega)).mpr hrel.countWord_toNat]
  | capacity =>
      unfold psRingSizeLimit at hlimit
      simp only [psringMachine, fifoMachine, psringCapacity, hrel.queued, hrel.capacity_eq]
      rw [(toInt_toInt32_eq_iff (by omega)).mpr rfl]

/-- A call that fails the condition is answered differently. -/
theorem psring_step_ne (hrel : Related capacity psr queue) (hpos : 1 ≤ capacity.toNat)
    (hlimit : capacity.toNat ≤ psRingSizeLimit) {call : PsCall}
    (hbatch : BatchBounded psr call) (hexact : ¬ FifoExact psr call) :
    (psringMachine.step psr call).1 ≠ ((fifoMachine capacity.toNat).step queue call).1 := by
  have hpower := hrel.isPowerOfTwo_iff hpos
  cases call with
  | enqueue obj =>
      simp only [FifoExact, RteRing.count, hrel.queued, hrel.capacity_eq, hpower,
        not_not] at hexact
      have hspec := psringEnqueue_spec hrel hlimit obj
      rw [if_neg (by omega)] at hspec
      simp only [psringMachine, fifoMachine, (Prod.mk.inj hspec).1]
      rw [if_pos (by omega)]
      simp
  | enqueueBulk obj n =>
      simp only [BatchBounded, RteRing.count, hrel.queued] at hbatch
      simp only [FifoExact, RteRing.count, hrel.queued, hrel.capacity_eq, not_or,
        not_not] at hexact
      have hspec := psringEnqueueBulk_spec hrel hlimit obj n hbatch
      rw [if_neg (by omega)] at hspec
      simp only [psringMachine, fifoMachine, (Prod.mk.inj hspec).1]
      rw [if_pos (by omega)]
      simp only [ne_eq, Prod.mk.injEq, and_true]
      omega
  | enqueueBurst obj n =>
      simp only [BatchBounded, RteRing.count, hrel.queued] at hbatch
      simp only [FifoExact, RteRing.count, hrel.queued, hrel.capacity_eq, hpower,
        not_not] at hexact
      have hspec := psringEnqueueBurst_spec hrel hlimit obj n hbatch
      -- the ring is never full to the capacity, so one packet of the FIFO's is missing
      have hbounded : queue.length ≤ psr.ring.usable := hrel.queued ▸ psr.ring.bounded
      simp only [psringMachine, fifoMachine, (Prod.mk.inj hspec).1]
      simp only [ne_eq, Prod.mk.injEq, and_true]
      omega
  | dequeue | dequeueBulk n | dequeueBurst n | count | capacity => exact absurd trivial hexact

theorem psring_step_related (hrel : Related capacity psr queue) (hpos : 1 ≤ capacity.toNat)
    (hlimit : capacity.toNat ≤ psRingSizeLimit) {call : PsCall}
    (hbatch : BatchBounded psr call) (hexact : FifoExact psr call) :
    (psringMachine.step psr call).1 = ((fifoMachine capacity.toNat).step queue call).1 ∧
      Related capacity (psringMachine.step psr call).2
        ((fifoMachine capacity.toNat).step queue call).2 := by
  have hstep := psring_step_eq hrel hpos hlimit hbatch hexact
  refine ⟨congrArg Prod.fst hstep, ?_, ?_, congrArg Prod.snd hstep,
    fifoMachine_length_le hrel.within call⟩
  · rw [psring_step_capacity, hrel.capacity_eq]
  · rw [psring_step_usable, hrel.usable_eq]

end Step

/-! ## Sequences of calls -/

/-- A sequence of calls is answered as by a FIFO of the given capacity, and the
ring holds the FIFO's packets, never more than the capacity, after every call. -/
structure BehavesAsFifo (capacity : UInt32) (calls : List PsCall) : Prop where
  answers_eq : psringMachine.answers (createPsring capacity) calls =
    (fifoMachine capacity.toNat).answers [] calls
  queued_eq : ∀ first, first <+: calls →
    (psringMachine.after (createPsring capacity) first).ring.objs =
      (fifoMachine capacity.toNat).after [] first
  count_le : ∀ first, first <+: calls →
    (psringMachine.after (createPsring capacity) first).ring.count ≤ capacity.toNat

theorem createPsring_related {capacity : UInt32} (hlimit : capacity.toNat ≤ psRingSizeLimit) :
    Related capacity (createPsring capacity) [] := by
  have hclip : ¬ capacity.toNat > psRingSizeLimit := Nat.not_lt.mpr hlimit
  refine ⟨?_, ?_, rfl, Nat.zero_le _⟩
  · simp only [createPsring, if_neg hclip]
  · simp only [createPsring, if_neg hclip, RteRing.create_usable]

/-- A packet-sized ring behaves as a FIFO of its capacity on exactly the
sequences of calls whose every call meets the condition. -/
theorem psring_behavesAsFifo_iff {capacity : UInt32} (hpos : 1 ≤ capacity.toNat)
    (hlimit : capacity.toNat ≤ psRingSizeLimit) (calls : List PsCall)
    (hbatch : psringMachine.Along BatchBounded (createPsring capacity) calls) :
    BehavesAsFifo capacity calls ↔
      psringMachine.Along FifoExact (createPsring capacity) calls := by
  have hstart := createPsring_related hlimit
  have hiff := psringMachine.answers_eq_iff_along (fifoMachine capacity.toNat)
    (fun _ _ _ hrel hbounded hexact => psring_step_related hrel hpos hlimit hbounded hexact)
    (fun _ _ _ hrel hbounded hexact => psring_step_ne hrel hpos hlimit hbounded hexact)
    hstart hbatch
  constructor
  · intro hbehaves
    exact hiff.mp hbehaves.answers_eq
  · intro halong
    have hrelated : ∀ first, first <+: calls →
        Related capacity (psringMachine.after (createPsring capacity) first)
          ((fifoMachine capacity.toNat).after [] first) := by
      intro first hfirst
      apply psringMachine.related_after (fifoMachine capacity.toNat) _ hstart
        ((hbatch.and halong).of_initial hfirst)
      intro psr queue call hrel hguard
      exact (psring_step_related hrel hpos hlimit hguard.1 hguard.2).2
    refine ⟨hiff.mpr halong, fun first hfirst => (hrelated first hfirst).queued, ?_⟩
    intro first hfirst
    rw [RteRing.count, (hrelated first hfirst).queued]
    exact (hrelated first hfirst).within

/-- Five packets offered to a ring of three, which is no power of two. -/
theorem psring_behavesAsFifo_three :
    BehavesAsFifo 3 [.enqueue ⟨0, 64⟩, .enqueueBulk (ofLengths [64]) 1,
      .enqueueBurst (ofLengths [64, 64, 64]) 3, .enqueue ⟨1, 64⟩, .dequeueBulk 2, .dequeue,
      .dequeue] :=
  (psring_behavesAsFifo_iff (by decide) (by decide) _ (by decide)).mpr (by decide)

/-- A bulk enqueue of three packets into an empty ring of three is refused. -/
theorem not_psring_behavesAsFifo :
    ¬ ∀ (capacity : UInt32), 1 ≤ capacity.toNat → capacity.toNat ≤ psRingSizeLimit →
      ∀ calls : List PsCall,
        psringMachine.Along BatchBounded (createPsring capacity) calls →
          BehavesAsFifo capacity calls := by
  intro halways
  have hanswers := (halways 3 (by decide) (by decide)
    [.enqueueBulk (ofLengths [64, 64, 64]) 3] (by decide)).answers_eq
  revert hanswers
  decide

end Libmoon.Ring
