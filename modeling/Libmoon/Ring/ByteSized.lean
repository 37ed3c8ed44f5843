import Libmoon.Foundation.Machine
import Libmoon.Foundation.Word32
import Libmoon.Ring.RteRing

/-! # The byte-sized ring

`bytesizedring.cpp` wraps a DPDK ring in a structure whose capacity limits the
number of bytes it holds. All counters are 32-bit words: `capacity`,
`bytes_used` and the packet lengths are unsigned, and `bytes_remaining` in the
burst path is a signed `int`. A call runs from beginning to end before the next
one starts; interleaved calls are modelled in `ByteSizedSpsc`.
-/

namespace Libmoon.Ring

open Foundation

/-- A packet buffer as the rings see it: its address and its length. The length
does not change while the packet is queued. -/
structure Mbuf where
  addr : Nat
  pktLen : UInt32
deriving DecidableEq, Repr

/-- Packets of the given lengths, at distinct addresses. -/
def ofLengths (lengths : List UInt32) (i : Nat) : Mbuf := ⟨i, lengths.getD i 0⟩

/-- The bytes of a list of packets, over the integers. -/
def bytes (objs : List Mbuf) : Nat := (objs.map fun obj => obj.pktLen.toNat).sum

/-- The loop `for (i=0; i<n; i++) total_size += obj[i]->pkt_len`. -/
def totalSize (obj : Nat → Mbuf) (n : Nat) : UInt32 :=
  wordSum ((batch obj n).map Mbuf.pktLen)

/-- `struct bs_ring`. -/
structure BsRing where
  ring : RteRing Mbuf
  capacity : UInt32
  bytesUsed : UInt32

/-- `BS_RING_SIZE_LIMIT`. -/
def bsRingSizeLimit : Nat := 268435455

/-- The number of ring entries `create_bsring` asks for. -/
def bsRingCount (capacity : UInt32) : Nat :=
  doubleWhile (fun count => count < capacity.toNat / 60 && count ≤ bsRingSizeLimit) 32 1

/-- `create_bsring`, when the allocations succeed. -/
def createBsring (capacity : UInt32) : BsRing where
  ring := RteRing.create (bsRingCount capacity)
  capacity := capacity
  bytesUsed := 0

/-- `bsring_enqueue_bulk`. -/
def bsringEnqueueBulk (bsr : BsRing) (obj : Nat → Mbuf) (n : UInt32) : Int32 × BsRing :=
  if bsr.bytesUsed + totalSize obj n.toNat > bsr.capacity then
    (0, bsr)
  else
    let added := bsr.ring.spEnqueueBulk obj n.toNat
    ((UInt32.ofNat added.1).toInt32,
      { bsr with
        ring := added.2
        bytesUsed := bsr.bytesUsed + totalSize obj added.1 })

/-- `bsring_enqueue`. -/
def bsringEnqueue (bsr : BsRing) (obj : Mbuf) : Int32 × BsRing :=
  if bsr.bytesUsed + obj.pktLen < bsr.capacity then
    let added := bsr.ring.spEnqueue obj
    if added.1 = 0 then
      (1, { bsr with ring := added.2, bytesUsed := bsr.bytesUsed + obj.pktLen })
    else (0, { bsr with ring := added.2 })
  else (0, bsr)

/-! ## The burst path -/

/-- The first loop of `bsring_enqueue_burst`, over the indices it still has to
visit: the bytes that remain and `num_to_add`. -/
def burstScan (obj : Nat → Mbuf) : List Nat → Int32 → UInt32 → Int32 × UInt32
  | [], remaining, numToAdd => (remaining, numToAdd)
  | i :: rest, remaining, numToAdd =>
      if 0 < remaining then
        burstScan obj rest (remaining - (obj i).pktLen.toInt32) (numToAdd + 1)
      else (remaining, numToAdd)

/-- `int bytes_remaining = bsr->capacity - bsr->bytes_used`. -/
def BsRing.bytesRemaining (bsr : BsRing) : Int32 := (bsr.capacity - bsr.bytesUsed).toInt32

/-- `num_to_add` when it is handed to the ring: the last packet scanned is
dropped again when it made the remaining bytes negative. -/
def burstNumToAdd (bsr : BsRing) (obj : Nat → Mbuf) (n : UInt32) : UInt32 :=
  let scan := burstScan obj (List.range n.toNat) bsr.bytesRemaining 0
  if scan.1 < 0 then scan.2 - 1 else scan.2

/-- The variables of the second loop. `accepted` records the indices whose
packets the ring has taken; the code has no such variable. -/
structure BurstFill where
  ring : RteRing Mbuf
  remaining : Int32
  numAdded : UInt32
  bytesAdded : UInt32
  accepted : List Nat

/-- One iteration of the second loop. A packet is counted when
`rte_ring_sp_enqueue` returns a value other than zero. -/
def BurstFill.offer (fill : BurstFill) (obj : Nat → Mbuf) (i : Nat) : BurstFill :=
  if (obj i).pktLen.toInt32 ≤ fill.remaining then
    let added := fill.ring.spEnqueue (obj i)
    if added.1 ≠ 0 then
      { ring := added.2
        remaining := fill.remaining - (obj i).pktLen.toInt32
        numAdded := fill.numAdded + 1
        bytesAdded := fill.bytesAdded + (obj i).pktLen
        accepted := fill.accepted }
    else { fill with ring := added.2, accepted := fill.accepted ++ [i] }
  else fill

/-- The second loop of `bsring_enqueue_burst`, over the indices still to try. -/
def burstFill (obj : Nat → Mbuf) : List Nat → BurstFill → BurstFill
  | [], fill => fill
  | i :: rest, fill =>
      if 60 ≤ fill.remaining then burstFill obj rest (fill.offer obj i) else fill

/-- The state after the prefix has been handed to the ring. -/
def burstTake (bsr : BsRing) (obj : Nat → Mbuf) (n : UInt32) : BurstFill :=
  let added := bsr.ring.spEnqueueBurst obj (burstNumToAdd bsr obj n).toNat
  { ring := added.2
    remaining := (bsr.capacity - bsr.bytesUsed - totalSize obj added.1).toInt32
    numAdded := UInt32.ofNat added.1
    bytesAdded := totalSize obj added.1
    accepted := List.range added.1 }

/-- The indices the second loop runs over. -/
def burstRest (bsr : BsRing) (obj : Nat → Mbuf) (n : UInt32) : List Nat :=
  List.range' (burstNumToAdd bsr obj n).toNat (n.toNat - (burstNumToAdd bsr obj n).toNat)

/-- Both phases of a burst. -/
def burstRun (bsr : BsRing) (obj : Nat → Mbuf) (n : UInt32) : BurstFill :=
  let taken := burstTake bsr obj n
  if taken.numAdded < n then burstFill obj (burstRest bsr obj n) taken else taken

/-- `bsring_enqueue_burst`. -/
def bsringEnqueueBurst (bsr : BsRing) (obj : Nat → Mbuf) (n : UInt32) : Int32 × BsRing :=
  let fill := burstRun bsr obj n
  (fill.numAdded.toInt32,
    { bsr with ring := fill.ring, bytesUsed := bsr.bytesUsed + fill.bytesAdded })

/-! ## Dequeueing -/

/-- The loop that subtracts the length of every dequeued packet. -/
def releaseBytes (bytesUsed : UInt32) (objs : List Mbuf) : UInt32 :=
  (objs.map Mbuf.pktLen).foldl (· - ·) bytesUsed

/-- `bsring_dequeue_burst`: the return value, the packets stored through `obj`
and the ring. -/
def bsringDequeueBurst (bsr : BsRing) (n : UInt32) : Int32 × List Mbuf × BsRing :=
  let got := bsr.ring.scDequeueBurst n.toNat
  ((UInt32.ofNat got.1.length).toInt32, got.1,
    { bsr with ring := got.2, bytesUsed := releaseBytes bsr.bytesUsed got.1 })

/-- `bsring_dequeue_bulk`. -/
def bsringDequeueBulk (bsr : BsRing) (n : UInt32) : Int32 × List Mbuf × BsRing :=
  let got := bsr.ring.scDequeueBulk n.toNat
  ((UInt32.ofNat got.1.length).toInt32, got.1,
    { bsr with ring := got.2, bytesUsed := releaseBytes bsr.bytesUsed got.1 })

/-- `bsring_dequeue`. -/
def bsringDequeue (bsr : BsRing) : Int32 × List Mbuf × BsRing :=
  let got := bsr.ring.scDequeue
  if got.1 = 0 then
    (1, got.2.1, { bsr with ring := got.2.2, bytesUsed := releaseBytes bsr.bytesUsed got.2.1 })
  else (0, got.2.1, { bsr with ring := got.2.2 })

/-! ## Sequences of calls -/

/-- The calls of the byte-sized ring that change it. -/
inductive BsCall where
  | enqueue (obj : Mbuf)
  | enqueueBulk (obj : Nat → Mbuf) (n : UInt32)
  | enqueueBurst (obj : Nat → Mbuf) (n : UInt32)
  | dequeue
  | dequeueBulk (n : UInt32)
  | dequeueBurst (n : UInt32)

/-- The packets a call brings along. -/
def BsCall.objs : BsCall → List Mbuf
  | .enqueue obj => [obj]
  | .enqueueBulk obj n | .enqueueBurst obj n => batch obj n.toNat
  | .dequeue | .dequeueBulk _ | .dequeueBurst _ => []

/-- The byte-sized ring as a machine. An answer is the return value and the
packets stored through `obj`. -/
def bsringMachine : Machine BsRing BsCall (Int32 × List Mbuf) where
  step bsr call :=
    match call with
    | .enqueue obj => (((bsringEnqueue bsr obj).1, []), (bsringEnqueue bsr obj).2)
    | .enqueueBulk obj n =>
        (((bsringEnqueueBulk bsr obj n).1, []), (bsringEnqueueBulk bsr obj n).2)
    | .enqueueBurst obj n =>
        (((bsringEnqueueBurst bsr obj n).1, []), (bsringEnqueueBurst bsr obj n).2)
    | .dequeue => (((bsringDequeue bsr).1, (bsringDequeue bsr).2.1), (bsringDequeue bsr).2.2)
    | .dequeueBulk n =>
        (((bsringDequeueBulk bsr n).1, (bsringDequeueBulk bsr n).2.1),
          (bsringDequeueBulk bsr n).2.2)
    | .dequeueBurst n =>
        (((bsringDequeueBurst bsr n).1, (bsringDequeueBurst bsr n).2.1),
          (bsringDequeueBurst bsr n).2.2)

end Libmoon.Ring
