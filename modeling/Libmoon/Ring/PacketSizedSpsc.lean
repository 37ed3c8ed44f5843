import Libmoon.Foundation.Interleaving
import Libmoon.Ring.PacketSized

/-! # One producer and one consumer on a packet-sized ring

The producer calls the enqueue functions, the consumer the dequeue functions.
Reading the number of packets and every operation of the DPDK ring are
indivisible steps, so the consumer can move between the producer's test and its
enqueue. The ring can only have become shorter by then.
-/

namespace Libmoon.Ring.PsSpsc

open Foundation

/-- The calls of the producer. -/
inductive EnqueueCall where
  | enqueue (obj : Mbuf)
  | enqueueBulk (obj : Nat → Mbuf) (n : UInt32)
  | enqueueBurst (obj : Nat → Mbuf) (n : UInt32)

/-- The packets a call brings along. -/
def EnqueueCall.obj : EnqueueCall → Nat → Mbuf
  | .enqueue obj => fun _ => obj
  | .enqueueBulk obj _ | .enqueueBurst obj _ => obj

def EnqueueCall.n : EnqueueCall → UInt32
  | .enqueue _ => 1
  | .enqueueBulk _ n | .enqueueBurst _ n => n

/-- The rest of an enqueue function once `rte_ring_count` has returned. -/
def enqueueCounted (psr : PsRing) (count : UInt32) : EnqueueCall → Int32 × PsRing
  | .enqueue obj =>
      if count + 1 ≤ psr.capacity then
        let added := psr.ring.spEnqueue obj
        (if added.1 = 0 then 1 else 0, { psr with ring := added.2 })
      else (0, psr)
  | .enqueueBulk obj n =>
      if count + n < psr.capacity then
        let added := psr.ring.spEnqueueBulk obj n.toNat
        ((UInt32.ofNat added.1).toInt32, { psr with ring := added.2 })
      else (0, psr)
  | .enqueueBurst obj n =>
      if count > psr.capacity then
        (0, psr)
      else
        let numToAdd := if count + n > psr.capacity then psr.capacity - count else n
        let added := psr.ring.spEnqueueBurst obj numToAdd.toNat
        ((UInt32.ofNat added.1).toInt32, { psr with ring := added.2 })

/-- The calls of the consumer. -/
inductive DequeueCall where
  | dequeue
  | dequeueBulk (n : UInt32)
  | dequeueBurst (n : UInt32)

def dequeueCall (psr : PsRing) : DequeueCall → Int32 × List Mbuf × PsRing
  | .dequeue => psringDequeue psr
  | .dequeueBulk n => psringDequeueBulk psr n
  | .dequeueBurst n => psringDequeueBurst psr n

/-- Where the producer stands in its call. -/
inductive Producer where
  | idle
  /-- `rte_ring_count` has returned -/
  | counted (count : UInt32) (call : EnqueueCall)

/-- The ring and, oldest first, the packets that were reported as accepted and
those that were dequeued. -/
structure State where
  psr : PsRing
  producer : Producer
  accepted : List Mbuf
  dequeued : List Mbuf

def initial (capacity : UInt32) : State where
  psr := createPsring capacity
  producer := .idle
  accepted := []
  dequeued := []

/-- The indivisible steps. -/
inductive Label where
  | ringCount (call : EnqueueCall)
  | ringEnqueue
  | ringDequeue (call : DequeueCall)

/-- The packets at the front of the batch whose number a call has returned. -/
def EnqueueCall.reported (call : EnqueueCall) (returned : Int32) : List Mbuf :=
  batch call.obj returned.toInt.toNat

/-- One step of one party. A call that its test rejects ends without a ring operation. -/
def next (state : State) : Label → Option State
  | .ringCount call =>
      match state.producer with
      | .idle => some { state with producer := .counted state.psr.countWord call }
      | .counted _ _ => none
  | .ringEnqueue =>
      match state.producer with
      | .idle => none
      | .counted count call =>
          let result := enqueueCounted state.psr count call
          some { state with
            psr := result.2
            producer := .idle
            accepted := state.accepted ++ call.reported result.1 }
  | .ringDequeue call =>
      let result := dequeueCall state.psr call
      some { state with psr := result.2.2, dequeued := state.dequeued ++ result.2.1 }

/-- The count and the packets of a batch can be added in 32 bits. -/
def CountBounded (state : State) : Label → Prop
  | .ringCount call => state.psr.ring.count + call.n.toNat < 2 ^ 32
  | .ringEnqueue | .ringDequeue _ => True

instance (state : State) (label : Label) : Decidable (CountBounded state label) := by
  cases label <;> unfold CountBounded <;> infer_instance

/-! ## The ring operations -/

/-- What an enqueue relies on: the count it has read is not below the number of
packets now in the ring, and not above the capacity. -/
structure Fresh (psr : PsRing) (count : UInt32) (call : EnqueueCall) : Prop where
  shrunk : psr.ring.count ≤ count.toNat
  within : count.toNat ≤ psr.capacity.toNat
  bounded : count.toNat + call.n.toNat < 2 ^ 32

/-- An enqueue appends what it reports and respects the capacity. -/
structure Appends (psr : PsRing) (call : EnqueueCall) (result : Int32 × PsRing) : Prop where
  objs : result.2.ring.objs = psr.ring.objs ++ call.reported result.1
  within : result.2.ring.count ≤ psr.capacity.toNat
  capacity_eq : result.2.capacity = psr.capacity

section Enqueue

variable {psr : PsRing} {count : UInt32}

/-- A call that adds nothing reports nothing. -/
theorem appends_nothing {call : EnqueueCall} (hfresh : Fresh psr count call) :
    Appends psr call (0, psr) := by
  refine ⟨?_, Nat.le_trans hfresh.shrunk hfresh.within, rfl⟩
  simp [EnqueueCall.reported]

theorem enqueue_appends {obj : Mbuf} (hfresh : Fresh psr count (.enqueue obj)) :
    Appends psr (.enqueue obj) (enqueueCounted psr count (.enqueue obj)) := by
  have hcount : psr.ring.objs.length ≤ count.toNat := hfresh.shrunk
  have hbounded : count.toNat + 1 < 2 ^ 32 := hfresh.bounded
  simp only [enqueueCounted]
  split
  next htest =>
    rw [UInt32.le_iff_toNat_le, UInt32.toNat_add, UInt32.toNat_one,
      Nat.mod_eq_of_lt hbounded] at htest
    rcases psr.ring.spEnqueue_cases obj with ⟨-, hcode, hobjs⟩ | ⟨-, hcode, hring⟩
    · refine ⟨?_, ?_, rfl⟩
      · simp only [hcode, if_true, hobjs]
        rfl
      · simp only [RteRing.count, hobjs, List.length_append, List.length_singleton]
        omega
    · simp only [hcode, if_false, hring]
      exact appends_nothing hfresh
  next => exact appends_nothing hfresh

theorem enqueueBulk_appends {obj : Nat → Mbuf} {n : UInt32}
    (hfresh : Fresh psr count (.enqueueBulk obj n))
    (hlimit : psr.capacity.toNat ≤ psRingSizeLimit) :
    Appends psr (.enqueueBulk obj n) (enqueueCounted psr count (.enqueueBulk obj n)) := by
  have hcount : psr.ring.objs.length ≤ count.toNat := hfresh.shrunk
  have hbounded : count.toNat + n.toNat < 2 ^ 32 := hfresh.bounded
  unfold psRingSizeLimit at hlimit
  simp only [enqueueCounted]
  split
  next htest =>
    rw [UInt32.lt_iff_toNat_lt, UInt32.toNat_add, Nat.mod_eq_of_lt hbounded] at htest
    have hmoved := psr.ring.spEnqueueBulk_le obj n.toNat
    have hobjs := psr.ring.spEnqueueBulk_objs obj n.toNat
    refine ⟨?_, ?_, rfl⟩
    · simp only [EnqueueCall.reported, EnqueueCall.obj]
      rw [hobjs, toInt_toInt32_ofNat (by omega), Int.toNat_natCast]
    · simp only [RteRing.count, hobjs, List.length_append, length_batch]
      omega
  next => exact appends_nothing hfresh

theorem enqueueBurst_appends {obj : Nat → Mbuf} {n : UInt32}
    (hfresh : Fresh psr count (.enqueueBurst obj n))
    (hlimit : psr.capacity.toNat ≤ psRingSizeLimit) :
    Appends psr (.enqueueBurst obj n) (enqueueCounted psr count (.enqueueBurst obj n)) := by
  have hcount : psr.ring.objs.length ≤ count.toNat := hfresh.shrunk
  have hbounded : count.toNat + n.toNat < 2 ^ 32 := hfresh.bounded
  unfold psRingSizeLimit at hlimit
  simp only [enqueueCounted]
  split
  next => exact appends_nothing hfresh
  next hover =>
    -- the subtraction is exact, since the guard before it has been passed
    have hle : count ≤ psr.capacity := UInt32.not_lt.mp hover
    have hcut : (if count + n > psr.capacity then psr.capacity - count else n).toNat ≤
        psr.capacity.toNat - count.toNat := by
      split
      next => exact Nat.le_of_eq (UInt32.toNat_sub_of_le _ _ hle)
      next hshort =>
        rw [gt_iff_lt, UInt32.lt_iff_toNat_lt, UInt32.toNat_add,
          Nat.mod_eq_of_lt hbounded] at hshort
        omega
    have hwithin := hfresh.within
    refine ⟨?_, ?_, rfl⟩
    · simp only [EnqueueCall.reported, EnqueueCall.obj, RteRing.spEnqueueBurst_fst,
        RteRing.spEnqueueBurst_objs]
      rw [toInt_toInt32_ofNat (by omega), Int.toNat_natCast]
    · simp only [RteRing.count, RteRing.spEnqueueBurst_objs, List.length_append, length_batch]
      omega

theorem enqueueCounted_appends {call : EnqueueCall} (hfresh : Fresh psr count call)
    (hlimit : psr.capacity.toNat ≤ psRingSizeLimit) :
    Appends psr call (enqueueCounted psr count call) := by
  cases call with
  | enqueue obj => exact enqueue_appends hfresh
  | enqueueBulk obj n => exact enqueueBulk_appends hfresh hlimit
  | enqueueBurst obj n => exact enqueueBurst_appends hfresh hlimit

end Enqueue

/-- A dequeue takes what it returns from the front. -/
theorem dequeueCall_spec (psr : PsRing) (call : DequeueCall) :
    (dequeueCall psr call).2.1 ++ (dequeueCall psr call).2.2.ring.objs = psr.ring.objs ∧
      (dequeueCall psr call).2.2.capacity = psr.capacity := by
  cases call with
  | dequeue => exact ⟨psr.ring.scDequeue_append, rfl⟩
  | dequeueBulk n => exact ⟨psr.ring.scDequeueBulk_append n.toNat, rfl⟩
  | dequeueBurst n => exact ⟨psr.ring.scDequeueBurst_append n.toNat, rfl⟩

/-! ## The invariant -/

/-- What is not dequeued of the accepted packets is in the ring, within the
capacity, and a producer between its two steps has read a count that is still
good. -/
structure Invariant (capacity : UInt32) (state : State) : Prop where
  capacity_eq : state.psr.capacity = (createPsring capacity).capacity
  accounted : state.accepted = state.dequeued ++ state.psr.ring.objs
  within : state.psr.ring.count ≤ state.psr.capacity.toNat
  fresh : ∀ count call, state.producer = .counted count call → Fresh state.psr count call

theorem createPsring_capacity (capacity : UInt32) :
    (createPsring capacity).capacity.toNat = min capacity.toNat psRingSizeLimit := by
  simp only [createPsring]
  split
  next hlarge =>
    rw [UInt32.toNat_ofNat', Nat.mod_eq_of_lt (by decide)]
    omega
  next hsmall => omega

theorem initial_invariant (capacity : UInt32) : Invariant capacity (initial capacity) where
  capacity_eq := rfl
  accounted := rfl
  within := Nat.zero_le _
  fresh := nofun

section Steps

variable {capacity : UInt32} {state state' : State}

theorem Invariant.limit (hinv : Invariant capacity state) :
    state.psr.capacity.toNat ≤ psRingSizeLimit := by
  rw [hinv.capacity_eq, createPsring_capacity]
  exact Nat.min_le_right _ _

theorem next_invariant {label : Label} (hinv : Invariant capacity state)
    (hbounded : CountBounded state label) (hnext : next state label = some state') :
    Invariant capacity state' := by
  obtain ⟨hcapacity, haccounted, hwithin, hfresh⟩ := id hinv
  have hlimit := hinv.limit
  cases label with
  | ringCount call =>
      unfold next at hnext
      cases hproducer : state.producer with
      | counted count call => simp [hproducer] at hnext
      | idle =>
          simp only [hproducer, Option.some.injEq] at hnext
          subst state'
          refine ⟨hcapacity, haccounted, hwithin, ?_⟩
          intro count call' hcounted
          obtain ⟨rfl, rfl⟩ := Producer.counted.inj hcounted
          unfold psRingSizeLimit at hlimit
          have hword : state.psr.countWord.toNat = state.psr.ring.count := by
            rw [PsRing.countWord, UInt32.toNat_ofNat', Nat.mod_eq_of_lt (by omega)]
          exact ⟨Nat.le_of_eq hword.symm, by rwa [hword], by rwa [hword]⟩
  | ringEnqueue =>
      unfold next at hnext
      cases hproducer : state.producer with
      | idle => simp [hproducer] at hnext
      | counted count call =>
          simp only [hproducer, Option.some.injEq] at hnext
          subst state'
          obtain ⟨hobjs, hcount, hkept⟩ :=
            enqueueCounted_appends (hfresh count call hproducer) hlimit
          refine ⟨hkept.trans hcapacity, ?_, ?_, ?_⟩
          · simp only [hobjs, haccounted, List.append_assoc]
          · simpa only [hkept] using hcount
          · intro count' call' hcounted
            cases hcounted
  | ringDequeue call =>
      obtain rfl := Option.some.inj hnext
      obtain ⟨hobjs, hkept⟩ := dequeueCall_spec state.psr call
      -- the consumer only makes the ring emptier than it was counted
      have hshorter : (dequeueCall state.psr call).2.2.ring.count ≤ state.psr.ring.count := by
        rw [RteRing.count, RteRing.count, ← hobjs, List.length_append]
        exact Nat.le_add_left _ _
      refine ⟨hkept.trans hcapacity, ?_, ?_, ?_⟩
      · simp only [haccounted, List.append_assoc, hobjs]
      · simp only [hkept]
        exact Nat.le_trans hshorter hwithin
      · intro count call' hcounted
        obtain ⟨hshrunk, hcount, hbatch⟩ := hfresh count call' hcounted
        exact ⟨Nat.le_trans hshorter hshrunk, hkept ▸ hcount, hbatch⟩

end Steps

/-- Whatever the interleaving: the ring never holds more packets than its
capacity, a burst subtracts from the capacity a count that is not larger, and
the accepted packets are the dequeued ones followed by those in the ring. -/
theorem spsc_packet_limit {capacity : UInt32} {schedule : List Label} {state : State}
    (hbounded : Guarded next CountBounded (initial capacity) schedule)
    (hrun : runSchedule next (initial capacity) schedule = some state) :
    state.psr.capacity = (createPsring capacity).capacity ∧
      state.psr.ring.count ≤ state.psr.capacity.toNat ∧
      state.psr.ring.count ≤ capacity.toNat ∧
      (∀ count obj n, state.producer = .counted count (.enqueueBurst obj n) →
        count ≤ state.psr.capacity) ∧
      state.dequeued <+: state.accepted ∧
      state.accepted = state.dequeued ++ state.psr.ring.objs := by
  have hinv : Invariant capacity state :=
    invariant_of_guarded (fun _ _ _ hinv hbounded hnext => next_invariant hinv hbounded hnext)
      (initial_invariant capacity) hbounded hrun
  refine ⟨hinv.capacity_eq, hinv.within, ?_, ?_, ?_, hinv.accounted⟩
  · apply Nat.le_trans hinv.within
    rw [hinv.capacity_eq, createPsring_capacity]
    exact Nat.min_le_left _ _
  · intro count obj n hcounted
    exact UInt32.le_iff_toNat_le.mpr (hinv.fresh count _ hcounted).within
  · exact ⟨_, hinv.accounted.symm⟩

/-- The consumer moves between the test of a burst and its enqueue. -/
def interrupted : List Label :=
  [.ringCount (.enqueueBurst (fun i => ⟨i, 64⟩) 2), .ringEnqueue,
    .ringCount (.enqueueBurst (fun i => ⟨2 + i, 64⟩) 5), .ringDequeue .dequeue, .ringEnqueue]

theorem spsc_packet_limit_interrupted :
    ∃ state, runSchedule next (initial 3) interrupted = some state ∧
      state.psr.ring.count ≤ 3 ∧ state.dequeued <+: state.accepted := by
  refine ⟨_, rfl, ?_⟩
  obtain ⟨-, -, hcount, -, hfront, -⟩ :=
    @spsc_packet_limit 3 interrupted _ (by decide) rfl
  exact ⟨hcount, hfront⟩

end Libmoon.Ring.PsSpsc
