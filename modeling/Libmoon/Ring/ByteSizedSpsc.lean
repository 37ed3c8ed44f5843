import Libmoon.Foundation.Interleaving
import Libmoon.Ring.ByteAccounting

/-! # One producer and one consumer on a byte-sized ring

The producer calls `bsring_enqueue` and `bsring_enqueue_bulk`, the consumer the
dequeue functions. Every access to the atomic `bytes_used` and every ring
operation is one indivisible step, and the two parties interleave arbitrarily.
The consumer may remove and subtract a packet before the producer has added it,
so the counter can fall below zero and wrap. It is exact up to the amounts that
either party still owes, and the producer reads it only when it owes nothing.
-/

namespace Libmoon.Ring.Spsc

open Foundation

/-- Where the producer stands in its call. -/
inductive Producer where
  /-- outside a call, about to read `bytes_used` -/
  | idle
  /-- `bsring_enqueue` has passed its test -/
  | toEnqueue (obj : Mbuf)
  /-- `bsring_enqueue_bulk` has passed its test -/
  | toEnqueueBulk (obj : Nat → Mbuf) (n : UInt32)
  /-- the ring has answered, the bytes are still to be added -/
  | toAdd (added : UInt32)

/-- The shared state. `pending` holds the packets the consumer has dequeued but
not yet subtracted; it is empty when the consumer is outside a call. -/
structure State where
  ring : RteRing Mbuf
  capacity : UInt32
  bytesUsed : UInt32
  producer : Producer
  pending : List Mbuf

/-- Both parties idle on a given ring. -/
def ofBsRing (bsr : BsRing) : State where
  ring := bsr.ring
  capacity := bsr.capacity
  bytesUsed := bsr.bytesUsed
  producer := .idle
  pending := []

/-- Both parties idle on a ring that was just created. -/
def initial (capacity : UInt32) : State := ofBsRing (createBsring capacity)

/-- The indivisible steps. -/
inductive Label where
  | readEnqueue (obj : Mbuf)
  | readEnqueueBulk (obj : Nat → Mbuf) (n : UInt32)
  | ringEnqueue
  | addBytes
  | ringDequeue
  | ringDequeueBulk (n : UInt32)
  | ringDequeueBurst (n : UInt32)
  | subtractBytes

/-- The packets a producer call brings along. -/
def Label.objs : Label → List Mbuf
  | .readEnqueue obj => [obj]
  | .readEnqueueBulk obj n => batch obj n.toNat
  | _ => []

/-- The producer's ring operation, after which it owes the bytes it moved. A
failed single enqueue ends the call. -/
def State.ringEnqueue (state : State) : Option State :=
  match state.producer with
  | .toEnqueue obj =>
      let added := state.ring.spEnqueue obj
      some { state with
        ring := added.2
        producer := if added.1 = 0 then .toAdd obj.pktLen else .idle }
  | .toEnqueueBulk obj n =>
      let added := state.ring.spEnqueueBulk obj n.toNat
      some { state with ring := added.2, producer := .toAdd (totalSize obj added.1) }
  | .idle | .toAdd _ => none

/-- The consumer's ring operation, after which it owes what it took out. -/
def State.ringDequeue (state : State) (got : List Mbuf × RteRing Mbuf) : Option State :=
  match state.pending with
  | [] => some { state with ring := got.2, pending := got.1 }
  | _ :: _ => none

/-- One step of one party. -/
def next (state : State) : Label → Option State
  | .readEnqueue obj =>
      match state.producer with
      | .idle =>
          if state.bytesUsed + obj.pktLen < state.capacity then
            some { state with producer := .toEnqueue obj }
          else some state
      | _ => none
  | .readEnqueueBulk obj n =>
      match state.producer with
      | .idle =>
          if state.bytesUsed + totalSize obj n.toNat > state.capacity then some state
          else some { state with producer := .toEnqueueBulk obj n }
      | _ => none
  | .ringEnqueue => state.ringEnqueue
  | .addBytes =>
      match state.producer with
      | .toAdd added =>
          some { state with bytesUsed := state.bytesUsed + added, producer := .idle }
      | _ => none
  | .ringDequeue => state.ringDequeue state.ring.scDequeue.2
  | .ringDequeueBulk n => state.ringDequeue (state.ring.scDequeueBulk n.toNat)
  | .ringDequeueBurst n => state.ringDequeue (state.ring.scDequeueBurst n.toNat)
  | .subtractBytes =>
      match state.pending with
      | [] => none
      | obj :: rest =>
          some { state with bytesUsed := state.bytesUsed - obj.pktLen, pending := rest }

/-! ## Calls as schedules

Run back to back, the steps of a call do what the call does on the ring without
interleaving. -/

theorem exists_schedule_enqueue (bsr : BsRing) (obj : Mbuf) :
    ∃ schedule, runSchedule next (ofBsRing bsr) schedule =
      some (ofBsRing (bsringEnqueue bsr obj).2) := by
  by_cases hfits : bsr.bytesUsed + obj.pktLen < bsr.capacity
  · by_cases hcode : (bsr.ring.spEnqueue obj).1 = 0
    · refine ⟨[.readEnqueue obj, .ringEnqueue, .addBytes], ?_⟩
      simp [runSchedule, next, State.ringEnqueue, ofBsRing, bsringEnqueue, hfits, hcode]
    · refine ⟨[.readEnqueue obj, .ringEnqueue], ?_⟩
      simp [runSchedule, next, State.ringEnqueue, ofBsRing, bsringEnqueue, hfits, hcode]
  · refine ⟨[.readEnqueue obj], ?_⟩
    simp [runSchedule, next, ofBsRing, bsringEnqueue, hfits]

theorem exists_schedule_enqueueBulk (bsr : BsRing) (obj : Nat → Mbuf) (n : UInt32) :
    ∃ schedule, runSchedule next (ofBsRing bsr) schedule =
      some (ofBsRing (bsringEnqueueBulk bsr obj n).2) := by
  by_cases hfull : bsr.capacity < bsr.bytesUsed + totalSize obj n.toNat
  · refine ⟨[.readEnqueueBulk obj n], ?_⟩
    simp [runSchedule, next, ofBsRing, bsringEnqueueBulk, hfull]
  · refine ⟨[.readEnqueueBulk obj n, .ringEnqueue, .addBytes], ?_⟩
    simp [runSchedule, next, State.ringEnqueue, ofBsRing, bsringEnqueueBulk, hfull]

/-- The consumer pays its debt packet by packet. -/
theorem runSchedule_subtractBytes (state : State) (objs : List Mbuf) :
    runSchedule next { state with pending := objs }
        (List.replicate objs.length .subtractBytes) =
      some { state with
        bytesUsed := releaseBytes state.bytesUsed objs
        pending := [] } := by
  induction objs generalizing state with
  | nil => rfl
  | cons obj rest ih =>
      simp only [List.length_cons, List.replicate_succ, runSchedule, next]
      exact ih { state with bytesUsed := state.bytesUsed - obj.pktLen }

/-- The consumer's calls differ only in the ring operation they start with. -/
theorem exists_schedule_of_dequeued {bsr bsr' : BsRing} {got : List Mbuf × RteRing Mbuf}
    {label : Label} (hlabel : next (ofBsRing bsr) label = (ofBsRing bsr).ringDequeue got)
    (hring : bsr'.ring = got.2) (hcapacity : bsr'.capacity = bsr.capacity)
    (hused : bsr'.bytesUsed = releaseBytes bsr.bytesUsed got.1) :
    ∃ schedule, runSchedule next (ofBsRing bsr) schedule = some (ofBsRing bsr') := by
  refine ⟨label :: List.replicate got.1.length .subtractBytes, ?_⟩
  have hsubtract := runSchedule_subtractBytes { ofBsRing bsr with ring := got.2 } got.1
  unfold runSchedule
  rw [hlabel]
  simp only [State.ringDequeue, ofBsRing] at hsubtract ⊢
  rw [hsubtract, hring, hcapacity, hused]

theorem exists_schedule_dequeue (bsr : BsRing) :
    ∃ schedule, runSchedule next (ofBsRing bsr) schedule =
      some (ofBsRing (bsringDequeue bsr).2.2) := by
  have hobjs : (bsringDequeue bsr).2.1 = bsr.ring.scDequeue.2.1 := by
    unfold bsringDequeue
    simp only
    split <;> rfl
  have hused := (bsringDequeue_objs bsr).2
  rw [hobjs] at hused
  refine exists_schedule_of_dequeued (show next _ .ringDequeue = _ from rfl) ?_ ?_ hused
  · unfold bsringDequeue
    simp only
    split <;> rfl
  · exact step_capacity bsr .dequeue

theorem exists_schedule_dequeueBulk (bsr : BsRing) (n : UInt32) :
    ∃ schedule, runSchedule next (ofBsRing bsr) schedule =
      some (ofBsRing (bsringDequeueBulk bsr n).2.2) :=
  exists_schedule_of_dequeued (show next _ (.ringDequeueBulk n) = _ from rfl) rfl rfl rfl

theorem exists_schedule_dequeueBurst (bsr : BsRing) (n : UInt32) :
    ∃ schedule, runSchedule next (ofBsRing bsr) schedule =
      some (ofBsRing (bsringDequeueBurst bsr n).2.2) :=
  exists_schedule_of_dequeued (show next _ (.ringDequeueBurst n) = _ from rfl) rfl rfl rfl

/-! ## The invariant -/

/-- The bytes the producer has put into the ring but not yet added. -/
def Producer.owed : Producer → Nat
  | .toAdd added => added.toNat
  | .idle | .toEnqueue _ | .toEnqueueBulk _ _ => 0

/-- The bytes the producer is admitted with but has not put into the ring. -/
def Producer.admitted : Producer → Nat
  | .toEnqueue obj => obj.pktLen.toNat
  | .toEnqueueBulk obj n => bytes (batch obj n.toNat)
  | .idle | .toAdd _ => 0

/-- The counter plus what the producer owes is the ring plus what the consumer
owes, modulo `2 ^ 32`; and the ring, the consumer's debt and the admitted bytes
together stay within the capacity. -/
structure Invariant (capacity : UInt32) (state : State) : Prop where
  capacity_eq : state.capacity = capacity
  balanced : (state.bytesUsed.toNat + state.producer.owed) % 2 ^ 32 =
    (bytes state.ring.objs + bytes state.pending) % 2 ^ 32
  within : bytes state.ring.objs + bytes state.pending + state.producer.admitted ≤
    capacity.toNat

theorem initial_invariant (capacity : UInt32) : Invariant capacity (initial capacity) where
  capacity_eq := rfl
  balanced := rfl
  within := Nat.zero_le _

/-- An idle producer reads the bytes in the ring plus the consumer's debt. -/
theorem Invariant.bytesUsed_of_idle {capacity : UInt32} {state : State}
    (hinv : Invariant capacity state) (hidle : state.producer = .idle) :
    state.bytesUsed.toNat = bytes state.ring.objs + bytes state.pending := by
  have hcapacity := capacity.toNat_lt
  have hused := state.bytesUsed.toNat_lt
  have hbalanced := hinv.balanced
  have hwithin := hinv.within
  rw [hidle] at hbalanced hwithin
  simp only [Producer.owed, Producer.admitted] at hbalanced hwithin
  omega

/-- What the value it reads leaves room for, an idle producer may be admitted with. -/
theorem Invariant.admit {capacity : UInt32} {state : State} (hinv : Invariant capacity state)
    (hidle : state.producer = .idle) {producer : Producer} (howed : producer.owed = 0)
    (hroom : state.bytesUsed.toNat + producer.admitted ≤ capacity.toNat) :
    Invariant capacity { state with producer := producer } := by
  have hread := hinv.bytesUsed_of_idle hidle
  refine ⟨hinv.capacity_eq, ?_, ?_⟩
  · rw [howed, hread, Nat.add_zero]
  · rw [← hread]
    exact hroom

/-- Taking packets out of the ring moves their bytes to the consumer's debt. -/
theorem ringDequeue_invariant {capacity : UInt32} {state state' : State}
    {got : List Mbuf × RteRing Mbuf} (hinv : Invariant capacity state)
    (hgot : got.1 ++ got.2.objs = state.ring.objs)
    (hnext : state.ringDequeue got = some state') : Invariant capacity state' := by
  unfold State.ringDequeue at hnext
  cases hpending : state.pending with
  | cons obj rest => simp [hpending] at hnext
  | nil =>
      simp only [hpending, Option.some.injEq] at hnext
      subst state'
      have htotal : bytes state.ring.objs = bytes got.1 + bytes got.2.objs := by
        rw [← hgot, bytes_append]
      obtain ⟨hcapacity, hbalanced, hwithin⟩ := hinv
      rw [hpending, bytes_nil] at hbalanced hwithin
      refine ⟨hcapacity, ?_, ?_⟩
      · simp only
        omega
      · simp only
        omega

/-- Putting packets into the ring turns admitted bytes into owed ones. -/
theorem ringEnqueue_invariant {capacity : UInt32} {state state' : State}
    (hinv : Invariant capacity state) (hnext : state.ringEnqueue = some state') :
    Invariant capacity state' := by
  obtain ⟨hcapacity, hbalanced, hwithin⟩ := hinv
  unfold State.ringEnqueue at hnext
  cases hproducer : state.producer with
  | idle => simp [hproducer] at hnext
  | toAdd added => simp [hproducer] at hnext
  | toEnqueue obj =>
      simp only [hproducer, Option.some.injEq] at hnext
      subst state'
      rw [hproducer] at hbalanced hwithin
      simp only [Producer.owed, Producer.admitted] at hbalanced hwithin
      -- a full ring drops the admission, a free one turns it into a debt
      rcases state.ring.spEnqueue_cases obj with ⟨_, hcode, hobjs⟩ | ⟨_, hcode, hring⟩
      · refine ⟨hcapacity, ?_, ?_⟩
        · simp only [hcode, if_true, hobjs, bytes_append, bytes_singleton, Producer.owed]
          omega
        · simp only [hcode, if_true, hobjs, bytes_append, bytes_singleton, Producer.admitted]
          omega
      · refine ⟨hcapacity, ?_, ?_⟩
        · simpa only [hcode, if_false, hring, Producer.owed] using hbalanced
        · simp only [hcode, if_false, hring, Producer.admitted]
          omega
  | toEnqueueBulk obj n =>
      simp only [hproducer, Option.some.injEq] at hnext
      subst state'
      rw [hproducer] at hbalanced hwithin
      simp only [Producer.owed, Producer.admitted] at hbalanced hwithin
      have hmoved := bytes_batch_mono obj (state.ring.spEnqueueBulk_le obj n.toNat)
      refine ⟨hcapacity, ?_, ?_⟩
      · simp only [state.ring.spEnqueueBulk_objs, bytes_append, Producer.owed, toNat_totalSize]
        omega
      · simp only [state.ring.spEnqueueBulk_objs, bytes_append, Producer.admitted]
        omega

theorem next_invariant {capacity : UInt32} {state state' : State} {label : Label}
    (hinv : Invariant capacity state) (hbatch : capacity.toNat + bytes label.objs < 2 ^ 32)
    (hnext : next state label = some state') : Invariant capacity state' := by
  cases label with
  | readEnqueue obj =>
      unfold next at hnext
      cases hproducer : state.producer with
      | toEnqueue obj | toEnqueueBulk obj n | toAdd added => simp [hproducer] at hnext
      | idle =>
          simp only [hproducer] at hnext
          split at hnext
          next hfits =>
            obtain rfl := Option.some.inj hnext
            have hwithin := hinv.within
            simp only [Label.objs, bytes_singleton] at hbatch
            rw [UInt32.lt_iff_toNat_lt, UInt32.toNat_add, hinv.capacity_eq,
              hinv.bytesUsed_of_idle hproducer] at hfits
            apply hinv.admit hproducer rfl
            rw [hinv.bytesUsed_of_idle hproducer, Producer.admitted]
            omega
          next =>
            obtain rfl := Option.some.inj hnext
            exact hinv
  | readEnqueueBulk obj n =>
      unfold next at hnext
      cases hproducer : state.producer with
      | toEnqueue obj | toEnqueueBulk obj n | toAdd added => simp [hproducer] at hnext
      | idle =>
          simp only [hproducer] at hnext
          split at hnext
          next =>
            obtain rfl := Option.some.inj hnext
            exact hinv
          next hfits =>
            obtain rfl := Option.some.inj hnext
            have hwithin := hinv.within
            simp only [Label.objs] at hbatch
            rw [gt_iff_lt, UInt32.not_lt, UInt32.le_iff_toNat_le, UInt32.toNat_add,
              toNat_totalSize, hinv.capacity_eq, hinv.bytesUsed_of_idle hproducer] at hfits
            apply hinv.admit hproducer rfl
            rw [hinv.bytesUsed_of_idle hproducer, Producer.admitted]
            omega
  | ringEnqueue => exact ringEnqueue_invariant hinv hnext
  | addBytes =>
      obtain ⟨hcapacity, hbalanced, hwithin⟩ := hinv
      unfold next at hnext
      cases hproducer : state.producer with
      | idle | toEnqueue obj | toEnqueueBulk obj n => simp [hproducer] at hnext
      | toAdd added =>
          simp only [hproducer, Option.some.injEq] at hnext
          subst state'
          rw [hproducer] at hbalanced hwithin
          simp only [Producer.owed, Producer.admitted] at hbalanced hwithin
          refine ⟨hcapacity, ?_, hwithin⟩
          simp only [Producer.owed, UInt32.toNat_add]
          omega
  | ringDequeue => exact ringDequeue_invariant hinv state.ring.scDequeue_append hnext
  | ringDequeueBulk n =>
      exact ringDequeue_invariant hinv (state.ring.scDequeueBulk_append n.toNat) hnext
  | ringDequeueBurst n =>
      exact ringDequeue_invariant hinv (state.ring.scDequeueBurst_append n.toNat) hnext
  | subtractBytes =>
      obtain ⟨hcapacity, hbalanced, hwithin⟩ := hinv
      unfold next at hnext
      cases hpending : state.pending with
      | nil => simp [hpending] at hnext
      | cons obj rest =>
          simp only [hpending, Option.some.injEq] at hnext
          subst state'
          -- the subtraction wraps while the producer still owes these bytes
          have hdebt : bytes (obj :: rest) = obj.pktLen.toNat + bytes rest := by simp [bytes]
          have hused := state.bytesUsed.toNat_lt
          have hlength := obj.pktLen.toNat_lt
          rw [hpending, hdebt] at hbalanced hwithin
          refine ⟨hcapacity, ?_, ?_⟩
          · simp only [UInt32.toNat_sub]
            omega
          · simp only
            omega

/-! ## Every interleaving -/

/-- The schedules of a ring whose batches cannot overflow the test. -/
def Interleaving (capacity : UInt32) (schedule : List Label) (state : State) : Prop :=
  (∀ label ∈ schedule, capacity.toNat + bytes label.objs < 2 ^ 32) ∧
    runSchedule next (initial capacity) schedule = some state

theorem Interleaving.invariant {capacity : UInt32} {schedule : List Label} {state : State}
    (hrun : Interleaving capacity schedule state) : Invariant capacity state :=
  invariant_of_schedule (fun _ _ _ hinv hbatch hnext => next_invariant hinv hbatch hnext)
    (initial_invariant capacity) hrun.1 hrun.2

/-- The value an idle producer is about to read is at least the number of bytes
in the ring, the ring never exceeds the capacity, and the counter is exact
whenever both parties are outside their operations; in between it can lie below
zero modulo `2 ^ 32`. -/
theorem spsc_byte_limit :
    (∀ (capacity : UInt32) (schedule : List Label) (state : State),
      Interleaving capacity schedule state →
        (state.producer = .idle → bytes state.ring.objs ≤ state.bytesUsed.toNat) ∧
        bytes state.ring.objs ≤ capacity.toNat ∧
        (state.producer = .idle → state.pending = [] →
          state.bytesUsed.toNat = bytes state.ring.objs)) ∧
    ∃ (capacity : UInt32) (schedule : List Label) (state : State),
      Interleaving capacity schedule state ∧ state.ring.objs = [] ∧ state.pending = [] ∧
        state.bytesUsed.toNat = 2 ^ 32 - 64 := by
  constructor
  · intro capacity schedule state hrun
    have hinv := hrun.invariant
    refine ⟨fun hidle => ?_, ?_, fun hidle hpending => ?_⟩
    · rw [hinv.bytesUsed_of_idle hidle]
      exact Nat.le_add_right _ _
    · have hwithin := hinv.within
      omega
    · rw [hinv.bytesUsed_of_idle hidle, hpending, bytes_nil, Nat.add_zero]
  · -- the consumer removes and subtracts a packet the producer has not yet added
    refine ⟨1000, [.readEnqueue ⟨0, 64⟩, .ringEnqueue, .ringDequeue, .subtractBytes],
      _, ⟨by decide, rfl⟩, ?_, ?_, ?_⟩ <;> decide

end Libmoon.Ring.Spsc
