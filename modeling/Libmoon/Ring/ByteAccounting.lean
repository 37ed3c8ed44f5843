import Libmoon.Ring.BurstLoops

/-! # Byte accounting and capacity of the byte-sized ring

Every operation keeps `bytes_used` equal to the bytes in the ring modulo
`2 ^ 32`, with one exception. The second loop of `bsring_enqueue_burst` counts
the packets that `rte_ring_sp_enqueue` refuses and overlooks those it takes,
because it reads the return value `0` as a failure. The accounting results below
are therefore about runs in which no burst reaches that test.
-/

namespace Libmoon.Ring

open Foundation

/-! ## Sums of packet lengths -/

@[simp] theorem bytes_nil : bytes [] = 0 := rfl

@[simp] theorem bytes_singleton (obj : Mbuf) : bytes [obj] = obj.pktLen.toNat := by
  simp [bytes]

@[simp] theorem bytes_append (left right : List Mbuf) :
    bytes (left ++ right) = bytes left + bytes right := by
  simp [bytes]

theorem bytes_batch_succ (obj : Nat → Mbuf) (n : Nat) :
    bytes (batch obj (n + 1)) = bytes (batch obj n) + (obj n).pktLen.toNat := by
  rw [batch_succ, bytes_append, bytes_singleton]

theorem bytes_batch_mono (obj : Nat → Mbuf) {m n : Nat} (hle : m ≤ n) :
    bytes (batch obj m) ≤ bytes (batch obj n) := by
  induction hle with
  | refl => exact Nat.le_refl _
  | step _ ih =>
      rw [bytes_batch_succ]
      omega

theorem toNat_totalSize (obj : Nat → Mbuf) (n : Nat) :
    (totalSize obj n).toNat = bytes (batch obj n) % 2 ^ 32 := by
  rw [totalSize, toNat_wordSum, List.map_map]
  rfl

theorem toNat_releaseBytes (bytesUsed : UInt32) (objs : List Mbuf) (total : Nat)
    (hused : bytesUsed.toNat = (total + bytes objs) % 2 ^ 32) :
    (releaseBytes bytesUsed objs).toNat = total % 2 ^ 32 := by
  apply toNat_foldl_sub
  rw [hused, List.map_map]
  rfl

/-! ## What one call does -/

theorem bsringEnqueue_cases (bsr : BsRing) (obj : Mbuf) :
    (bsr.bytesUsed + obj.pktLen < bsr.capacity ∧
        (bsringEnqueue bsr obj).2.ring.objs = bsr.ring.objs ++ [obj] ∧
        (bsringEnqueue bsr obj).2.bytesUsed = bsr.bytesUsed + obj.pktLen) ∨
      (bsringEnqueue bsr obj).2 = bsr := by
  unfold bsringEnqueue
  split
  next hfits =>
    rcases bsr.ring.spEnqueue_cases obj with ⟨_, hcode, hobjs⟩ | ⟨_, hcode, hring⟩
    · left
      simp only [hcode, if_true]
      exact ⟨hfits, hobjs, trivial⟩
    · right
      simp only [hcode, if_false, hring]
  next => exact .inr rfl

theorem bsringEnqueueBulk_cases (bsr : BsRing) (obj : Nat → Mbuf) (n : UInt32) :
    (bsr.bytesUsed + totalSize obj n.toNat ≤ bsr.capacity ∧ n.toNat ≤ bsr.ring.free ∧
        (bsringEnqueueBulk bsr obj n).2.ring.objs = bsr.ring.objs ++ batch obj n.toNat ∧
        (bsringEnqueueBulk bsr obj n).2.bytesUsed =
          bsr.bytesUsed + totalSize obj n.toNat) ∨
      (bsringEnqueueBulk bsr obj n).2 = bsr := by
  unfold bsringEnqueueBulk
  split
  next => exact .inr rfl
  next hfits =>
    by_cases hroom : n.toNat ≤ bsr.ring.free
    · obtain ⟨hcount, hobjs⟩ := bsr.ring.spEnqueueBulk_of_le obj hroom
      left
      simp only [hcount]
      exact ⟨UInt32.not_lt.mp hfits, hroom, hobjs, trivial⟩
    · right
      rw [bsr.ring.spEnqueueBulk_of_not_le obj hroom]
      -- nothing was moved, so the recomputed sum is empty
      simp [totalSize, wordSum]

theorem bsringDequeue_objs (bsr : BsRing) :
    (bsringDequeue bsr).2.1 ++ (bsringDequeue bsr).2.2.ring.objs = bsr.ring.objs ∧
      (bsringDequeue bsr).2.2.bytesUsed =
        releaseBytes bsr.bytesUsed (bsringDequeue bsr).2.1 := by
  by_cases hcode : bsr.ring.scDequeue.1 = 0
  · simp only [bsringDequeue, if_pos hcode]
    exact ⟨bsr.ring.scDequeue_append, trivial⟩
  · simp only [bsringDequeue, if_neg hcode]
    refine ⟨bsr.ring.scDequeue_append, ?_⟩
    simp [bsr.ring.scDequeue_of_ne hcode, releaseBytes]

theorem bsringDequeueBulk_objs (bsr : BsRing) (n : UInt32) :
    (bsringDequeueBulk bsr n).2.1 ++ (bsringDequeueBulk bsr n).2.2.ring.objs =
        bsr.ring.objs ∧
      (bsringDequeueBulk bsr n).2.2.bytesUsed =
        releaseBytes bsr.bytesUsed (bsringDequeueBulk bsr n).2.1 :=
  ⟨bsr.ring.scDequeueBulk_append n.toNat, rfl⟩

theorem bsringDequeueBurst_objs (bsr : BsRing) (n : UInt32) :
    (bsringDequeueBurst bsr n).2.1 ++ (bsringDequeueBurst bsr n).2.2.ring.objs =
        bsr.ring.objs ∧
      (bsringDequeueBurst bsr n).2.2.bytesUsed =
        releaseBytes bsr.bytesUsed (bsringDequeueBurst bsr n).2.1 :=
  ⟨bsr.ring.scDequeueBurst_append n.toNat, rfl⟩

/-- The counter is the exact number of bytes in the ring. -/
def Accounted (bsr : BsRing) : Prop := bsr.bytesUsed.toNat = bytes bsr.ring.objs

/-- The effect of a call on the packets and on the counter: it appended packets
of at most `limit` bytes and charged them, or removed packets from the front
and released their bytes. Charges and releases wrap modulo `2 ^ 32`. -/
inductive BsEffect (bsr bsr' : BsRing) (limit : Nat) : Prop where
  | append (objs : List Mbuf) (hobjs : bsr'.ring.objs = bsr.ring.objs ++ objs)
      (hused : bsr'.bytesUsed.toNat = (bsr.bytesUsed.toNat + bytes objs) % 2 ^ 32)
      (hlimit : bytes objs ≤ limit)
  | release (objs : List Mbuf) (hobjs : objs ++ bsr'.ring.objs = bsr.ring.objs)
      (hused : bsr'.bytesUsed = releaseBytes bsr.bytesUsed objs)

namespace BsEffect

variable {bsr bsr' : BsRing} {limit : Nat}

theorem of_eq (hsame : bsr' = bsr) : BsEffect bsr bsr' limit := by
  subst bsr'
  exact .release [] rfl rfl

theorem queued_le (heffect : BsEffect bsr bsr' limit) :
    bytes bsr'.ring.objs ≤ bytes bsr.ring.objs + limit := by
  cases heffect with
  | append objs hobjs hused hlimit =>
      rw [hobjs, bytes_append]
      omega
  | release objs hobjs hused =>
      rw [← hobjs, bytes_append]
      omega

/-- An exact counter stays exact as long as the bytes cannot reach `2 ^ 32`. -/
theorem accounted (heffect : BsEffect bsr bsr' limit) (hexact : Accounted bsr)
    (hbound : bytes bsr.ring.objs + limit < 2 ^ 32) : Accounted bsr' := by
  unfold Accounted at hexact ⊢
  cases heffect with
  | append objs hobjs hused hlimit =>
      rw [hused, hexact, hobjs, bytes_append]
      omega
  | release objs hobjs hused =>
      have htotal : bytes bsr.ring.objs = bytes bsr'.ring.objs + bytes objs := by
        rw [← hobjs, bytes_append, Nat.add_comm]
      have hreleased := toNat_releaseBytes bsr.bytesUsed objs (bytes bsr'.ring.objs)
        (by rw [hexact, htotal, Nat.mod_eq_of_lt (by omega)])
      rw [hused, hreleased]
      omega

end BsEffect

theorem bsringEnqueue_effect (bsr : BsRing) (obj : Mbuf) {limit : Nat}
    (hlimit : bsr.bytesUsed + obj.pktLen < bsr.capacity → obj.pktLen.toNat ≤ limit) :
    BsEffect bsr (bsringEnqueue bsr obj).2 limit := by
  rcases bsringEnqueue_cases bsr obj with ⟨hfits, hobjs, hused⟩ | hsame
  · refine .append [obj] hobjs ?_ (by simpa using hlimit hfits)
    rw [hused, UInt32.toNat_add, bytes_singleton]
  · exact .of_eq hsame

theorem bsringEnqueueBulk_effect (bsr : BsRing) (obj : Nat → Mbuf) (n : UInt32) {limit : Nat}
    (hlimit : bsr.bytesUsed + totalSize obj n.toNat ≤ bsr.capacity →
      bytes (batch obj n.toNat) ≤ limit) :
    BsEffect bsr (bsringEnqueueBulk bsr obj n).2 limit := by
  rcases bsringEnqueueBulk_cases bsr obj n with ⟨hfits, _, hobjs, hused⟩ | hsame
  · refine .append (batch obj n.toNat) hobjs ?_ (hlimit hfits)
    rw [hused, UInt32.toNat_add, toNat_totalSize]
    omega
  · exact .of_eq hsame

/-- A burst whose second loop stays idle charges exactly the prefix that the
ring took. -/
theorem bsringEnqueueBurst_effect {bsr : BsRing} {obj : Nat → Mbuf} {n : UInt32} {limit : Nat}
    (hidle : FillIdle bsr obj n)
    (hlimit : bytes (batch obj (burstNumToAdd bsr obj n).toNat) ≤ limit) :
    BsEffect bsr (bsringEnqueueBurst bsr obj n).2 limit := by
  unfold bsringEnqueueBurst
  rw [burstRun_of_idle hidle]
  refine .append _ rfl ?_ (Nat.le_trans (bytes_batch_mono obj (Nat.min_le_left _ _)) hlimit)
  simp only [burstTake, UInt32.toNat_add, toNat_totalSize, RteRing.spEnqueueBurst_fst]
  omega

theorem bsringDequeue_effect (bsr : BsRing) (limit : Nat) :
    BsEffect bsr (bsringDequeue bsr).2.2 limit :=
  .release _ (bsringDequeue_objs bsr).1 (bsringDequeue_objs bsr).2

theorem bsringDequeueBulk_effect (bsr : BsRing) (n : UInt32) (limit : Nat) :
    BsEffect bsr (bsringDequeueBulk bsr n).2.2 limit :=
  .release _ (bsringDequeueBulk_objs bsr n).1 (bsringDequeueBulk_objs bsr n).2

theorem bsringDequeueBurst_effect (bsr : BsRing) (n : UInt32) (limit : Nat) :
    BsEffect bsr (bsringDequeueBurst bsr n).2.2 limit :=
  .release _ (bsringDequeueBurst_objs bsr n).1 (bsringDequeueBurst_objs bsr n).2

/-- No call changes the capacity. -/
theorem step_capacity (bsr : BsRing) (call : BsCall) :
    (bsringMachine.step bsr call).2.capacity = bsr.capacity := by
  cases call with
  | enqueue obj =>
      simp only [bsringMachine, bsringEnqueue]
      split
      · split <;> rfl
      · rfl
  | enqueueBulk obj n =>
      simp only [bsringMachine, bsringEnqueueBulk]
      split <;> rfl
  | enqueueBurst obj n => rfl
  | dequeue =>
      simp only [bsringMachine, bsringDequeue]
      split <;> rfl
  | dequeueBulk n => rfl
  | dequeueBurst n => rfl

/-! ## Accounting over whole runs -/

/-- A burst is accounted for when it starts with signed room, so that the prefix
it selects is part of its batch, and when its second loop stays idle. -/
def BurstAccounted (bsr : BsRing) : BsCall → Prop
  | .enqueueBurst obj n => 0 ≤ bsr.bytesRemaining ∧ FillIdle bsr obj n
  | _ => True

instance (bsr : BsRing) (call : BsCall) : Decidable (BurstAccounted bsr call) := by
  cases call <;> unfold BurstAccounted <;> infer_instance

/-- The queued bytes and the bytes a call brings along stay below `2 ^ 32`. -/
def BytesBounded (bsr : BsRing) (call : BsCall) : Prop :=
  bytes bsr.ring.objs + bytes call.objs < 2 ^ 32

instance (bsr : BsRing) (call : BsCall) : Decidable (BytesBounded bsr call) :=
  inferInstanceAs (Decidable (_ < _))

theorem step_effect {bsr : BsRing} {call : BsCall} (hburst : BurstAccounted bsr call) :
    BsEffect bsr (bsringMachine.step bsr call).2 (bytes call.objs) := by
  cases call with
  | enqueue obj => exact bsringEnqueue_effect bsr obj fun _ => by simp [BsCall.objs]
  | enqueueBulk obj n => exact bsringEnqueueBulk_effect bsr obj n fun _ => Nat.le_refl _
  | enqueueBurst obj n =>
      obtain ⟨hroom, hidle⟩ := hburst
      exact bsringEnqueueBurst_effect hidle (bytes_batch_mono obj (burstNumToAdd_le hroom))
  | dequeue => exact bsringDequeue_effect bsr _
  | dequeueBulk n => exact bsringDequeueBulk_effect bsr n _
  | dequeueBurst n => exact bsringDequeueBurst_effect bsr n _

/-- In every run in which no burst reaches the inverted test of the second loop,
`bytes_used` is after every call the sum of the lengths of exactly the packets
in the ring. -/
theorem bytesUsed_eq_bytes_queued (capacity : UInt32) (calls : List BsCall)
    (hbytes : bsringMachine.Along BytesBounded (createBsring capacity) calls)
    (hburst : bsringMachine.Along BurstAccounted (createBsring capacity) calls) :
    ∀ first, first <+: calls →
      (bsringMachine.after (createBsring capacity) first).bytesUsed.toNat =
        bytes (bsringMachine.after (createBsring capacity) first).ring.objs := by
  intro first hfirst
  have hstep : ∀ bsr call, Accounted bsr → BytesBounded bsr call ∧ BurstAccounted bsr call →
      Accounted (bsringMachine.step bsr call).2 := by
    intro bsr call hexact hguard
    exact (step_effect hguard.2).accounted hexact hguard.1
  exact bsringMachine.invariant_after_initial hstep rfl (hbytes.and hburst) hfirst

/-- A burst that leaves 40 of 1000 bytes free, a short dequeue and another burst. -/
theorem bytesUsed_eq_bytes_queued_mixed :
    let calls : List BsCall := [.enqueueBurst (ofLengths [900, 60]) 2, .dequeue,
      .enqueueBulk (ofLengths [500, 100]) 2, .enqueue ⟨7, 64⟩]
    ∀ first, first <+: calls →
      (bsringMachine.after (createBsring 1000) first).bytesUsed.toNat =
        bytes (bsringMachine.after (createBsring 1000) first).ring.objs :=
  bytesUsed_eq_bytes_queued 1000 _ (by decide) (by decide)

/-- Of packets of 900, 200 and 60 bytes a ring of 1000 bytes takes the first and
the last, but counts only the first. -/
theorem bytesUsed_ne_bytes_queued_burst :
    ¬ ∀ (capacity : UInt32) (calls : List BsCall),
      bsringMachine.Along BytesBounded (createBsring capacity) calls →
      ∀ first, first <+: calls →
        (bsringMachine.after (createBsring capacity) first).bytesUsed.toNat =
          bytes (bsringMachine.after (createBsring capacity) first).ring.objs := by
  intro halways
  have hburst := halways 1000 [.enqueueBurst (ofLengths [900, 200, 60]) 3] (by decide)
    _ (List.prefix_refl _)
  revert hburst
  decide

/-! ## The byte limit over whole runs -/

/-- The test by which a call admits packets is not fooled by 32-bit arithmetic:
a sum that passes has not wrapped, the signed scan of a burst is exact, and the
second loop stays idle. -/
def LimitChecked (bsr : BsRing) : BsCall → Prop
  | .enqueue obj => bsr.bytesUsed + obj.pktLen < bsr.capacity →
      bsr.bytesUsed.toNat + obj.pktLen.toNat < 2 ^ 32
  | .enqueueBulk obj n => bsr.bytesUsed + totalSize obj n.toNat ≤ bsr.capacity →
      bsr.bytesUsed.toNat + bytes (batch obj n.toNat) < 2 ^ 32
  | .enqueueBurst obj n => 0 ≤ bsr.bytesRemaining ∧
      ScanExact obj (List.range n.toNat) bsr.bytesRemaining.toInt ∧ FillIdle bsr obj n
  | .dequeue | .dequeueBulk _ | .dequeueBurst _ => True

instance (bsr : BsRing) (call : BsCall) : Decidable (LimitChecked bsr call) := by
  cases call <;> unfold LimitChecked <;> infer_instance

/-- The counter is exact and within the capacity. -/
def WithinLimit (bsr : BsRing) : Prop :=
  Accounted bsr ∧ bytes bsr.ring.objs ≤ bsr.capacity.toNat

/-- The signed count a burst starts with is the number of free bytes. -/
theorem toInt_bytesRemaining {bsr : BsRing} (hlimit : WithinLimit bsr)
    (hroom : 0 ≤ bsr.bytesRemaining) :
    bsr.bytesRemaining.toInt = (bsr.capacity.toNat - bytes bsr.ring.objs : Nat) := by
  obtain ⟨hexact, hwithin⟩ := hlimit
  rw [Accounted] at hexact
  have hcapacity := bsr.capacity.toNat_lt
  have hfree : (bsr.capacity - bsr.bytesUsed).toNat =
      bsr.capacity.toNat - bytes bsr.ring.objs := by
    rw [UInt32.toNat_sub, hexact]
    omega
  rw [Int32.le_iff_toInt_le, Int32.toInt_zero] at hroom
  unfold BsRing.bytesRemaining at hroom ⊢
  rw [toInt_toInt32, hfree] at hroom ⊢
  split at hroom <;> omega

/-- A call whose admission test is sound appends no more than the free bytes. -/
theorem step_effect_within {bsr : BsRing} {call : BsCall} (hlimit : WithinLimit bsr)
    (hchecked : LimitChecked bsr call) :
    BsEffect bsr (bsringMachine.step bsr call).2
      (bsr.capacity.toNat - bytes bsr.ring.objs) := by
  have hexact : bsr.bytesUsed.toNat = bytes bsr.ring.objs := hlimit.1
  cases call with
  | enqueue obj =>
      refine bsringEnqueue_effect bsr obj fun hfits => ?_
      have hsum := hchecked hfits
      rw [UInt32.lt_iff_toNat_lt, UInt32.toNat_add, Nat.mod_eq_of_lt hsum] at hfits
      omega
  | enqueueBulk obj n =>
      refine bsringEnqueueBulk_effect bsr obj n fun hfits => ?_
      have hsum := hchecked hfits
      rw [UInt32.le_iff_toNat_le, UInt32.toNat_add, toNat_totalSize,
        Nat.mod_eq_of_lt (show bytes (batch obj n.toNat) < 2 ^ 32 by omega),
        Nat.mod_eq_of_lt hsum] at hfits
      omega
  | enqueueBurst obj n =>
      obtain ⟨hroom, hscan, hidle⟩ := hchecked
      refine bsringEnqueueBurst_effect hidle ?_
      have hselected := bytes_burstNumToAdd_le hroom hscan
      rw [toInt_bytesRemaining hlimit hroom] at hselected
      omega
  | dequeue => exact bsringDequeue_effect bsr _
  | dequeueBulk n => exact bsringDequeueBulk_effect bsr n _
  | dequeueBurst n => exact bsringDequeueBurst_effect bsr n _

theorem step_withinLimit {bsr : BsRing} {call : BsCall} (hlimit : WithinLimit bsr)
    (hchecked : LimitChecked bsr call) : WithinLimit (bsringMachine.step bsr call).2 := by
  have heffect := step_effect_within hlimit hchecked
  obtain ⟨hexact, hwithin⟩ := hlimit
  have hcapacity := bsr.capacity.toNat_lt
  have hqueued := heffect.queued_le
  refine ⟨heffect.accounted hexact (by omega), ?_⟩
  rw [step_capacity]
  omega

/-- In every run whose admission tests are sound the bytes in the ring never
exceed the capacity it was created with. -/
theorem bytes_queued_le_capacity (capacity : UInt32) (calls : List BsCall)
    (hchecked : bsringMachine.Along LimitChecked (createBsring capacity) calls) :
    ∀ first, first <+: calls →
      bytes (bsringMachine.after (createBsring capacity) first).ring.objs ≤
        capacity.toNat := by
  intro first hfirst
  have hstep : ∀ bsr call, WithinLimit bsr ∧ bsr.capacity = capacity →
      LimitChecked bsr call → WithinLimit (bsringMachine.step bsr call).2 ∧
        (bsringMachine.step bsr call).2.capacity = capacity := by
    intro bsr call hbsr hcall
    refine ⟨step_withinLimit hbsr.1 hcall, ?_⟩
    rw [step_capacity, hbsr.2]
  have hstart : WithinLimit (createBsring capacity) ∧
      (createBsring capacity).capacity = capacity := ⟨⟨rfl, Nat.zero_le _⟩, rfl⟩
  obtain ⟨⟨_, hwithin⟩, hcapacity⟩ :=
    bsringMachine.invariant_after_initial hstep hstart hchecked hfirst
  rwa [hcapacity] at hwithin

/-- Three admissions into 1000 bytes, one of them refused. -/
theorem bytes_queued_le_capacity_mixed :
    let calls : List BsCall := [.enqueueBurst (ofLengths [500, 480, 300]) 3,
      .enqueueBulk (ofLengths [64, 64]) 2, .dequeue, .enqueue ⟨9, 64⟩]
    ∀ first, first <+: calls →
      bytes (bsringMachine.after (createBsring 1000) first).ring.objs ≤
        (1000 : UInt32).toNat :=
  bytes_queued_le_capacity 1000 _ (by decide)

/-- The 60 bytes a burst took without counting them are missing from the next
test: 1050 bytes end up in a ring of 1000. -/
theorem bytes_queued_gt_capacity_burst :
    ¬ ∀ (capacity : UInt32) (calls : List BsCall), ∀ first, first <+: calls →
      bytes (bsringMachine.after (createBsring capacity) first).ring.objs ≤
        capacity.toNat := by
  intro halways
  have hburst := halways 1000
    [.enqueueBurst (ofLengths [900, 200, 60]) 3, .enqueue ⟨9, 90⟩] _ (List.prefix_refl _)
  revert hburst
  decide

end Libmoon.Ring
