import Libmoon.Ring.ByteAccounting

/-! # What a burst enqueue hands over and what it reports

The caller of `bsring_enqueue_burst` learns one number and keeps, or frees, the
packets behind it. That is safe when the ring took exactly the first so many
packets of the batch. The calls for which it is safe are characterised exactly:
the batch must be scanned with signed room, and the second loop must not offer
packets, up to one coincidence in which as many offers are refused as accepted.
-/

namespace Libmoon.Ring

open Foundation

/-- The indices the second loop offers to a ring with `slots` free entries. The
first `slots` offers are accepted and leave the remaining bytes as they were;
the later ones are refused and counted. -/
def fillOffers (obj : Nat → Mbuf) : List Nat → Nat → Int32 → List Nat
  | [], _, _ => []
  | i :: rest, slots, remaining =>
      if 60 ≤ remaining then
        if (obj i).pktLen.toInt32 ≤ remaining then
          i :: fillOffers obj rest (slots - 1)
            (if slots = 0 then remaining - (obj i).pktLen.toInt32 else remaining)
        else fillOffers obj rest slots remaining
      else []

theorem fillOffers_sublist (obj : Nat → Mbuf) (indices : List Nat) (slots : Nat)
    (remaining : Int32) : (fillOffers obj indices slots remaining).Sublist indices := by
  induction indices generalizing slots remaining with
  | nil => exact List.Sublist.refl []
  | cons i rest ih =>
      unfold fillOffers
      split
      next =>
        split
        next => exact (ih _ _).cons_cons i
        next => exact (ih _ _).cons i
      next => exact List.nil_sublist _

/-- An accepted offer enters the ring and is not counted. -/
theorem offer_of_free {fill : BurstFill} {obj : Nat → Mbuf} {i : Nat}
    (hfits : (obj i).pktLen.toInt32 ≤ fill.remaining) (hfree : 1 ≤ fill.ring.free) :
    (fill.offer obj i).ring.objs = fill.ring.objs ++ [obj i] ∧
      (fill.offer obj i).ring.free = fill.ring.free - 1 ∧
      (fill.offer obj i).remaining = fill.remaining ∧
      (fill.offer obj i).numAdded = fill.numAdded ∧
      (fill.offer obj i).accepted = fill.accepted ++ [i] := by
  rcases fill.ring.spEnqueue_cases (obj i) with ⟨_, hcode, hobjs⟩ | ⟨hfull, _, _⟩
  · simp only [BurstFill.offer, if_pos hfits, hcode, ne_eq, not_true_eq_false, if_false]
    refine ⟨hobjs, ?_, trivial, trivial, trivial⟩
    unfold RteRing.free
    rw [hobjs, RteRing.spEnqueue_usable, List.length_append, List.length_singleton]
    omega
  · omega

/-- A refused offer is counted and does not enter the ring. -/
theorem offer_of_full {fill : BurstFill} {obj : Nat → Mbuf} {i : Nat}
    (hfits : (obj i).pktLen.toInt32 ≤ fill.remaining) (hfull : fill.ring.free = 0) :
    (fill.offer obj i).ring = fill.ring ∧
      (fill.offer obj i).remaining = fill.remaining - (obj i).pktLen.toInt32 ∧
      (fill.offer obj i).numAdded = fill.numAdded + 1 ∧
      (fill.offer obj i).accepted = fill.accepted := by
  rcases fill.ring.spEnqueue_cases (obj i) with ⟨hfree, _, _⟩ | ⟨_, hcode, hring⟩
  · omega
  · simp only [BurstFill.offer, if_pos hfits, ne_eq, hcode, not_false_eq_true, if_true, hring]
    exact ⟨trivial, trivial, trivial, trivial⟩

/-- The second loop accepts the first offers, as many as there are free entries,
and counts the rest. -/
theorem burstFill_offers (obj : Nat → Mbuf) (indices : List Nat) (fill : BurstFill)
    (hbound : fill.numAdded.toNat + indices.length < 2 ^ 32) :
    (burstFill obj indices fill).accepted = fill.accepted ++
        (fillOffers obj indices fill.ring.free fill.remaining).take fill.ring.free ∧
      (burstFill obj indices fill).ring.objs = fill.ring.objs ++
        ((fillOffers obj indices fill.ring.free fill.remaining).take fill.ring.free).map obj ∧
      (burstFill obj indices fill).numAdded.toNat = fill.numAdded.toNat +
        ((fillOffers obj indices fill.ring.free fill.remaining).length - fill.ring.free) := by
  induction indices generalizing fill with
  | nil => simp [burstFill, fillOffers]
  | cons i rest ih =>
      rw [List.length_cons] at hbound
      unfold burstFill fillOffers
      by_cases hremaining : 60 ≤ fill.remaining
      · rw [if_pos hremaining, if_pos hremaining]
        by_cases hfits : (obj i).pktLen.toInt32 ≤ fill.remaining
        · rw [if_pos hfits]
          -- a full ring refuses the offer, and it is the refused offers that are counted
          by_cases hfull : fill.ring.free = 0
          · obtain ⟨hring, hrest, hcount, haccepted⟩ := offer_of_full hfits hfull
            have hsucc : (fill.numAdded + 1).toNat = fill.numAdded.toNat + 1 := by
              rw [UInt32.toNat_add, UInt32.toNat_one]
              omega
            obtain ⟨hacc, hobjs, hnum⟩ := ih (fill.offer obj i) (by rw [hcount]; omega)
            rw [hring, hrest, hfull, haccepted] at hacc
            rw [hring, hrest, hfull] at hobjs
            rw [hring, hrest, hfull, hcount, hsucc] at hnum
            rw [hacc, hobjs, hnum, hfull]
            simp only [List.take_zero, if_true, List.length_cons, Nat.zero_sub, true_and]
            omega
          · obtain ⟨hobj, hfree, hrest, hcount, haccepted⟩ := offer_of_free hfits
              (Nat.one_le_iff_ne_zero.mpr hfull)
            obtain ⟨hacc, hobjs, hnum⟩ := ih (fill.offer obj i) (by rw [hcount]; omega)
            rw [hfree, hrest, haccepted] at hacc
            rw [hfree, hrest, hobj] at hobjs
            rw [hfree, hrest, hcount] at hnum
            obtain ⟨slots, hslots⟩ : ∃ slots, fill.ring.free = slots + 1 :=
              ⟨fill.ring.free - 1, by omega⟩
            rw [hacc, hobjs, hnum, if_neg hfull, hslots]
            simp only [Nat.add_sub_cancel, List.take_succ_cons, List.map_cons,
              List.length_cons, List.append_assoc, List.singleton_append, true_and]
            omega
        · rw [if_neg hfits, offer_of_not_le hfits]
          exact ih fill (by omega)
      · rw [if_neg hremaining, if_neg hremaining]
        simp

/-! ## The contract and its exact condition -/

/-- What the caller may rely on. The call asks the ring for no packet behind the
batch, the ring's new packets are the batch at strictly increasing indices, the
return value is their number, and none of them lies at or behind it, where the
caller believes that nothing was taken. -/
structure BurstContract (bsr : BsRing) (obj : Nat → Mbuf) (n : UInt32) : Prop where
  numToAdd_le : (burstNumToAdd bsr obj n).toNat ≤ n.toNat
  appended : (bsringEnqueueBurst bsr obj n).2.ring.objs =
    bsr.ring.objs ++ (burstRun bsr obj n).accepted.map obj
  increasing : (burstRun bsr obj n).accepted.Pairwise (· < ·)
  inside : ∀ i ∈ (burstRun bsr obj n).accepted, i < n.toNat
  reported : (bsringEnqueueBurst bsr obj n).1.toInt = (burstRun bsr obj n).accepted.length
  leading : ∀ i ∈ (burstRun bsr obj n).accepted, (i : Int) < (bsringEnqueueBurst bsr obj n).1.toInt

/-- The entries still free when the prefix has been handed over. -/
def slotsAfterTake (bsr : BsRing) (obj : Nat → Mbuf) (n : UInt32) : Nat :=
  bsr.ring.free - min (burstNumToAdd bsr obj n).toNat bsr.ring.free

/-- The packets behind the prefix that qualify for the second loop. -/
def burstOffers (bsr : BsRing) (obj : Nat → Mbuf) (n : UInt32) : List Nat :=
  fillOffers obj (burstRest bsr obj n) (slotsAfterTake bsr obj n)
    (bytesRemainingAfterTake bsr obj n)

/-- The scan starts with signed room (or the batch has the length to which
`num_to_add` wraps), and no packet qualifies for the second loop. The last
disjunct is the coincidence: as many offers are refused as accepted, and the
accepted ones directly continue the prefix. -/
def HandoverExact (bsr : BsRing) (obj : Nat → Mbuf) (n : UInt32) : Prop :=
  (0 ≤ bsr.bytesRemaining ∨ n.toNat = 2 ^ 32 - 1) ∧
    (burstOffers bsr obj n = [] ∨
      (burstOffers bsr obj n).length = 2 * slotsAfterTake bsr obj n ∧
        ∀ i ∈ (burstOffers bsr obj n).take (slotsAfterTake bsr obj n),
          i < (burstNumToAdd bsr obj n).toNat + slotsAfterTake bsr obj n)

instance (bsr : BsRing) (obj : Nat → Mbuf) (n : UInt32) : Decidable (HandoverExact bsr obj n) :=
  inferInstanceAs (Decidable (_ ∧ _))

/-- The prefix the ring takes. -/
def burstTaken (bsr : BsRing) (obj : Nat → Mbuf) (n : UInt32) : Nat :=
  min (burstNumToAdd bsr obj n).toNat bsr.ring.free

theorem burstTake_free (bsr : BsRing) (obj : Nat → Mbuf) (n : UInt32) :
    (burstTake bsr obj n).ring.free = slotsAfterTake bsr obj n := by
  have hbounded := bsr.ring.bounded
  simp only [burstTake, RteRing.free, RteRing.spEnqueueBurst_objs,
    RteRing.spEnqueueBurst_usable, List.length_append, length_batch, slotsAfterTake]
  omega

theorem burstTake_numAdded {bsr : BsRing} (obj : Nat → Mbuf) (n : UInt32)
    (husable : bsr.ring.usable < 2 ^ 31) :
    (burstTake bsr obj n).numAdded.toNat = burstTaken bsr obj n := by
  simp only [burstTake, RteRing.spEnqueueBurst_fst, UInt32.toNat_ofNat', burstTaken,
    RteRing.free]
  omega

/-- The guard `num_added < n` skips the second loop only when it has nothing to
run over. -/
theorem burstRun_eq {bsr : BsRing} (obj : Nat → Mbuf) (n : UInt32)
    (husable : bsr.ring.usable < 2 ^ 31) :
    burstRun bsr obj n = burstFill obj (burstRest bsr obj n) (burstTake bsr obj n) := by
  unfold burstRun
  simp only
  split
  next => rfl
  next hall =>
    have hempty : burstRest bsr obj n = [] := by
      rw [UInt32.lt_iff_toNat_lt, burstTake_numAdded obj n husable, burstTaken] at hall
      unfold burstRest
      rw [List.range'_eq_nil_iff]
      omega
    rw [hempty]
    rfl

/-- The burst in closed form: which indices the ring accepts and how many packets
are counted. -/
theorem burstRun_offers {bsr : BsRing} (obj : Nat → Mbuf) (n : UInt32)
    (husable : bsr.ring.usable < 2 ^ 31) :
    (burstRun bsr obj n).accepted = List.range (burstTaken bsr obj n) ++
        (burstOffers bsr obj n).take (slotsAfterTake bsr obj n) ∧
      (burstRun bsr obj n).ring.objs = bsr.ring.objs ++
        (burstRun bsr obj n).accepted.map obj ∧
      (burstRun bsr obj n).numAdded.toNat = burstTaken bsr obj n +
        ((burstOffers bsr obj n).length - slotsAfterTake bsr obj n) := by
  have hn := n.toNat_lt
  have hlength : (burstRest bsr obj n).length =
      n.toNat - (burstNumToAdd bsr obj n).toNat := List.length_range'
  have hcount := burstTake_numAdded obj n husable
  have hbound : (burstTake bsr obj n).numAdded.toNat + (burstRest bsr obj n).length < 2 ^ 32 := by
    have hfree : bsr.ring.free ≤ bsr.ring.usable := Nat.sub_le _ _
    rw [hcount, hlength, burstTaken]
    omega
  have hfill := burstFill_offers obj (burstRest bsr obj n) (burstTake bsr obj n) hbound
  rw [← burstRun_eq obj n husable, burstTake_free, hcount] at hfill
  obtain ⟨haccepted, hobjs, hnum⟩ := hfill
  refine ⟨haccepted, ?_, hnum⟩
  rw [hobjs, haccepted]
  simp only [burstTake, RteRing.spEnqueueBurst_objs, batch, List.map_append,
    List.append_assoc]
  rfl

theorem burstOffers_mem {bsr : BsRing} {obj : Nat → Mbuf} {n : UInt32} {i : Nat}
    (hmem : i ∈ burstOffers bsr obj n) :
    (burstNumToAdd bsr obj n).toNat ≤ i ∧ i < n.toNat := by
  have hrest := (fillOffers_sublist obj (burstRest bsr obj n) _ _).subset hmem
  rw [burstRest, List.mem_range'_1] at hrest
  omega

theorem burstOffers_pairwise (bsr : BsRing) (obj : Nat → Mbuf) (n : UInt32) :
    (burstOffers bsr obj n).Pairwise (· < ·) := by
  apply List.Pairwise.sublist (fillOffers_sublist obj (burstRest bsr obj n) _ _)
  exact List.pairwise_lt_range'

theorem numToAdd_le_iff (bsr : BsRing) (obj : Nat → Mbuf) (n : UInt32) :
    (burstNumToAdd bsr obj n).toNat ≤ n.toNat ↔
      0 ≤ bsr.bytesRemaining ∨ n.toNat = 2 ^ 32 - 1 := by
  have hn := n.toNat_lt
  constructor
  · intro hle
    by_cases hroom : 0 ≤ bsr.bytesRemaining
    · exact .inl hroom
    · rw [burstNumToAdd_of_neg (Int32.not_le.mp hroom)] at hle
      exact .inr (by omega)
  · rintro (hroom | hmax)
    · exact burstNumToAdd_le hroom
    · have hbound := (burstNumToAdd bsr obj n).toNat_lt
      omega

theorem accepted_length {bsr : BsRing} (obj : Nat → Mbuf) (n : UInt32)
    (husable : bsr.ring.usable < 2 ^ 31) :
    (burstRun bsr obj n).accepted.length = burstTaken bsr obj n +
      min (slotsAfterTake bsr obj n) (burstOffers bsr obj n).length := by
  rw [(burstRun_offers obj n husable).1, List.length_append, List.length_range,
    List.length_take]

/-- The return value is the number of accepted packets exactly when no offer was
made or as many were refused as accepted. -/
theorem reported_iff {bsr : BsRing} (obj : Nat → Mbuf) (n : UInt32)
    (husable : bsr.ring.usable < 2 ^ 31) :
    (bsringEnqueueBurst bsr obj n).1.toInt = (burstRun bsr obj n).accepted.length ↔
      burstOffers bsr obj n = [] ∨
        (burstOffers bsr obj n).length = 2 * slotsAfterTake bsr obj n := by
  obtain ⟨_, _, hnum⟩ := burstRun_offers obj n husable
  have hlength := accepted_length obj n husable
  have hsmall : (burstRun bsr obj n).accepted.length < 2 ^ 31 := by
    have hfree : bsr.ring.free ≤ bsr.ring.usable := Nat.sub_le _ _
    rw [hlength, burstTaken, slotsAfterTake]
    omega
  unfold bsringEnqueueBurst
  rw [toInt_toInt32_eq_iff hsmall, hnum, hlength, ← List.length_eq_zero_iff]
  omega

/-- Accepted packets lie in the batch and are in order, whatever was offered. -/
theorem accepted_ordered {bsr : BsRing} (obj : Nat → Mbuf) (n : UInt32)
    (husable : bsr.ring.usable < 2 ^ 31)
    (hselected : (burstNumToAdd bsr obj n).toNat ≤ n.toNat) :
    (burstRun bsr obj n).accepted.Pairwise (· < ·) ∧
      ∀ i ∈ (burstRun bsr obj n).accepted, i < n.toNat := by
  have htaken : burstTaken bsr obj n ≤ (burstNumToAdd bsr obj n).toNat := Nat.min_le_left _ _
  rw [(burstRun_offers obj n husable).1]
  constructor
  · rw [List.pairwise_append]
    refine ⟨List.pairwise_lt_range, (burstOffers_pairwise bsr obj n).sublist
      (List.take_sublist _ _), ?_⟩
    intro i hi j hj
    have hoffer := burstOffers_mem (List.mem_of_mem_take hj)
    rw [List.mem_range] at hi
    omega
  · intro i hi
    rw [List.mem_append, List.mem_range] at hi
    rcases hi with hi | hi
    · omega
    · exact (burstOffers_mem (List.mem_of_mem_take hi)).2

theorem burstContract_iff_of_usable {bsr : BsRing} (husable : bsr.ring.usable < 2 ^ 31)
    (obj : Nat → Mbuf) (n : UInt32) :
    BurstContract bsr obj n ↔ HandoverExact bsr obj n := by
  have haccepted := (burstRun_offers obj n husable).1
  have hlength := accepted_length obj n husable
  constructor
  · intro hcontract
    refine ⟨(numToAdd_le_iff bsr obj n).mp hcontract.numToAdd_le, ?_⟩
    rcases (reported_iff obj n husable).mp hcontract.reported with hnone | htwice
    · exact .inl hnone
    · refine .inr ⟨htwice, fun i hi => ?_⟩
      have hleading := hcontract.leading i
        (by rw [haccepted]; exact List.mem_append_right _ hi)
      have htaken : burstTaken bsr obj n ≤ (burstNumToAdd bsr obj n).toNat :=
        Nat.min_le_left _ _
      rw [hcontract.reported, hlength, htwice] at hleading
      omega
  · rintro ⟨hroom, hoffers⟩
    have hselected := (numToAdd_le_iff bsr obj n).mpr hroom
    have hreported : (bsringEnqueueBurst bsr obj n).1.toInt =
        (burstRun bsr obj n).accepted.length :=
      (reported_iff obj n husable).mpr (hoffers.imp_right And.left)
    obtain ⟨hincreasing, hinside⟩ := accepted_ordered obj n husable hselected
    refine ⟨hselected, (burstRun_offers obj n husable).2.1, hincreasing, hinside,
      hreported, ?_⟩
    intro i hi
    rw [hreported, hlength]
    rw [haccepted, List.mem_append, List.mem_range] at hi
    rcases hi with hi | hi
    · omega
    · -- the coincidence: free entries are left only when the whole prefix was taken
      rcases hoffers with hnone | ⟨htwice, hcontinues⟩
      · simp [hnone] at hi
      · have hbehind := hcontinues i hi
        have hslots : 0 < slotsAfterTake bsr obj n := by
          rcases Nat.eq_zero_or_pos (slotsAfterTake bsr obj n) with hzero | hpos
          · simp [hzero] at hi
          · exact hpos
        have htaken : burstTaken bsr obj n = (burstNumToAdd bsr obj n).toNat := by
          unfold slotsAfterTake at hslots
          unfold burstTaken
          omega
        rw [htwice, htaken]
        omega

/-! ## Reachable states -/

theorem burstFill_usable (obj : Nat → Mbuf) (indices : List Nat) (fill : BurstFill) :
    (burstFill obj indices fill).ring.usable = fill.ring.usable := by
  induction indices generalizing fill with
  | nil => rfl
  | cons i rest ih =>
      unfold burstFill
      split
      next =>
        rw [ih]
        unfold BurstFill.offer
        split
        · simp only
          split <;> exact RteRing.spEnqueue_usable _ _
        · rfl
      next => rfl

theorem step_usable (bsr : BsRing) (call : BsCall) :
    (bsringMachine.step bsr call).2.ring.usable = bsr.ring.usable := by
  cases call with
  | enqueue obj =>
      simp only [bsringMachine, bsringEnqueue]
      split
      · split <;> exact RteRing.spEnqueue_usable _ _
      · rfl
  | enqueueBulk obj n =>
      simp only [bsringMachine, bsringEnqueueBulk]
      split
      · rfl
      · exact RteRing.spEnqueueBulk_usable _ _ _
  | enqueueBurst obj n =>
      simp only [bsringMachine, bsringEnqueueBurst, burstRun]
      split
      · exact burstFill_usable obj _ _
      · rfl
  | dequeue =>
      simp only [bsringMachine, bsringDequeue]
      split <;> exact RteRing.scDequeue_usable _
  | dequeueBulk n => exact RteRing.scDequeueBulk_usable _ _
  | dequeueBurst n => rfl

theorem bsRingCount_le (capacity : UInt32) : bsRingCount capacity ≤ 2 * bsRingSizeLimit := by
  apply doubleWhile_le
  · intro count hcondition
    simp only [Bool.and_eq_true, decide_eq_true_eq] at hcondition
    omega
  · decide

theorem usable_lt_of_reachable {capacity : UInt32} {bsr : BsRing}
    (hreach : bsringMachine.Reachable (createBsring capacity) bsr) :
    bsr.ring.usable < 2 ^ 31 := by
  have hstart : (createBsring capacity).ring.usable < 2 ^ 31 := by
    have hcount := bsRingCount_le capacity
    simp only [createBsring, RteRing.create_usable]
    unfold bsRingSizeLimit at hcount
    omega
  have hstep : ∀ bsr call, bsr.ring.usable < 2 ^ 31 →
      (bsringMachine.step bsr call).2.ring.usable < 2 ^ 31 := by
    intro bsr call husable
    rwa [step_usable]
  exact hreach.invariant hstep hstart

/-- In every reachable state a burst of any batch honours its contract exactly
when the condition on the state and the batch holds. -/
theorem burstContract_iff {capacity : UInt32} {bsr : BsRing}
    (hreach : bsringMachine.Reachable (createBsring capacity) bsr)
    (obj : Nat → Mbuf) (n : UInt32) :
    BurstContract bsr obj n ↔ HandoverExact bsr obj n :=
  burstContract_iff_of_usable (usable_lt_of_reachable hreach) obj n

/-- A batch of which the last packet does not fit and nothing follows it. -/
theorem burstContract_short_batch :
    BurstContract (createBsring 1000) (ofLengths [500, 480, 300]) 3 :=
  (burstContract_iff ⟨[], rfl⟩ _ _).mpr (by decide)

/-- Packets of 900, 200 and 60 bytes: the first and the last are queued, the
return value is 1, and the caller frees the queued last packet. -/
theorem not_burstContract_skipped_packet :
    ¬ ∀ (capacity : UInt32) (bsr : BsRing),
      bsringMachine.Reachable (createBsring capacity) bsr →
      ∀ (obj : Nat → Mbuf) (n : UInt32), BurstContract bsr obj n := by
  intro halways
  have hreported :=
    (halways 1000 _ ⟨[], rfl⟩ (ofLengths [900, 200, 60]) 3).reported
  revert hreported
  decide

end Libmoon.Ring
