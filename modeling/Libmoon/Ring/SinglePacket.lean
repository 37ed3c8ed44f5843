import Libmoon.Ring.ByteAccounting

/-! # One packet through the three enqueue functions

A single packet can be handed to `bsring_enqueue`, to `bsring_enqueue_bulk` or to
`bsring_enqueue_burst`. Each has a test of its own: `<` on an unsigned sum, `>` on
an unsigned sum, and a signed difference. Here their outcomes are compared with
each other and with what the capacity stands for.
-/

namespace Libmoon.Ring

open Foundation

/-- What a caller and the next call see: the return value, the packets in the
ring and the byte counter. -/
structure Outcome where
  returned : Int32
  objs : List Mbuf
  bytesUsed : UInt32
deriving DecidableEq

def outcome (result : Int32 × BsRing) : Outcome :=
  ⟨result.1, result.2.ring.objs, result.2.bytesUsed⟩

/-- The packet is in the ring and charged. -/
def accepted (bsr : BsRing) (obj : Mbuf) : Outcome :=
  ⟨1, bsr.ring.objs ++ [obj], bsr.bytesUsed + obj.pktLen⟩

/-- Nothing has changed. -/
def rejected (bsr : BsRing) : Outcome := ⟨0, bsr.ring.objs, bsr.bytesUsed⟩

theorem accepted_ne_rejected (bsr : BsRing) (obj : Mbuf) : accepted bsr obj ≠ rejected bsr := by
  intro heq
  exact (show (1 : Int32) ≠ 0 by decide) (congrArg Outcome.returned heq)

/-- The packet does not exceed what is left of the capacity, and a slot is free. -/
def Admissible (bsr : BsRing) (obj : Mbuf) : Prop :=
  bsr.bytesUsed.toNat + obj.pktLen.toNat ≤ bsr.capacity.toNat ∧ 1 ≤ bsr.ring.free

instance (bsr : BsRing) (obj : Mbuf) : Decidable (Admissible bsr obj) :=
  inferInstanceAs (Decidable (_ ∧ _))

/-- The outcome that all three functions are to have. -/
def admission (bsr : BsRing) (obj : Mbuf) : Outcome :=
  if Admissible bsr obj then accepted bsr obj else rejected bsr

/-- The three functions agree on the packet `obj[0]`. -/
structure EnqueuesAgree (bsr : BsRing) (obj : Nat → Mbuf) : Prop where
  single : outcome (bsringEnqueue bsr (obj 0)) = admission bsr (obj 0)
  bulk : outcome (bsringEnqueueBulk bsr obj 1) = admission bsr (obj 0)
  burst : outcome (bsringEnqueueBurst bsr obj 1) = admission bsr (obj 0)

/-! ## The three tests -/

section Outcomes

variable (bsr : BsRing) (obj : Nat → Mbuf)

theorem bsringEnqueue_outcome (obj : Mbuf) :
    outcome (bsringEnqueue bsr obj) =
      if (bsr.bytesUsed.toNat + obj.pktLen.toNat) % 2 ^ 32 < bsr.capacity.toNat ∧
          1 ≤ bsr.ring.free then
        accepted bsr obj
      else rejected bsr := by
  have htest : bsr.bytesUsed + obj.pktLen < bsr.capacity ↔
      (bsr.bytesUsed.toNat + obj.pktLen.toNat) % 2 ^ 32 < bsr.capacity.toNat := by
    rw [UInt32.lt_iff_toNat_lt, UInt32.toNat_add]
  simp only [← htest]
  unfold bsringEnqueue
  by_cases hfits : bsr.bytesUsed + obj.pktLen < bsr.capacity
  · rw [if_pos hfits]
    rcases bsr.ring.spEnqueue_cases obj with ⟨hfree, hcode, hobjs⟩ | ⟨hfull, hcode, hring⟩
    · simp only [hcode, if_true, outcome, hobjs]
      rw [if_pos ⟨hfits, hfree⟩]
      rfl
    · simp only [hcode, if_false, outcome, hring]
      rw [if_neg (by omega)]
      rfl
  · rw [if_neg hfits, if_neg fun h => hfits h.1]
    rfl

theorem totalSize_one : totalSize obj 1 = (obj 0).pktLen := by
  rw [← UInt32.toNat_inj, toNat_totalSize, bytes_batch_succ, batch_zero, bytes_nil, Nat.zero_add]
  exact Nat.mod_eq_of_lt (obj 0).pktLen.toNat_lt

theorem bsringEnqueueBulk_outcome :
    outcome (bsringEnqueueBulk bsr obj 1) =
      if (bsr.bytesUsed.toNat + (obj 0).pktLen.toNat) % 2 ^ 32 ≤ bsr.capacity.toNat ∧
          1 ≤ bsr.ring.free then
        accepted bsr (obj 0)
      else rejected bsr := by
  have htest : bsr.bytesUsed + (obj 0).pktLen ≤ bsr.capacity ↔
      (bsr.bytesUsed.toNat + (obj 0).pktLen.toNat) % 2 ^ 32 ≤ bsr.capacity.toNat := by
    rw [UInt32.le_iff_toNat_le, UInt32.toNat_add]
  simp only [← htest]
  unfold bsringEnqueueBulk
  rw [UInt32.toNat_one, totalSize_one]
  by_cases hfits : bsr.bytesUsed + (obj 0).pktLen ≤ bsr.capacity
  · rw [if_neg (UInt32.not_lt.mpr hfits)]
    by_cases hfree : 1 ≤ bsr.ring.free
    · obtain ⟨hmoved, hobjs⟩ := bsr.ring.spEnqueueBulk_of_le obj hfree
      rw [if_pos ⟨hfits, hfree⟩]
      simp only [outcome, hmoved, hobjs, totalSize_one]
      rfl
    · rw [if_neg fun h => hfree h.2, bsr.ring.spEnqueueBulk_of_not_le obj hfree]
      simp [outcome, rejected, totalSize, wordSum]
  · rw [if_pos (UInt32.not_le.mp hfits), if_neg fun h => hfits h.1]
    rfl

/-- The first loop visits the packet if anything is left, and drops it again if it is too long. -/
theorem burstNumToAdd_one (hroom : 0 ≤ bsr.bytesRemaining.toInt)
    (hpos : 0 < (obj 0).pktLen.toNat) (hlength : (obj 0).pktLen.toNat < 2 ^ 31) :
    burstNumToAdd bsr obj 1 =
      if (obj 0).pktLen.toNat ≤ bsr.bytesRemaining.toInt then 1 else 0 := by
  have hleft : (bsr.bytesRemaining - (obj 0).pktLen.toInt32).toInt =
      bsr.bytesRemaining.toInt - (obj 0).pktLen.toNat := toInt_sub_of_le (by omega)
  have hscan : burstScan obj (List.range (1 : UInt32).toNat) bsr.bytesRemaining 0 =
      if 0 < bsr.bytesRemaining then (bsr.bytesRemaining - (obj 0).pktLen.toInt32, 1)
      else (bsr.bytesRemaining, 0) := rfl
  unfold burstNumToAdd
  rw [hscan]
  by_cases hany : 0 < bsr.bytesRemaining
  · rw [if_pos hany]
    simp only [Int32.lt_iff_toInt_lt, hleft, Int32.toInt_zero]
    by_cases hfits : (obj 0).pktLen.toNat ≤ bsr.bytesRemaining.toInt
    · rw [if_pos hfits, if_neg (by omega)]
    · rw [if_neg hfits, if_pos (by omega)]
      rfl
  · rw [if_neg hany]
    rw [Int32.lt_iff_toInt_lt, Int32.toInt_zero] at hany
    simp only [Int32.lt_iff_toInt_lt, Int32.toInt_zero]
    rw [if_neg (by omega), if_neg (by omega)]

/-- What the first phase hands to the ring is the outcome, when the second loop does nothing. -/
theorem bsringEnqueueBurst_outcome_of_idle (hidle : FillIdle bsr obj 1)
    {numAdded : Nat} (hadded : min (burstNumToAdd bsr obj 1).toNat bsr.ring.free = numAdded) :
    outcome (bsringEnqueueBurst bsr obj 1) =
      ⟨(UInt32.ofNat numAdded).toInt32, bsr.ring.objs ++ batch obj numAdded,
        bsr.bytesUsed + totalSize obj numAdded⟩ := by
  subst hadded
  unfold bsringEnqueueBurst
  rw [burstRun_of_idle hidle]
  rfl

/-- With signed room a burst tests the signed difference. -/
theorem bsringEnqueueBurst_outcome (hroom : 0 ≤ bsr.bytesRemaining.toInt)
    (hpos : 0 < (obj 0).pktLen.toNat) (hlength : (obj 0).pktLen.toNat < 2 ^ 31) :
    outcome (bsringEnqueueBurst bsr obj 1) =
      if (obj 0).pktLen.toNat ≤ bsr.bytesRemaining.toInt ∧ 1 ≤ bsr.ring.free then
        accepted bsr (obj 0)
      else rejected bsr := by
  have hnum := burstNumToAdd_one bsr obj hroom hpos hlength
  have hrejected : (⟨(UInt32.ofNat 0).toInt32, bsr.ring.objs ++ batch obj 0,
      bsr.bytesUsed + totalSize obj 0⟩ : Outcome) = rejected bsr := by
    simp [rejected, totalSize, wordSum]
  by_cases hfits : (obj 0).pktLen.toNat ≤ bsr.bytesRemaining.toInt
  · rw [if_pos hfits] at hnum
    -- no index is left for the second loop
    have hidle : FillIdle bsr obj 1 := by
      intro i hi
      rw [burstRest, hnum] at hi
      cases hi
    by_cases hfree : 1 ≤ bsr.ring.free
    · have hadded : min (burstNumToAdd bsr obj 1).toNat bsr.ring.free = 1 := by
        rw [hnum, UInt32.toNat_one]
        omega
      rw [if_pos ⟨hfits, hfree⟩, bsringEnqueueBurst_outcome_of_idle bsr obj hidle hadded,
        totalSize_one]
      rfl
    · have hadded : min (burstNumToAdd bsr obj 1).toNat bsr.ring.free = 0 := by omega
      rw [if_neg fun h => hfree h.2, bsringEnqueueBurst_outcome_of_idle bsr obj hidle hadded,
        hrejected]
  · rw [if_neg hfits] at hnum
    have hadded : min (burstNumToAdd bsr obj 1).toNat bsr.ring.free = 0 := by
      rw [hnum, UInt32.toNat_zero]
      omega
    -- the packet is too long for the second loop as well
    have hidle : FillIdle bsr obj 1 := by
      intro i hi
      rw [burstRest, hnum] at hi
      obtain rfl : i = 0 := List.mem_singleton.mp hi
      have hleft : bytesRemainingAfterTake bsr obj 1 = bsr.bytesRemaining := by
        rw [bytesRemainingAfterTake, hadded, BsRing.bytesRemaining]
        simp [totalSize, wordSum]
      rw [hleft, Int32.le_iff_toInt_le, Int32.le_iff_toInt_le, toInt_toInt32, if_pos hlength]
      exact fun h => hfits h.2
    rw [if_neg fun h => hfits h.1, bsringEnqueueBurst_outcome_of_idle bsr obj hidle hadded,
      hrejected]

/-- Without signed room a burst hands `2 ^ 32 - 1` packets to the ring. -/
theorem bsringEnqueueBurst_outcome_of_neg (hroom : bsr.bytesRemaining.toInt < 0) :
    outcome (bsringEnqueueBurst bsr obj 1) = rejected bsr ↔ bsr.ring.free = 0 := by
  have hnum : (burstNumToAdd bsr obj 1).toNat = 2 ^ 32 - 1 := by
    apply burstNumToAdd_of_neg
    rwa [Int32.lt_iff_toInt_lt, Int32.toInt_zero]
  have hidle : FillIdle bsr obj 1 := by
    intro i hi
    rw [burstRest, hnum, UInt32.toNat_one] at hi
    cases hi
  rw [bsringEnqueueBurst_outcome_of_idle bsr obj hidle rfl, hnum, rejected, Outcome.mk.injEq]
  constructor
  · intro heq
    have hlength := congrArg List.length heq.2.1
    rw [List.length_append, length_batch] at hlength
    omega
  · intro hfull
    simp [hfull, totalSize, wordSum]

end Outcomes

/-! ## Where they agree -/

/-- A full ring refuses the packet in any case. Otherwise the packet must not fit
exactly, and a counter above the capacity must stand for a negative number that
the packet does not lift to the capacity or below it. -/
def AgreeCondition (bsr : BsRing) (obj : Mbuf) : Prop :=
  bsr.ring.free = 0 ∨
    bsr.bytesUsed.toNat ≤ bsr.capacity.toNat ∧
      bsr.bytesUsed.toNat + obj.pktLen.toNat ≠ bsr.capacity.toNat ∨
    bsr.capacity.toNat + 2 ^ 31 < bsr.bytesUsed.toNat ∧
      bsr.capacity.toNat + 2 ^ 32 < bsr.bytesUsed.toNat + obj.pktLen.toNat

instance (bsr : BsRing) (obj : Mbuf) : Decidable (AgreeCondition bsr obj) :=
  inferInstanceAs (Decidable (_ ∨ _))

section Agreement

variable {bsr : BsRing} {obj : Nat → Mbuf}

theorem ite_accepted_eq_iff {p q : Prop} [Decidable p] [Decidable q] (obj : Mbuf) :
    (if p then accepted bsr obj else rejected bsr) =
      (if q then accepted bsr obj else rejected bsr) ↔ (p ↔ q) := by
  have hne := accepted_ne_rejected bsr obj
  by_cases hp : p <;> by_cases hq : q <;> simp [hp, hq, hne, hne.symm]

/-- The signed difference, in terms of the counter. -/
theorem bytesRemaining_toInt (hcapacity : bsr.capacity.toNat < 2 ^ 31) :
    bsr.bytesRemaining.toInt =
      if bsr.capacity.toNat + 2 ^ 31 < bsr.bytesUsed.toNat then
        (bsr.capacity.toNat : Int) - bsr.bytesUsed.toNat + 2 ^ 32
      else (bsr.capacity.toNat : Int) - bsr.bytesUsed.toNat := by
  have hused := bsr.bytesUsed.toNat_lt
  rw [BsRing.bytesRemaining, toInt_toInt32, UInt32.toNat_sub]
  split <;> split <;> omega

/-- The three functions agree on a packet, and accept it exactly if it fits into
the capacity and a slot is free, exactly under the condition above. -/
theorem enqueuesAgree_iff (hcapacity : bsr.capacity.toNat < 2 ^ 31)
    (hpos : 0 < (obj 0).pktLen.toNat) (hlength : (obj 0).pktLen.toNat < 2 ^ 31) :
    EnqueuesAgree bsr obj ↔ AgreeCondition bsr (obj 0) := by
  have hused := bsr.bytesUsed.toNat_lt
  have hremaining := bytesRemaining_toInt hcapacity
  have hsingle : outcome (bsringEnqueue bsr (obj 0)) = admission bsr (obj 0) ↔
      ((bsr.bytesUsed.toNat + (obj 0).pktLen.toNat) % 2 ^ 32 < bsr.capacity.toNat ∧
        1 ≤ bsr.ring.free ↔ Admissible bsr (obj 0)) := by
    rw [bsringEnqueue_outcome, admission, ite_accepted_eq_iff]
  have hbulk : outcome (bsringEnqueueBulk bsr obj 1) = admission bsr (obj 0) ↔
      ((bsr.bytesUsed.toNat + (obj 0).pktLen.toNat) % 2 ^ 32 ≤ bsr.capacity.toNat ∧
        1 ≤ bsr.ring.free ↔ Admissible bsr (obj 0)) := by
    rw [bsringEnqueueBulk_outcome, admission, ite_accepted_eq_iff]
  have hagree : EnqueuesAgree bsr obj ↔
      outcome (bsringEnqueue bsr (obj 0)) = admission bsr (obj 0) ∧
        outcome (bsringEnqueueBulk bsr obj 1) = admission bsr (obj 0) ∧
        outcome (bsringEnqueueBurst bsr obj 1) = admission bsr (obj 0) :=
    ⟨fun h => ⟨h.single, h.bulk, h.burst⟩, fun h => ⟨h.1, h.2.1, h.2.2⟩⟩
  rw [hagree, hsingle, hbulk]
  by_cases hroom : 0 ≤ bsr.bytesRemaining.toInt
  · have hburst : outcome (bsringEnqueueBurst bsr obj 1) = admission bsr (obj 0) ↔
        ((obj 0).pktLen.toNat ≤ bsr.bytesRemaining.toInt ∧ 1 ≤ bsr.ring.free ↔
          Admissible bsr (obj 0)) := by
      rw [bsringEnqueueBurst_outcome bsr obj hroom hpos hlength, admission, ite_accepted_eq_iff]
    rw [hburst]
    unfold Admissible AgreeCondition
    split at hremaining <;> omega
  · -- the counter exceeds the capacity, so the packet is not admissible
    have hover : ¬ Admissible bsr (obj 0) := by
      rintro ⟨hfits, -⟩
      split at hremaining <;> omega
    rw [admission, if_neg hover, bsringEnqueueBurst_outcome_of_neg bsr obj (by omega)]
    unfold Admissible at hover ⊢
    unfold AgreeCondition
    split at hremaining <;> omega

end Agreement

/-- One byte less than what remains. -/
theorem enqueuesAgree_one_byte_short :
    EnqueuesAgree (createBsring 1000) (ofLengths [999]) :=
  (enqueuesAgree_iff (by decide) (by decide) (by decide)).mpr (by decide)

/-- An exact fit is refused by `bsring_enqueue` only. -/
theorem not_enqueuesAgree_exact_fit :
    ¬ ∀ (capacity : UInt32) (bsr : BsRing) (obj : Nat → Mbuf),
      bsringMachine.Reachable (createBsring capacity) bsr → capacity.toNat < 2 ^ 31 →
        0 < (obj 0).pktLen.toNat → (obj 0).pktLen.toNat < 2 ^ 31 → EnqueuesAgree bsr obj := by
  intro halways
  have hagree := halways 1000 (createBsring 1000) (ofLengths [1000]) ⟨[], rfl⟩ (by decide)
    (by decide) (by decide)
  exact absurd hagree.single (by decide)

end Libmoon.Ring
