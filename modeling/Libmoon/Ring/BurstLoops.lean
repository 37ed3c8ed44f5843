import Libmoon.Ring.ByteSized

/-! # The two loops of a burst enqueue

The first loop selects a prefix by running down a signed count of the bytes that
remain; the second tries the packets behind that prefix one by one. What either
loop can do is stated here once, for the results on accounting, capacity and
hand-over.
-/

namespace Libmoon.Ring

open Foundation

/-- The bytes that remain when the selected prefix has been handed over. -/
def bytesRemainingAfterTake (bsr : BsRing) (obj : Nat → Mbuf) (n : UInt32) : Int32 :=
  (bsr.capacity - bsr.bytesUsed -
    totalSize obj (min (burstNumToAdd bsr obj n).toNat bsr.ring.free)).toInt32

/-- No packet behind the selected prefix qualifies for the second loop: fewer
than 60 bytes remain, or every such packet is longer than what remains. -/
def FillIdle (bsr : BsRing) (obj : Nat → Mbuf) (n : UInt32) : Prop :=
  ∀ i ∈ burstRest bsr obj n,
    ¬ (60 ≤ bytesRemainingAfterTake bsr obj n ∧
      (obj i).pktLen.toInt32 ≤ bytesRemainingAfterTake bsr obj n)

instance (bsr : BsRing) (obj : Nat → Mbuf) (n : UInt32) : Decidable (FillIdle bsr obj n) :=
  inferInstanceAs (Decidable (∀ i ∈ burstRest bsr obj n, _))

/-! ## The first loop -/

/-- The scan counts one for every index it visits. -/
theorem burstScan_count (obj : Nat → Mbuf) (indices : List Nat) (remaining : Int32)
    (numToAdd : UInt32) (hbound : numToAdd.toNat + indices.length < 2 ^ 32) :
    numToAdd.toNat ≤ (burstScan obj indices remaining numToAdd).2.toNat ∧
      (burstScan obj indices remaining numToAdd).2.toNat ≤ numToAdd.toNat + indices.length := by
  induction indices generalizing remaining numToAdd with
  | nil => simp [burstScan]
  | cons i rest ih =>
      rw [List.length_cons] at hbound
      unfold burstScan
      split
      next =>
        have hsucc : (numToAdd + 1).toNat = numToAdd.toNat + 1 := by
          rw [UInt32.toNat_add, UInt32.toNat_one]
          omega
        obtain ⟨hlower, hupper⟩ :=
          ih (remaining - (obj i).pktLen.toInt32) (numToAdd + 1) (by omega)
        rw [List.length_cons]
        omega
      next => simp

/-- A scan that starts with nothing missing ends short of bytes only after it
has visited a packet. -/
theorem burstScan_lt_of_neg (obj : Nat → Mbuf) (indices : List Nat) (remaining : Int32)
    (numToAdd : UInt32) (hbound : numToAdd.toNat + indices.length < 2 ^ 32)
    (hstart : 0 ≤ remaining) (hend : (burstScan obj indices remaining numToAdd).1 < 0) :
    numToAdd.toNat < (burstScan obj indices remaining numToAdd).2.toNat := by
  cases indices with
  | nil => exact absurd hstart (Int32.not_le.mpr hend)
  | cons i rest =>
      rw [List.length_cons] at hbound
      unfold burstScan at hend ⊢
      split
      next =>
        have hsucc : (numToAdd + 1).toNat = numToAdd.toNat + 1 := by
          rw [UInt32.toNat_add, UInt32.toNat_one]
          omega
        have hcount := burstScan_count obj rest (remaining - (obj i).pktLen.toInt32)
          (numToAdd + 1) (by omega)
        omega
      next hpos =>
        rw [if_neg hpos] at hend
        exact absurd hstart (Int32.not_le.mpr hend)

/-- A scan that starts below zero visits nothing. -/
theorem burstScan_of_neg (obj : Nat → Mbuf) (indices : List Nat) {remaining : Int32}
    (numToAdd : UInt32) (hneg : remaining < 0) :
    burstScan obj indices remaining numToAdd = (remaining, numToAdd) := by
  cases indices with
  | nil => rfl
  | cons i rest =>
      have hpos : ¬ (0 : Int32) < remaining := Int32.not_lt.mpr (Int32.le_of_lt hneg)
      simp only [burstScan, if_neg hpos]

theorem burstNumToAdd_le {bsr : BsRing} {obj : Nat → Mbuf} {n : UInt32}
    (hroom : 0 ≤ bsr.bytesRemaining) : (burstNumToAdd bsr obj n).toNat ≤ n.toNat := by
  have hbound : (0 : UInt32).toNat + (List.range n.toNat).length < 2 ^ 32 := by
    simpa using n.toNat_lt
  have hcount := burstScan_count obj (List.range n.toNat) bsr.bytesRemaining 0 hbound
  rw [List.length_range, UInt32.toNat_zero] at hcount
  unfold burstNumToAdd
  simp only
  split
  next hneg =>
    have hvisited := burstScan_lt_of_neg obj _ _ 0 hbound hroom hneg
    rw [UInt32.toNat_zero] at hvisited
    have hn := n.toNat_lt
    rw [UInt32.toNat_sub, UInt32.toNat_one]
    omega
  next => omega

/-- Without signed room the decrement after the empty scan wraps around. -/
theorem burstNumToAdd_of_neg {bsr : BsRing} {obj : Nat → Mbuf} {n : UInt32}
    (hroom : bsr.bytesRemaining < 0) : (burstNumToAdd bsr obj n).toNat = 2 ^ 32 - 1 := by
  unfold burstNumToAdd
  simp only [burstScan_of_neg obj _ 0 hroom, if_pos hroom]
  rfl

/-- The signed count is exact for every packet the scan visits: no visited
packet is longer than the remaining bytes by more than `2 ^ 31`. -/
def ScanExact (obj : Nat → Mbuf) : List Nat → Int → Prop
  | [], _ => True
  | i :: rest, room =>
      0 < room → (obj i).pktLen.toNat ≤ room + 2 ^ 31 ∧
        ScanExact obj rest (room - (obj i).pktLen.toNat)

instance decidableScanExact (obj : Nat → Mbuf) (indices : List Nat) (room : Int) :
    Decidable (ScanExact obj indices room) :=
  match indices with
  | [] => isTrue trivial
  | i :: rest =>
      haveI := decidableScanExact obj rest (room - (obj i).pktLen.toNat)
      inferInstanceAs (Decidable (_ → _ ∧ _))

/-- The packets an exact scan selects fit into the room it started with; the
last one visited is left out when it did not fit. -/
theorem burstScan_room (obj : Nat → Mbuf) (indices : List Nat) {remaining : Int32}
    (numToAdd : UInt32) {room : Int} (hremaining : remaining.toInt = room) (hroom : 0 ≤ room)
    (hexact : ScanExact obj indices room)
    (hbound : numToAdd.toNat + indices.length < 2 ^ 32) :
    ∃ visited ≤ indices.length,
      (burstScan obj indices remaining numToAdd).2.toNat = numToAdd.toNat + visited ∧
      (0 ≤ (burstScan obj indices remaining numToAdd).1 →
        (bytes ((indices.take visited).map obj) : Int) ≤ room) ∧
      ((burstScan obj indices remaining numToAdd).1 < 0 →
        0 < visited ∧ (bytes ((indices.take (visited - 1)).map obj) : Int) ≤ room) := by
  induction indices generalizing remaining numToAdd room with
  | nil =>
      refine ⟨0, Nat.le_refl 0, rfl, fun _ => by simpa [bytes] using hroom, fun hneg => ?_⟩
      rw [burstScan, Int32.lt_iff_toInt_lt, hremaining, Int32.toInt_zero] at hneg
      omega
  | cons i rest ih =>
      rw [List.length_cons] at hbound
      unfold burstScan
      by_cases hpos : 0 < remaining
      · rw [if_pos hpos]
        have hroomPos : 0 < room := by
          rwa [Int32.lt_iff_toInt_lt, hremaining, Int32.toInt_zero] at hpos
        obtain ⟨hlength, hrest⟩ := hexact hroomPos
        have hnext : (remaining - (obj i).pktLen.toInt32).toInt =
            room - (obj i).pktLen.toNat := by
          rw [← hremaining]
          apply toInt_sub_of_le
          omega
        have hsucc : (numToAdd + 1).toNat = numToAdd.toNat + 1 := by
          rw [UInt32.toNat_add, UInt32.toNat_one]
          omega
        -- either the packet fits and the scan goes on, or the scan ends here
        by_cases hfits : 0 ≤ room - (obj i).pktLen.toNat
        · obtain ⟨visited, hvisited, hcount, hnonneg, hneg⟩ :=
            ih (numToAdd + 1) hnext hfits hrest (by omega)
          refine ⟨visited + 1, by simpa using hvisited, by omega, ?_, ?_⟩
          · intro hend
            have hsum := hnonneg hend
            simp only [List.take_succ_cons, List.map_cons, bytes, List.sum_cons] at hsum ⊢
            omega
          · intro hend
            obtain ⟨hvisitedPos, hsum⟩ := hneg hend
            obtain ⟨before, rfl⟩ : ∃ before, visited = before + 1 := ⟨visited - 1, by omega⟩
            refine ⟨by omega, ?_⟩
            simp only [Nat.add_sub_cancel, List.take_succ_cons, List.map_cons, bytes,
              List.sum_cons] at hsum ⊢
            omega
        · have hshort : remaining - (obj i).pktLen.toInt32 < 0 := by
            rw [Int32.lt_iff_toInt_lt, hnext, Int32.toInt_zero]
            omega
          rw [burstScan_of_neg obj rest (numToAdd + 1) hshort]
          refine ⟨1, by simp, hsucc, fun hend => ?_, fun _ => ⟨by omega, ?_⟩⟩
          · exact absurd hshort (Int32.not_lt.mpr hend)
          · simpa [bytes] using hroom
      · rw [if_neg hpos]
        refine ⟨0, Nat.zero_le _, rfl, fun _ => by simpa [bytes] using hroom, fun hneg => ?_⟩
        rw [Int32.lt_iff_toInt_lt, hremaining, Int32.toInt_zero] at hneg
        omega

/-- With signed room and an exact scan, the selected prefix fits the bytes that
are free. -/
theorem bytes_burstNumToAdd_le {bsr : BsRing} {obj : Nat → Mbuf} {n : UInt32}
    (hroom : 0 ≤ bsr.bytesRemaining)
    (hexact : ScanExact obj (List.range n.toNat) bsr.bytesRemaining.toInt) :
    (bytes (batch obj (burstNumToAdd bsr obj n).toNat) : Int) ≤ bsr.bytesRemaining.toInt := by
  have hbound : (0 : UInt32).toNat + (List.range n.toNat).length < 2 ^ 32 := by
    simpa using n.toNat_lt
  have hroomInt : 0 ≤ bsr.bytesRemaining.toInt := by
    rwa [Int32.le_iff_toInt_le, Int32.toInt_zero] at hroom
  obtain ⟨visited, hvisited, hcount, hnonneg, hneg⟩ :=
    burstScan_room obj (List.range n.toNat) 0 rfl hroomInt hexact hbound
  rw [UInt32.toNat_zero, Nat.zero_add] at hcount
  rw [List.length_range] at hvisited
  unfold burstNumToAdd
  simp only
  split
  next hend =>
    obtain ⟨hvisitedPos, hsum⟩ := hneg hend
    have hpred : ((burstScan obj (List.range n.toNat) bsr.bytesRemaining 0).2 - 1).toNat =
        visited - 1 := by
      have hn := n.toNat_lt
      rw [UInt32.toNat_sub, UInt32.toNat_one, hcount]
      omega
    rw [hpred, batch]
    rwa [List.take_range, Nat.min_eq_left (by omega)] at hsum
  next hend =>
    have hsum := hnonneg (Int32.not_lt.mp hend)
    rw [hcount, batch]
    rwa [List.take_range, Nat.min_eq_left hvisited] at hsum

/-! ## The second loop -/

/-- An offer that is skipped changes nothing. -/
theorem offer_of_not_le {fill : BurstFill} {obj : Nat → Mbuf} {i : Nat}
    (hlong : ¬ (obj i).pktLen.toInt32 ≤ fill.remaining) : fill.offer obj i = fill := by
  unfold BurstFill.offer
  rw [if_neg hlong]

theorem burstFill_of_idle (obj : Nat → Mbuf) (indices : List Nat) (fill : BurstFill)
    (hidle : ∀ i ∈ indices,
      ¬ (60 ≤ fill.remaining ∧ (obj i).pktLen.toInt32 ≤ fill.remaining)) :
    burstFill obj indices fill = fill := by
  induction indices with
  | nil => rfl
  | cons i rest ih =>
      unfold burstFill
      split
      next hremaining =>
        have hlong : ¬ (obj i).pktLen.toInt32 ≤ fill.remaining :=
          fun hfits => hidle i List.mem_cons_self ⟨hremaining, hfits⟩
        rw [offer_of_not_le hlong]
        exact ih fun j hj => hidle j (List.mem_cons_of_mem i hj)
      next => rfl

/-- An idle second loop leaves the prefix as the whole effect of the burst. -/
theorem burstRun_of_idle {bsr : BsRing} {obj : Nat → Mbuf} {n : UInt32}
    (hidle : FillIdle bsr obj n) : burstRun bsr obj n = burstTake bsr obj n := by
  unfold burstRun
  simp only
  split
  next => exact burstFill_of_idle obj _ _ hidle
  next => rfl

end Libmoon.Ring
