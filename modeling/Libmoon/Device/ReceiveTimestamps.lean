import Mathlib.Algebra.BigOperators.Group.List.Basic
import Mathlib.Algebra.GroupWithZero.Nat
import Mathlib.Tactic.Common

/-! # Software timestamps of a batch

`dpdk_receive_with_timestamps_software` reads the TSC once for a batch and stamps every
packet with it, plus the time that the packet in front has taken on the wire. That packet
alone is counted, not those before it, and its size is kept in 16 bits.
-/

namespace Libmoon.Device

/-- One turn of the `while` loop: the TSC, and the lengths of the packets that
`rte_eth_rx_burst` then returns. -/
structure Poll where
  tsc : UInt64
  pktLens : List UInt32
  fits : pktLens.length < 2 ^ 16

/-- `tsc + prev_pkt_size * cycles_per_byte`. The product is one of 32 bits. -/
def timestamp (cyclesPerByte : UInt32) (tsc : UInt64) (prevPktSize : UInt16) : UInt64 :=
  tsc + (prevPktSize.toUInt32 * cyclesPerByte).toUInt64

/-- The loop over the packets: what each of them is stamped with. -/
def stampPackets (cyclesPerByte : UInt32) (tsc : UInt64) : UInt16 → List UInt32 → List UInt64
  | _, [] => []
  | prevPktSize, pktLen :: rest =>
      timestamp cyclesPerByte tsc prevPktSize ::
        stampPackets cyclesPerByte tsc (pktLen + 24).toUInt16 rest

/-- `dpdk_receive_with_timestamps_software` with the polls it makes while the task is
running: the timestamps of the batch that it returns. -/
def dpdkReceiveWithTimestampsSoftware (cyclesPerByte : UInt32) : List Poll → List UInt64
  | [] => []
  | poll :: rest =>
      if poll.pktLens.length > 0 then stampPackets cyclesPerByte poll.tsc 0 poll.pktLens
      else dpdkReceiveWithTimestampsSoftware cyclesPerByte rest

/-- The cycles that packets take on the wire, each with 24 bytes of framing. -/
def wireCycles (cyclesPerByte : UInt32) (pktLens : List UInt32) : ℕ :=
  cyclesPerByte.toNat * (pktLens.map fun pktLen => pktLen.toNat + 24).sum

/-- Every packet is stamped with the time at which the packets in front of it have passed,
and later packets with later times. -/
structure ArrivalOrder (cyclesPerByte : UInt32) (poll : Poll) (timestamps : List UInt64) :
    Prop where
  length : timestamps.length = poll.pktLens.length
  value : ∀ i (hi : i < timestamps.length), timestamps[i].toNat =
    poll.tsc.toNat + wireCycles cyclesPerByte (poll.pktLens.take i)
  increasing : timestamps.Pairwise (· < ·)

/-- At most two packets, and an offset of the second one for which no integer is too small. -/
def Poll.AtMostOneOffset (cyclesPerByte : UInt32) (poll : Poll) : Prop :=
  match poll.pktLens with
  | [] | [_] => True
  | [first, _] =>
      0 < cyclesPerByte.toNat ∧ first.toNat + 24 < 2 ^ 16 ∧
        cyclesPerByte.toNat * (first.toNat + 24) < 2 ^ 32 ∧
        poll.tsc.toNat + cyclesPerByte.toNat * (first.toNat + 24) < 2 ^ 64
  | _ => False

variable {cyclesPerByte : UInt32} {tsc : UInt64}

theorem receive_eq_stampPackets {polls : List Poll} {poll : Poll}
    (hfirst : polls.find? (fun poll => poll.pktLens ≠ []) = some poll) :
    dpdkReceiveWithTimestampsSoftware cyclesPerByte polls =
      stampPackets cyclesPerByte poll.tsc 0 poll.pktLens := by
  induction polls with
  | nil => cases hfirst
  | cons head rest ih =>
      unfold dpdkReceiveWithTimestampsSoftware
      split
      next hsome =>
        rw [List.find?_cons_of_pos (by simpa using List.ne_nil_of_length_pos hsome)] at hfirst
        obtain rfl := Option.some.inj hfirst
        rfl
      next hnone =>
        rw [List.find?_cons_of_neg (by simpa using hnone)] at hfirst
        exact ih hfirst

theorem timestamp_zero : timestamp cyclesPerByte tsc 0 = tsc := by
  simp [timestamp]

theorem toNat_timestamp (prevPktSize : UInt16) :
    (timestamp cyclesPerByte tsc prevPktSize).toNat =
      (tsc.toNat + cyclesPerByte.toNat * prevPktSize.toNat % 2 ^ 32) % 2 ^ 64 := by
  simp [timestamp, Nat.mul_comm]

theorem toNat_size (pktLen : UInt32) :
    (pktLen + 24).toUInt16.toNat = (pktLen.toNat + 24) % 2 ^ 16 := by
  simp

/-- What is cut off makes a timestamp smaller. -/
theorem toNat_timestamp_le (pktLen : UInt32) :
    (timestamp cyclesPerByte tsc (pktLen + 24).toUInt16).toNat ≤
      tsc.toNat + cyclesPerByte.toNat * (pktLen.toNat + 24) := by
  rw [toNat_timestamp, toNat_size]
  calc (tsc.toNat + cyclesPerByte.toNat * ((pktLen.toNat + 24) % 2 ^ 16) % 2 ^ 32) % 2 ^ 64
      ≤ tsc.toNat + cyclesPerByte.toNat * ((pktLen.toNat + 24) % 2 ^ 16) % 2 ^ 32 := Nat.mod_le _ _
    _ ≤ tsc.toNat + cyclesPerByte.toNat * ((pktLen.toNat + 24) % 2 ^ 16) :=
        Nat.add_le_add_left (Nat.mod_le _ _) _
    _ ≤ tsc.toNat + cyclesPerByte.toNat * (pktLen.toNat + 24) :=
        Nat.add_le_add_left (Nat.mul_le_mul_left _ (Nat.mod_le _ _)) _

/-- The offset is right if nothing is cut off. -/
theorem toNat_timestamp_eq_iff (pktLen : UInt32) (hpos : 0 < cyclesPerByte.toNat) :
    (timestamp cyclesPerByte tsc (pktLen + 24).toUInt16).toNat =
        tsc.toNat + cyclesPerByte.toNat * (pktLen.toNat + 24) ↔
      pktLen.toNat + 24 < 2 ^ 16 ∧ cyclesPerByte.toNat * (pktLen.toNat + 24) < 2 ^ 32 ∧
        tsc.toNat + cyclesPerByte.toNat * (pktLen.toNat + 24) < 2 ^ 64 := by
  rw [toNat_timestamp, toNat_size]
  constructor
  · intro heq
    have hsize := Nat.mod_le (pktLen.toNat + 24) (2 ^ 16)
    have hproduct := Nat.mul_le_mul_left cyclesPerByte.toNat hsize
    have hsame : cyclesPerByte.toNat * ((pktLen.toNat + 24) % 2 ^ 16) =
        cyclesPerByte.toNat * (pktLen.toNat + 24) := by omega
    have hmod := Nat.eq_of_mul_eq_mul_left hpos hsame
    rw [hmod] at heq
    omega
  · rintro ⟨hsize, hproduct, hsum⟩
    rw [Nat.mod_eq_of_lt hsize, Nat.mod_eq_of_lt hproduct, Nat.mod_eq_of_lt hsum]

/-- The second packet is right exactly if nothing is cut off from its offset. -/
theorem arrivalOrder_pair_iff {poll : Poll} {first second : UInt32}
    (hlens : poll.pktLens = [first, second]) :
    ArrivalOrder cyclesPerByte poll (stampPackets cyclesPerByte poll.tsc 0 [first, second]) ↔
      poll.AtMostOneOffset cyclesPerByte := by
  simp only [Poll.AtMostOneOffset, hlens, stampPackets, timestamp_zero]
  constructor
  · intro horder
    have hvalue := horder.value 1 (by simp)
    have hlt := UInt64.lt_iff_toNat_lt.mp (List.pairwise_pair.mp horder.increasing)
    simp only [hlens, wireCycles, List.getElem_cons_succ, List.getElem_cons_zero, List.take_succ_cons,
      List.take_zero, List.map_cons, List.map_nil, List.sum_singleton] at hvalue
    have hpos : 0 < cyclesPerByte.toNat := by
      apply Nat.pos_of_ne_zero
      intro hzero
      rw [hvalue, hzero, Nat.zero_mul] at hlt
      exact Nat.lt_irrefl _ hlt
    exact ⟨hpos, (toNat_timestamp_eq_iff first hpos).mp hvalue⟩
  · rintro ⟨hpos, hfits⟩
    have hvalue := (toNat_timestamp_eq_iff first hpos).mpr hfits
    refine ⟨by simp [hlens], ?_, ?_⟩
    · intro i hi
      match i, hi with
      | 0, _ => simp [wireCycles]
      | 1, _ => simpa [wireCycles, hlens] using hvalue
    · rw [List.pairwise_pair, UInt64.lt_iff_toNat_lt, hvalue]
      exact Nat.lt_add_of_pos_right (Nat.mul_pos hpos (Nat.succ_pos _))

/-- The offset of the third packet leaves the first one out. -/
theorem not_arrivalOrder_of_three {poll : Poll} {first second third : UInt32} {rest : List UInt32}
    (hlens : poll.pktLens = first :: second :: third :: rest) :
    ¬ ArrivalOrder cyclesPerByte poll
      (stampPackets cyclesPerByte poll.tsc 0 (first :: second :: third :: rest)) := by
  intro horder
  have hfirst := horder.value 1 (by simp [stampPackets])
  have hsecond := horder.value 2 (by simp [stampPackets])
  simp only [hlens, wireCycles, stampPackets, List.getElem_cons_succ, List.getElem_cons_zero,
    List.take_succ_cons, List.take_zero, List.map_cons, List.map_nil, List.sum_cons, List.sum_nil,
    Nat.add_zero, Nat.mul_add] at hfirst hsecond
  have hle : (timestamp cyclesPerByte poll.tsc (second + 24).toUInt16).toNat ≤ _ :=
    toNat_timestamp_le second
  -- without cycles for the first packet the second one would not be later
  have hlt : poll.tsc.toNat < poll.tsc.toNat + (cyclesPerByte.toNat * first.toNat +
      cyclesPerByte.toNat * 24) := by
    have hpair := (List.pairwise_cons.mp horder.increasing).1 _ List.mem_cons_self
    rw [timestamp_zero, UInt64.lt_iff_toNat_lt, hfirst] at hpair
    exact hpair
  rw [Nat.mul_add] at hle
  omega

/-- The timestamps of a batch reflect the arrival of its packets exactly if there are at
most two of them and the offset of the second one fits. -/
theorem arrivalOrder_iff {polls : List Poll} {poll : Poll}
    (hfirst : polls.find? (fun poll => poll.pktLens ≠ []) = some poll) :
    ArrivalOrder cyclesPerByte poll (dpdkReceiveWithTimestampsSoftware cyclesPerByte polls) ↔
      poll.AtMostOneOffset cyclesPerByte := by
  rw [receive_eq_stampPackets hfirst]
  rcases hlens : poll.pktLens with _ | ⟨first, _ | ⟨second, _ | ⟨third, rest⟩⟩⟩
  · have hsome := List.find?_some hfirst
    simp [hlens] at hsome
  · simp only [Poll.AtMostOneOffset, hlens, iff_true]
    refine ⟨by simp [hlens, stampPackets], ?_, List.pairwise_singleton _ _⟩
    intro i hi
    obtain rfl : i = 0 := by simpa [stampPackets] using hi
    simp [stampPackets, timestamp_zero, wireCycles]
  · exact arrivalOrder_pair_iff hlens
  · simp only [Poll.AtMostOneOffset, hlens, iff_false]
    exact not_arrivalOrder_of_three hlens

theorem arrivalOrder_twoShort :
    ArrivalOrder 250 ⟨1000, [60, 1500], by decide⟩
      (dpdkReceiveWithTimestampsSoftware 250 [⟨7, [], by decide⟩, ⟨1000, [60, 1500], by decide⟩]) :=
  (arrivalOrder_iff rfl).mpr ⟨by decide, by decide, by decide, by decide⟩

/-- Of three packets, the last one seems to arrive in front of the second one. -/
theorem longThenShort_not_arrivalOrder :
    ¬ ArrivalOrder 250 ⟨1000, [1500, 60, 60], by decide⟩
      (dpdkReceiveWithTimestampsSoftware 250 [⟨1000, [1500, 60, 60], by decide⟩]) := by
  intro horder
  exact absurd horder.increasing (by decide)

end Libmoon.Device
