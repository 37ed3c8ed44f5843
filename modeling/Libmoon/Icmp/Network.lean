import Libmoon.Foundation.Machine
import Libmoon.Icmp.Responder
import Mathlib.Logic.Function.Basic

/-! # Two responders

Two hosts run the responder on the ends of a link. Frames on their way to a host are
delivered in any order and arrive in a buffer that holds something else around them. A host
transmits what its handler sends, which then is on its way to the other host.
-/

namespace Libmoon.Icmp

open Foundation Packet

/-! ## One packet -/

/-- A packet is answered exactly if it is an echo request for the device. -/
def AnswersRequestsOnly (mem : Memory) (data len : Nat) (nic : Nic) : Prop :=
  (∃ mem', handleIcmpPacket mem data nic = .sent mem') ↔
    EchoRequest mem data len ∧ AddressedTo nic mem data

/-- A packet is an echo request if it passes the filter. -/
def RequestIfPasses (mem : Memory) (data len : Nat) (nic : Nic) : Prop :=
  Passes nic mem data → EchoRequest mem data len

theorem answersRequestsOnly_iff (mem : Memory) (data len : Nat) (nic : Nic) :
    AnswersRequestsOnly mem data len nic ↔ RequestIfPasses mem data len nic := by
  rw [AnswersRequestsOnly, exists_sent_iff]
  constructor
  · intro hanswers hpasses
    exact (hanswers.mp hpasses).1
  · intro hrequest
    exact ⟨fun hpasses => ⟨hrequest hpasses, hpasses.addressed⟩,
      fun ⟨hecho, haddressed⟩ => hecho.passes haddressed⟩

/-- Only the bytes of a packet matter for what it is. -/
theorem EchoRequest.transfer {mem mem' : Memory} {data data' len : Nat}
    (hrequest : EchoRequest mem data len) (hagree : ∀ j < len, mem' (data' + j) = mem (data + j)) :
    EchoRequest mem' data' len := by
  obtain ⟨hetherType, hversion, hheader, hprotocol, hmessage, hinside, htype⟩ := hrequest
  have hword {offset : Nat} (hoffset : offset + 2 ≤ len) :
      netWord mem' (data' + offset) = netWord mem (data + offset) := by
    rw [netWord, Nat.add_assoc, hagree _ (by omega), hagree _ (by omega), netWord, Nat.add_assoc]
  have hlength : netWord mem' (data' + 16) = netWord mem (data + 16) := hword (by omega)
  have hihl : ihl mem' (data' + 14) = ihl mem (data + 14) := by
    rw [ihl, hagree 14 (by omega), ihl]
  refine ⟨?_, ?_, ?_, ?_, ?_, ?_, ?_⟩
  · rw [hword (by omega), hetherType]
  · rw [hagree 14 (by omega), hversion]
  · rw [hihl]
    exact hheader
  · rw [hagree 23 (by omega), hprotocol]
  · rw [hihl, hlength]
    exact hmessage
  · rw [hlength]
    exact hinside
  · rw [hihl, Nat.add_assoc, hagree _ (by omega), ← Nat.add_assoc]
    exact htype

/-! ## Frames in flight -/

/-- The two ends of the link. -/
inductive Side where
  | left
  | right
deriving DecidableEq

def Side.other : Side → Side
  | .left => .right
  | .right => .left

theorem Side.other_other (side : Side) : side.other.other = side := by
  cases side <;> rfl

abbrev Frame : Type := List UInt8

/-- The space in front of the data in a buffer. -/
def headroom : Nat := 128

/-- A frame in a buffer. -/
def received (stale : Memory) (frame : Frame) : Memory := stale.store headroom frame

/-- The frames on their way to each host. -/
abbrev InFlight : Type := Side → List Frame

/-- A frame arrives at a host, in a buffer with other content. -/
structure Delivery where
  side : Side
  index : Nat
  stale : Memory

/-- The frame that a host transmits when it handles another one. -/
def transmits (nic : Nic) (stale : Memory) (frame : Frame) : Option Frame :=
  match handleIcmpPacket (received stale frame) headroom nic with
  | .sent mem => some (mem.load headroom frame.length)
  | _ => none

/-- A delivery: what is transmitted, and what is in flight afterwards. -/
def deliver (nics : Side → Nic) (inFlight : InFlight) (delivery : Delivery) :
    Option Frame × InFlight :=
  match (inFlight delivery.side)[delivery.index]? with
  | none => (none, inFlight)
  | some frame =>
      let rest := Function.update inFlight delivery.side
        ((inFlight delivery.side).eraseIdx delivery.index)
      match transmits (nics delivery.side) delivery.stale frame with
      | none => (none, rest)
      | some answer =>
          (some answer, Function.update rest delivery.side.other
            (rest delivery.side.other ++ [answer]))

def network (nics : Side → Nic) : Machine InFlight Delivery (Option Frame) := ⟨deliver nics⟩

/-- A frame is an echo request. -/
def RequestFrame (frame : Frame) : Prop :=
  EchoRequest (fun i => frame.getD i 0) 0 frame.length

/-- No frame in flight is an echo request. -/
def NoRequests (inFlight : InFlight) : Prop := ∀ side, ∀ frame ∈ inFlight side, ¬ RequestFrame frame

/-- What is delivered is an echo request if it passes the filter. -/
def DeliversRequest (nics : Side → Nic) (inFlight : InFlight) (delivery : Delivery) : Prop :=
  ∀ frame, (inFlight delivery.side)[delivery.index]? = some frame →
    RequestIfPasses (received delivery.stale frame) headroom frame.length (nics delivery.side)

theorem received_apply (stale : Memory) (frame : Frame) {j : Nat} (hj : j < frame.length) :
    received stale frame (headroom + j) = frame.getD j 0 := by
  rw [received, Memory.store, if_pos (by omega), Nat.add_sub_cancel_left]

theorem requestFrame_of_received {stale : Memory} {frame : Frame}
    (hrequest : EchoRequest (received stale frame) headroom frame.length) : RequestFrame frame :=
  hrequest.transfer fun j hj => by rw [received_apply stale frame hj, Nat.zero_add]

theorem transmits_isSome_iff (nic : Nic) (stale : Memory) (frame : Frame) :
    (transmits nic stale frame).isSome ↔ Passes nic (received stale frame) headroom := by
  rw [← exists_sent_iff, transmits]
  cases handleIcmpPacket (received stale frame) headroom nic with
  | freed => simp
  | raised => simp
  | sent mem => simp

/-- A delivery that meets the condition transmits nothing while there are no requests, and
there are none afterwards. -/
theorem deliver_silent {nics : Side → Nic} {inFlight : InFlight} {delivery : Delivery}
    (hnone : NoRequests inFlight) (hguard : DeliversRequest nics inFlight delivery) :
    (deliver nics inFlight delivery).1 = none ∧ NoRequests (deliver nics inFlight delivery).2 := by
  unfold deliver
  split
  next => exact ⟨rfl, hnone⟩
  next frame hframe =>
    have hsilent : transmits (nics delivery.side) delivery.stale frame = none := by
      rw [← Option.not_isSome_iff_eq_none, transmits_isSome_iff]
      intro hpasses
      exact hnone delivery.side frame (List.mem_of_getElem? hframe)
        (requestFrame_of_received (hguard frame hframe hpasses))
    simp only [hsilent, true_and]
    intro side other hother
    by_cases hside : side = delivery.side
    · subst hside
      rw [Function.update_self] at hother
      exact hnone _ other (List.mem_of_mem_eraseIdx hother)
    · rw [Function.update_of_ne hside] at hother
      exact hnone side other hother

/-- Without requests at the start, a run whose deliveries all meet the condition is silent. -/
theorem network_silent {nics : Side → Nic} {inFlight : InFlight} {deliveries : List Delivery}
    (hnone : NoRequests inFlight)
    (halong : (network nics).Along (DeliversRequest nics) inFlight deliveries) :
    ∀ answer ∈ (network nics).answers inFlight deliveries, answer = none := by
  induction deliveries generalizing inFlight with
  | nil => exact fun answer hanswer => absurd hanswer List.not_mem_nil
  | cons delivery rest ih =>
      obtain ⟨hsilent, hnext⟩ := deliver_silent hnone halong.1
      intro answer hanswer
      rcases List.mem_cons.mp hanswer with rfl | hlater
      · exact hsilent
      · exact ih hnext halong.2 answer hlater

/-! ## Replies to replies -/

/-- A frame that its receiver answers, whoever it is, and comes from an address of the other
host. -/
structure Bouncing (nics : Side → Nic) (side : Side) (frame : Frame) : Prop where
  long : 34 ≤ frame.length
  passes : Passes (nics side) (fun i => frame.getD i 0) 0
  returns : Ip4Addr.getString (fun i => frame.getD i 0) 26 ∈ (nics side.other).ips

theorem getString_congr {mem mem' : Memory} {start start' : Nat}
    (hagree : ∀ j < 4, mem (start + j) = mem' (start' + j)) :
    Ip4Addr.getString mem start = Ip4Addr.getString mem' start' := by
  rw [Ip4Addr.getString, Memory.load_eq_load hagree, Ip4Addr.getString]

theorem Passes.transfer {nic : Nic} {mem mem' : Memory} {data data' : Nat}
    (hpasses : Passes nic mem data)
    (hagree : ∀ j, 12 ≤ j → j < 34 → mem' (data' + j) = mem (data + j)) : Passes nic mem' data' := by
  obtain ⟨hetherType, hprotocol, haddressed⟩ := hpasses
  refine ⟨?_, ?_, ?_⟩
  · rw [netWord, Nat.add_assoc, hagree _ (by omega) (by omega), hagree _ (by omega) (by omega),
      ← Nat.add_assoc]
    exact hetherType
  · rw [hagree _ (by omega) (by omega), hprotocol]
  · have hdst : Ip4Addr.getString mem' (data' + 30) = Ip4Addr.getString mem (data + 30) := by
      apply getString_congr
      intro j hj
      rw [Nat.add_assoc, hagree _ (by omega) (by omega), Nat.add_assoc]
    rw [AddressedTo, hdst]
    exact haddressed

/-- The answer to such a frame is one for the other host. -/
theorem Bouncing.transmits {nics : Side → Nic} {side : Side} {frame : Frame}
    (hbouncing : Bouncing nics side frame) (stale : Memory) :
    ∃ answer, transmits (nics side) stale frame = some answer ∧
      Bouncing nics side.other answer := by
  obtain ⟨hlong, hpasses, hreturns⟩ := hbouncing
  have hreceived : ∀ j < 34, received stale frame (headroom + j) = frame.getD j 0 :=
    fun j hj => received_apply stale frame (by omega)
  have hpasses' : Passes (nics side) (received stale frame) headroom :=
    hpasses.transfer fun j _ hj => by rw [hreceived j hj, Nat.zero_add]
  obtain ⟨between, mem', hreply, hreaddressed, hframe, -⟩ :=
    reply_spec (received stale frame) headroom (nics side)
  have hsent := (handleIcmpPacket_eq_sent_iff _ _ _ mem').mpr ⟨hpasses', hreply⟩
  have hanswer : ∀ j < frame.length,
      (mem'.load headroom frame.length).getD j 0 = mem' (headroom + j) :=
    fun j hj => Memory.getD_load mem' headroom hj
  -- these bytes are kept but for the TTL, and the addresses are exchanged
  have hkept : ∀ j, 12 ≤ j → j < 24 → j ≠ 22 → mem' (headroom + j) = frame.getD j 0 := by
    intro j hle hj httl
    rw [hframe _ (by omega) (by omega), hreaddressed.kept _ (by omega) (by omega) (by omega),
      hreceived j (by omega)]
  have hsrc : ∀ j < 4, mem' (headroom + 26 + j) = frame.getD (30 + j) 0 := by
    intro j hj
    rw [hframe _ (by omega) (by omega), hreaddressed.src j hj, Nat.add_assoc,
      hreceived _ (by omega)]
  have hdst : ∀ j < 4, mem' (headroom + 30 + j) = frame.getD (26 + j) 0 := by
    intro j hj
    rw [hframe _ (by omega) (by omega), hreaddressed.dst j hj, Nat.add_assoc,
      hreceived _ (by omega)]
  refine ⟨mem'.load headroom frame.length, ?_, ?_, ⟨?_, ?_, ?_⟩, ?_⟩
  · rw [Icmp.transmits, hsent]
  · rw [Memory.length_load]
    exact hlong
  · have hetherType := hpasses.etherType
    rw [netWord, hanswer _ (by omega), hanswer _ (by omega), hkept _ (by omega) (by omega)
      (by omega), hkept _ (by omega) (by omega) (by omega)]
    exact hetherType
  · rw [hanswer _ (by omega), hkept _ (by omega) (by omega) (by omega)]
    exact hpasses.protocol
  · have haddress : Ip4Addr.getString (fun i => (mem'.load headroom frame.length).getD i 0)
        (0 + 30) = Ip4Addr.getString (fun i => frame.getD i 0) 26 :=
      getString_congr fun j hj => by
        rw [hanswer _ (by omega), Nat.zero_add, ← Nat.add_assoc, hdst j hj]
    rw [AddressedTo, haddress]
    exact hreturns
  · have haddress : Ip4Addr.getString (fun i => (mem'.load headroom frame.length).getD i 0) 26 =
        Ip4Addr.getString (fun i => frame.getD i 0) (0 + 30) :=
      getString_congr fun j hj => by
        rw [hanswer _ (by omega), ← Nat.add_assoc, hsrc j hj, Nat.zero_add]
    rw [haddress, Side.other_other]
    exact hpasses.addressed

/-- One frame is in flight. -/
def single (side : Side) (frame : Frame) : InFlight := fun receiver =>
  if receiver = side then [frame] else []

theorem deliver_single {nics : Side → Nic} {side : Side} {frame answer : Frame} {stale : Memory}
    (htransmits : transmits (nics side) stale frame = some answer) :
    deliver nics (single side frame) ⟨side, 0, stale⟩ = (some answer, single side.other answer) := by
  have hframe : (single side frame side)[0]? = some frame := by simp [single]
  have hnext : Function.update (Function.update (single side frame) side []) side.other
      (Function.update (single side frame) side [] side.other ++ [answer]) =
        single side.other answer := by
    funext other
    cases side <;> cases other <;> simp [single, Side.other, Function.update]
  simp only [deliver, hframe, htransmits]
  rw [← hnext]
  simp [single]

/-- Two hosts answer such a frame, and each other's answers, as often as they are delivered. -/
theorem Bouncing.forever {nics : Side → Nic} {side : Side} {frame : Frame}
    (hbouncing : Bouncing nics side frame) (stale : Memory) (count : Nat) :
    ∃ deliveries, deliveries.length = count ∧
      ∀ answer ∈ (network nics).answers (single side frame) deliveries, answer ≠ none := by
  induction count generalizing side frame with
  | zero => exact ⟨[], rfl, fun answer hanswer => absurd hanswer List.not_mem_nil⟩
  | succ count ih =>
      obtain ⟨answer, htransmits, hnext⟩ := hbouncing.transmits stale
      obtain ⟨deliveries, hlength, hanswered⟩ := ih hnext
      have hstep : (network nics).step (single side frame) ⟨side, 0, stale⟩ =
          (some answer, single side.other answer) := deliver_single htransmits
      refine ⟨⟨side, 0, stale⟩ :: deliveries, by rw [List.length_cons, hlength], ?_⟩
      intro later hlater
      rw [Machine.answers, hstep] at hlater
      rcases List.mem_cons.mp hlater with rfl | hlater
      · exact Option.some_ne_none answer
      · exact hanswered later hlater

/-! ## The responder and its condition -/

/-- Exactly requests are answered where everything that passes the filter is one, and there
two hosts without requests in flight stay silent. -/
theorem requestsOnly_iff_and_silent (mem : Memory) (data len : Nat) (nic : Nic)
    (nics : Side → Nic) (inFlight : InFlight) (deliveries : List Delivery) :
    (AnswersRequestsOnly mem data len nic ↔ RequestIfPasses mem data len nic) ∧
    (NoRequests inFlight → (network nics).Along (DeliversRequest nics) inFlight deliveries →
      ∀ answer ∈ (network nics).answers inFlight deliveries, answer = none) :=
  ⟨answersRequestsOnly_iff mem data len nic, network_silent⟩

/-- Hosts with the addresses 10.0.0.1 and 10.0.0.2. -/
def tenOneTwo : Side → Nic
  | .left => ⟨["10.0.0.1"], "02:00:00:00:00:01"⟩
  | .right => tenTwo

/-- An echo reply from 10.0.0.1 to 10.0.0.2. -/
def pong : Frame :=
  [0x02, 0, 0, 0, 0, 2, 0x02, 0, 0, 0, 0, 1, 0x08, 0x00,
    0x45, 0, 0, 29, 0, 0, 0, 0, 64, 1, 0x66, 0xDE, 10, 0, 0, 1, 10, 0, 0, 2,
    0, 0, 0x8C, 0xCA, 0x12, 0x34, 0, 1, 0x61]

theorem pong_not_request : ¬ RequestFrame pong := by
  intro hrequest
  exact absurd hrequest.type (by decide)

theorem noRequests_single_pong (side : Side) : NoRequests (single side pong) := by
  intro receiver frame hframe
  unfold single at hframe
  split at hframe
  next =>
    rw [List.mem_singleton] at hframe
    rw [hframe]
    exact pong_not_request
  next => exact absurd hframe List.not_mem_nil

theorem pong_bouncing : Bouncing tenOneTwo .right pong where
  long := by decide
  passes := ⟨by decide, by decide, by decide⟩
  returns := by decide

/-- Both hosts answer replies, each other's as well. -/
theorem pong_answered :
    (¬ ∀ (mem : Memory) (data len : Nat) (nic : Nic), AnswersRequestsOnly mem data len nic) ∧
    ¬ ∀ (nics : Side → Nic) (inFlight : InFlight) (deliveries : List Delivery),
      NoRequests inFlight → ∀ answer ∈ (network nics).answers inFlight deliveries,
        answer = none := by
  refine ⟨?_, ?_⟩
  · intro halways
    have hanswered := (exists_sent_iff _ 0 tenTwo).mpr pong_bouncing.passes
    exact pong_not_request ((halways _ 0 pong.length tenTwo).mp hanswered).1
  · intro halways
    obtain ⟨deliveries, hlength, hanswered⟩ := pong_bouncing.forever (fun _ => 0) 1
    have hsilent := halways tenOneTwo (single .right pong) deliveries (noRequests_single_pong _)
    cases deliveries with
    | nil => cases hlength
    | cons delivery rest =>
        exact hanswered _ List.mem_cons_self (hsilent _ List.mem_cons_self)

theorem pong_astray_silent : AnswersRequestsOnly ping 0 43 tenTwo ∧
    NoRequests (single .left pong) ∧
    ∀ answer ∈ (network tenOneTwo).answers (single .left pong) [⟨.left, 0, fun _ => 0⟩],
      answer = none := by
  obtain ⟨hanswers, hsilent⟩ := requestsOnly_iff_and_silent ping 0 43 tenTwo tenOneTwo
    (single .left pong) [⟨.left, 0, fun _ => 0⟩]
  refine ⟨hanswers.mpr fun _ => ping_request, noRequests_single_pong _, ?_⟩
  apply hsilent (noRequests_single_pong _)
  refine ⟨?_, trivial⟩
  intro frame hframe hastray
  have hpong : frame = pong := (Option.some.inj hframe).symm
  rw [hpong] at hastray
  exact absurd hastray.addressed (by decide)

end Libmoon.Icmp
