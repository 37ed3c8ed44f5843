import Libmoon.Foundation.Flags
import Libmoon.Foundation.Machine
import Mathlib.Algebra.GroupWithZero.Nat
import Mathlib.Algebra.Order.Ring.Rat
import Mathlib.Data.Fin.Basic

/-! # The LACP task

The task of `lacp.lua` visits its ports in turn. A visit receives at most one
LACPDU and then, once a second, transmits on every port; after the last port the
number of ports that are up is published. What the task reads from outside, the
packet and the clock, is an input of the step that reads it. Times are seconds;
the addresses, filters and buffers of the devices are left out, since the port
states do not depend on them.
-/

namespace Libmoon.Lacp

open Foundation

/-! ## State flags -/

/-- `lacp.STATE_ACT`. -/
def stateAct : BitVec 32 := 0x01
/-- `lacp.STATE_AGG`. -/
def stateAgg : BitVec 32 := 0x04
/-- `lacp.STATE_SYNC`. -/
def stateSync : BitVec 32 := 0x08
/-- `lacp.STATE_COL`. -/
def stateCol : BitVec 32 := 0x10
/-- `lacp.STATE_DIST`. -/
def stateDist : BitVec 32 := 0x20
/-- `lacp.STATE_DEF`. -/
def stateDef : BitVec 32 := 0x40
/-- `lacp.STATE_EXP`. -/
def stateExp : BitVec 32 := 0x80

/-- The flags of a port at the start and after its partner expired. -/
def expiredFlags : BitVec 32 := stateAct ||| stateAgg ||| stateDef ||| stateExp

/-! ## LACPDUs -/

/-- `bswap16`; the result is stored in a 16 bit field. -/
def hton16 (int : BitVec 32) : BitVec 16 :=
  ((int >>> 8) ||| ((int &&& 0xFF) <<< 8)).setWidth 16

/-- `struct lacp_info`, its words as they stand in the packet. -/
structure Info where
  sysPriority : BitVec 16
  sysId : Fin 6 → UInt8
  key : BitVec 16
  portPriority : BitVec 16
  portId : BitVec 16
  state : BitVec 8

/-- `ffi.new("struct lacp_info")`. -/
def Info.zero : Info := ⟨0, fun _ => 0, 0, 0, 0, 0⟩

def Info.equalsIgnoreState (lhs rhs : Info) : Bool :=
  lhs.sysPriority == rhs.sysPriority
    && decide (∀ i, lhs.sysId i = rhs.sysId i)
    && lhs.key == rhs.key
    && lhs.portPriority == rhs.portPriority
    && lhs.portId == rhs.portId

/-- A received `lacp_header`, less the reserved bytes and the collector delay. -/
structure Pdu where
  subtype : UInt8
  version : UInt8
  actorType : UInt8
  actorLen : UInt8
  actor : Info
  partnerType : UInt8
  partnerLen : UInt8
  partner : Info
  collectorType : UInt8
  collectorLen : UInt8

def Pdu.validate (pdu : Pdu) : Bool :=
  pdu.subtype == 1
    && pdu.version == 1
    && pdu.actorType == 1
    && pdu.actorLen == 20
    && pdu.partnerType == 2
    && pdu.partnerLen == 20
    && pdu.collectorType == 3
    && pdu.collectorLen == 16

/-- The header that `lacpHeader:fill` writes around the two infos. -/
def Pdu.fill (actor partner : Info) : Pdu where
  subtype := 1
  version := 1
  actorType := 1
  actorLen := 20
  actor := actor
  partnerType := 2
  partnerLen := 20
  partner := partner
  collectorType := 3
  collectorLen := 16

theorem validate_fill (actor partner : Info) : (Pdu.fill actor partner).validate = true := rfl

/-- A flag of the state byte that the partner reports about itself. -/
def Pdu.actorHas (pdu : Pdu) (mask : BitVec 32) : Prop :=
  Flagged (pdu.actor.state.setWidth 32) mask

instance (pdu : Pdu) (mask : BitVec 32) : Decidable (pdu.actorHas mask) :=
  inferInstanceAs (Decidable (Flagged _ _))

/-! ## Ports -/

inductive RxState where
  | expired
  | current
deriving DecidableEq

/-- One entry of `queues`. A port that was never up has no `up` field; it is read as false. -/
structure Port where
  rxState : RxState
  rxStateTimeout : ℚ
  partnerInfo : Info
  actorInfo : Info
  stateFlags : BitVec 32
  up : Bool

/-- A port as the task sets it up. -/
def Port.initial : Port where
  rxState := .expired
  rxStateTimeout := 0
  partnerInfo := .zero
  actorInfo := .zero
  stateFlags := expiredFlags
  up := false

/-- `LACP_TIMEOUT`. -/
def lacpTimeout : ℚ := 30

/-- The flags after the comparison of the partner's view of us with what we sent. -/
def Port.syncFlags (port : Port) (pdu : Pdu) : BitVec 32 :=
  if port.actorInfo.equalsIgnoreState pdu.partner then
    ((port.stateFlags ||| stateSync) &&& ~~~stateDef) ||| stateCol
  else
    port.stateFlags

/-- `DIST` follows the partner's `COL`. -/
def distFlags (pdu : Pdu) (flags : BitVec 32) : BitVec 32 :=
  if pdu.actorHas stateCol then flags ||| stateDist else flags &&& ~~~stateDist

/-- `COL` follows the partner's `DIST`. -/
def colFlags (pdu : Pdu) (flags : BitVec 32) : BitVec 32 :=
  if pdu.actorHas stateDist then flags ||| stateCol else flags &&& ~~~stateCol

/-- Reception of one LACPDU; an invalid one is only reported in the log. -/
def Port.receive (port : Port) (pdu : Pdu) (clock : ℚ) : Port :=
  if pdu.validate then
    { rxState := .current
      rxStateTimeout := clock + lacpTimeout
      partnerInfo := pdu.actor
      actorInfo := port.actorInfo
      stateFlags := colFlags pdu (distFlags pdu (port.syncFlags pdu))
      up := decide (pdu.actorHas stateCol ∧ pdu.actorHas stateDist) }
  else
    port

/-- The first half of a transmission: a port whose partner was silent for too long expires. -/
def Port.expire (port : Port) (clock : ℚ) : Port :=
  if clock > port.rxStateTimeout then
    { port with
      rxState := .expired
      stateFlags := expiredFlags
      partnerInfo := .zero
      actorInfo := .zero }
  else
    port

/-- `EXP` follows the receive state. -/
def Port.markExpired (port : Port) : Port :=
  match port.rxState with
  | .expired => { port with stateFlags := port.stateFlags ||| stateExp }
  | .current => { port with stateFlags := port.stateFlags &&& ~~~stateExp }

/-- What a channel is configured with: its address, its key and the transmit queue of each port. -/
structure Channel (numPorts : Nat) where
  lacpMac : Fin 6 → UInt8
  key : BitVec 32
  txQueueId : Fin numPorts → BitVec 32

variable {numPorts : Nat}

/-- The actor information in an outgoing LACPDU: two priorities and the address
stand in every buffer of the pool, the rest is set for each transmission. -/
def Channel.actorOf (channel : Channel numPorts) (i : Fin numPorts) (port : Port) : Info where
  sysPriority := hton16 0x7FFF
  sysId := channel.lacpMac
  key := hton16 channel.key
  portPriority := hton16 0x7FFF
  portId := hton16 (channel.txQueueId i + 1000)
  state := port.stateFlags.setWidth 8

/-- The second half of a transmission: the port remembers the actor information it sends. -/
def Channel.send (channel : Channel numPorts) (i : Fin numPorts) (port : Port) : Port :=
  { port with actorInfo := channel.actorOf i port }

/-- The body of the transmit loop for one port. -/
def Channel.transmit (channel : Channel numPorts) (i : Fin numPorts) (port : Port) (clock : ℚ) :
    Port :=
  channel.send i (port.expire clock).markExpired

/-- The LACPDU that this transmission puts on the wire. -/
def Channel.transmitted (channel : Channel numPorts) (i : Fin numPorts) (port : Port)
    (clock : ℚ) : Pdu :=
  let sender := (port.expire clock).markExpired
  .fill (channel.actorOf i sender) sender.partnerInfo

/-! ## The task -/

/-- Where in its loop the task is. -/
inductive Position (numPorts : Nat) where
  | receiving (i : Fin numPorts)
  | transmitting (i : Fin numPorts)
  | publishing
deriving DecidableEq

/-- `status[name]`. -/
structure Status where
  up : Nat
  numPorts : Nat
deriving DecidableEq

structure Task (numPorts : Nat) where
  ports : Fin numPorts → Port
  lastUpdate : ℚ
  status : Status
  position : Position numPorts

/-- What one step may read: the packet that `tryRecvIdle` returned, if any, and
the clock. A transmission reads the clock before it, once for each port, and
after it. -/
structure Input (numPorts : Nat) where
  received : Option Pdu
  clock : ℚ
  expiryClock : Fin numPorts → ℚ
  updateClock : ℚ

/-- The task before its first step. The address of the first port is read, so there is one. -/
def Task.initial (numPorts : Nat) [NeZero numPorts] : Task numPorts where
  ports := fun _ => .initial
  lastUpdate := 0
  status := ⟨0, numPorts⟩
  position := .receiving 0

/-- The position after the visit to a port. -/
def Position.afterVisit (i : Fin numPorts) : Position numPorts :=
  if h : i.val + 1 < numPorts then .receiving ⟨i.val + 1, h⟩ else .publishing

def Task.receive (task : Task numPorts) (i : Fin numPorts) (input : Input numPorts) :
    Task numPorts :=
  match input.received with
  | none => { task with position := .transmitting i }
  | some pdu =>
      { task with
        ports := Function.update task.ports i ((task.ports i).receive pdu input.clock)
        position := .transmitting i }

/-- "transmit every second". -/
def Task.due (task : Task numPorts) (input : Input numPorts) : Prop :=
  input.clock > task.lastUpdate + 1

instance (task : Task numPorts) (input : Input numPorts) : Decidable (task.due input) :=
  inferInstanceAs (Decidable (_ > _))

def Task.transmit (channel : Channel numPorts) (task : Task numPorts) (i : Fin numPorts)
    (input : Input numPorts) : Task numPorts :=
  if task.due input then
    { task with
      ports := fun j => channel.transmit j (task.ports j) (input.expiryClock j)
      lastUpdate := input.updateClock
      position := .afterVisit i }
  else
    { task with position := .afterVisit i }

/-- The number of ports counted as up. -/
def countUp (ports : Fin numPorts → Port) : Nat :=
  (List.finRange numPorts).countP fun i => (ports i).up

def Task.publish [NeZero numPorts] (task : Task numPorts) : Task numPorts :=
  { task with status := ⟨countUp task.ports, numPorts⟩, position := .receiving 0 }

/-- One step of `lacpTask`. -/
def Task.step [NeZero numPorts] (channel : Channel numPorts) (task : Task numPorts)
    (input : Input numPorts) : Task numPorts :=
  match task.position with
  | .receiving i => task.receive i input
  | .transmitting i => task.transmit channel i input
  | .publishing => task.publish

/-- The task as a machine; its steps answer nothing. -/
def lacpTask [NeZero numPorts] (channel : Channel numPorts) :
    Machine (Task numPorts) (Input numPorts) Unit where
  step task input := ((), task.step channel input)

end Libmoon.Lacp
