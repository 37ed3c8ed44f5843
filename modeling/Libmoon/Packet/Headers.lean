import Libmoon.Foundation.ByteMemory

/-! # Protocol headers

What the modules under `proto/` contribute to dissection: the size of each header
struct, and the three functions that the dissector calls on the last header it
has resolved. Only the fields these functions read are modelled.
-/

namespace Libmoon.Packet

open Foundation

/-- The protocols of `proto.lua`. -/
inductive Proto where
  | ethernet | ip4 | ip6 | arp | icmp | udp | tcp | ptp | vxlan | esp | ah | dns | ipfix | sflow
  | lacp | gre
deriving DecidableEq, Repr

/-- The sub-types of `ethernet.lua` and `sflow.lua`. -/
inductive SubType where
  | default | vlan | qinq | ip4 | ip6
deriving DecidableEq, Repr

/-- `proto[p].defaultType`. -/
def Proto.defaultType : Proto → Option SubType
  | .ethernet => some .default
  | .sflow => some .ip4
  | _ => none

/-- The member names that occur in packet structs: a header is called after its
protocol (`eth` for Ethernet) unless the stack names it otherwise. -/
inductive MemberBase where
  | header (proto : Proto)
  | innerEth | etherQinQ | nestedIp4 | nestedIp6
deriving DecidableEq, Repr

/-- A member name. The number stands behind the base when it is not 1. -/
structure Member where
  base : MemberBase
  number : Nat
deriving DecidableEq, Repr

/-- One header of a packet struct, as it is written in the name of the struct:
`__proto_member_length_subType` with `x` for a missing length or sub-type. -/
structure Segment where
  proto : Proto
  member : Member
  length : Option Nat
  subType : Option SubType
deriving DecidableEq, Repr

/-- The name of a packet struct. No part of it contains an underscore, so that
`strSplit(name, "_")` and `table.concat(sub, "_")` take it apart and put it
together again. -/
abbrev StructName : Type := List Segment

/-- The size of a header struct without its variable member. -/
def headerSize (proto : Proto) (subType : Option SubType) : Nat :=
  match proto with
  | .ethernet =>
      match subType with
      | some .vlan => 18
      | some .qinq => 22
      | _ => 14
  | .ip4 => 20
  | .ip6 => 40
  | .arp => 28
  | .icmp => 4
  | .udp => 8
  | .tcp => 20
  | .ptp => 34
  | .vxlan => 8
  | .esp => 16
  | .ah => 36
  | .dns => 12
  | .ipfix => 16
  | .sflow =>
      match subType with
      | some .ip6 => 40
      | _ => 28
  | .lacp => 110
  | .gre => 4

/-- `headerVariableMember` is set. -/
def Proto.hasVariableMember : Proto → Bool
  | .ip4 | .tcp | .icmp => true
  | _ => false

/-- The size of the header in the packet struct. -/
def Segment.size (segment : Segment) : Nat :=
  headerSize segment.proto segment.subType +
    if segment.proto.hasVariableMember then segment.length.getD 0 else 0

/-- `hton16`, which swaps the two bytes. -/
def hton16 (word : UInt16) : UInt16 := (word >>> 8) ||| (word <<< 8)

/-- `eth.TYPE_8021Q`. -/
def type8021Q : UInt16 := 0x8100

/-- `etherHeader:getType`; the type follows the tags. -/
def etherType (mem : Memory) (offset : Nat) (subType : Option SubType) : UInt16 :=
  hton16 (mem.word16 (offset + headerSize .ethernet subType - 2))

/-- `mapNameType` of `ethernet.lua`. -/
def etherNext (type : UInt16) : Option Proto :=
  if type = 0x0800 then some .ip4
  else if type = 0x86dd then some .ip6
  else if type = 0x0806 then some .arp
  else if type = 0x88f7 then some .ptp
  else if type = 0x8809 then some .lacp
  else none

/-- `mapNameProto` of `ip4.lua` and `ip6.lua`, which differ in the number of ICMP. -/
def ipNext (protoIcmp proto : UInt8) : Option Proto :=
  if proto = protoIcmp then some .icmp
  else if proto = 0x11 then some .udp
  else if proto = 0x06 then some .tcp
  else if proto = 0x32 then some .esp
  else if proto = 0x33 then some .ah
  else if proto = 0x2f then some .gre
  else none

/-- `mapNamePort` of `udp.lua`. -/
def udpNext (port : UInt16) : Option Proto :=
  if port = 319 ∨ port = 320 then some .ptp
  else if port = 4789 then some .vxlan
  else if port = 6343 then some .sflow
  else if port = 53 then some .dns
  else if port = 4739 then some .ipfix
  else none

/-- `getSubType` of the header at an offset: only Ethernet headers have one. -/
def getSubType (mem : Memory) (offset : Nat) (segment : Segment) : Option SubType :=
  match segment.proto with
  | .ethernet =>
      match segment.subType with
      | some .vlan => some .vlan
      | some .qinq => some .qinq
      | _ => if etherType mem offset segment.subType = type8021Q then some .vlan else some .default
  | _ => none

/-- `getVariableLength`: IPv4 and TCP compute it from their header length, and only
TCP cuts it off at zero. -/
def getVariableLength (mem : Memory) (offset : Nat) (segment : Segment) : Option Int :=
  match segment.proto with
  | .ip4 => some ((((mem offset &&& 0x0f).toNat : Int) - 5) * 4)
  | .tcp => some (max 0 ((((mem (offset + 12) >>> 4) &&& 0x0f).toNat - 5 : Int) * 4))
  | _ => none

/-- `resolveNextHeader`. The one of GRE calls a method that GRE headers do not have,
which raises an error: the result is then `none`. -/
def resolveNextHeader (mem : Memory) (offset : Nat) (segment : Segment) : Option (Option Proto) :=
  match segment.proto with
  | .ethernet => some (etherNext (etherType mem offset segment.subType))
  | .ip4 => some (ipNext 0x01 (mem (offset + 9)))
  | .ip6 => some (ipNext 0x3a (mem (offset + 6)))
  | .udp => some (udpNext (hton16 (mem.word16 (offset + 2))))
  | .vxlan => some (some .ethernet)
  | .gre => none
  | _ => some none

end Libmoon.Packet
