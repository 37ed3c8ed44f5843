import Libmoon.Packet.Addresses
import Libmoon.Packet.NamedArgs

/-! # Fields of headers

The accessors of eleven headers, and which of them `get` and `fill` call under which name.
Offsets are those of the packed header structs. A setter that is called with `nil` sets its
default, and a value that is no number counts as an error.
-/

namespace Libmoon.Packet

open Foundation

/-- Read a field of the header at an address. -/
abbrev Getter : Type := Memory → Nat → Value

/-- Write a field of the header at an address, unless that raises an error. -/
abbrev Setter : Type := Option Value → Memory → Nat → Option Memory

/-- `int = int or default`. -/
def numberOr (default : ℚ) : Option Value → Option ℚ
  | none | some (.flag false) => some default
  | some (.number number) => some number
  | _ => none

/-- A field that is stored as it is. -/
def setByte (offset : Nat) (default : ℚ) : Setter := fun arg mem base => do
  let int ← numberOr default arg
  some (mem.setWord (base + offset) (BitVec.ofInt (8 * 1) (truncate int)))

def getByte (offset : Nat) : Getter := fun mem base =>
  .number (mem.word (base + offset) 1).toNat

/-- A field that is put together with bit operations. -/
def setBits (offset size : Nat) (default : ℚ) (update : BitVec 32 → BitVec 32 → BitVec 32) :
    Setter := fun arg mem base => do
  let int ← numberOr default arg
  let old := (mem.word (base + offset) size).setWidth 32
  some (mem.setWord (base + offset) ((update old (tobit int)).setWidth (8 * size)))

def getBits (offset size : Nat) (read : BitVec 32 → BitVec 32) : Getter := fun mem base =>
  .number (read ((mem.word (base + offset) size).setWidth 32)).toInt

/-- `self.field = hton16(int)`. -/
def setHton16 (offset : Nat) (default : ℚ) : Setter :=
  setBits offset 2 default fun _ int => bswap16 int

def getHton16 (offset : Nat) : Getter := getBits offset 2 bswap16

/-- `self.field = hton(int)`. -/
def setHton (offset : Nat) (default : ℚ) : Setter :=
  setBits offset 4 default fun _ int => bswap int

def getHton (offset : Nat) : Getter := getBits offset 4 bswap

/-- How a header is read and filled: names of arguments and the accessors they go with. -/
structure HeaderFields where
  get : List (String × Getter)
  fill : List (String × Setter)

namespace EtherHeader

/-- The branches of `etherHeader:fill`; values of other types are ignored. -/
def setAddress (offset : Nat) : Setter := fun arg mem base =>
  match arg with
  | some (.text mac) => some (MacAddr.setString mem (base + offset) mac)
  | some (.number addr) => some (MacAddr.set mem (base + offset) (some addr))
  | _ => some mem

def getAddress (offset : Nat) : Getter := fun mem base =>
  .text (MacAddr.getString mem (base + offset))

def setType : Setter := setHton16 12 0x0800

def getType : Getter := getHton16 12

/-- `etherHeader:get` and `etherHeader:fill`. -/
def fields : HeaderFields where
  get := [("Src", getAddress 6), ("Dst", getAddress 0), ("Type", getType)]
  fill := [("Src", setAddress 6), ("Dst", setAddress 0), ("Type", setType)]

end EtherHeader

namespace Ip4Header

def setVersion : Setter :=
  setBits 0 1 4 fun old int => (old &&& 0x0f#32) ||| ((int <<< 4) &&& 0xf0#32)

def getVersion : Getter := getBits 0 1 fun verihl => (verihl >>> 4) &&& 0x0f#32

def setHeaderLength : Setter :=
  setBits 0 1 5 fun old int => (old &&& 0xf0#32) ||| (int &&& 0x0f#32)

def getHeaderLength : Getter := getBits 0 1 fun verihl => verihl &&& 0x0f#32

def setTOS : Setter := setByte 1 0

def getTOS : Getter := getByte 1

def setLength : Setter := setHton16 2 48

def getLength : Getter := getHton16 2

def setID : Setter := setHton16 4 0

def getID : Getter := getHton16 4

def setFlags : Setter :=
  setBits 6 2 0 fun old int =>
    bswap16 ((bswap16 old &&& 0x1fff#32) ||| ((int <<< 13) &&& 0xe000#32))

def getFlags : Getter := getBits 6 2 fun frag => (bswap16 frag >>> 13) &&& 0x0007#32

def setFragment : Setter :=
  setBits 6 2 0 fun old int => bswap16 ((bswap16 old &&& 0xe000#32) ||| (int &&& 0x1fff#32))

def getFragment : Getter := getBits 6 2 fun frag => bswap16 frag &&& 0x1fff#32

def setTTL : Setter := setByte 8 64

def getTTL : Getter := getByte 8

def setProtocol : Setter := setByte 9 0x11

def getProtocol : Getter := getByte 9

def setChecksum : Setter := setHton16 10 0

def getChecksum : Getter := getHton16 10

/-- Addresses are strings or numbers. -/
def setAddress (offset : Nat) : Setter := fun arg mem base =>
  match arg with
  | some (.text ip) => Ip4Addr.setString mem (base + offset) ip
  | some (.number ip) => some (Ip4Addr.set mem (base + offset) ip)
  | _ => none

def getAddress (offset : Nat) : Getter := fun mem base =>
  .text (Ip4Addr.getString mem (base + offset))

/-- `ip4Header:get` and `ip4Header:fill`. -/
def fields : HeaderFields where
  get := [("Src", getAddress 12), ("Dst", getAddress 16), ("Version", getVersion),
    ("HeaderLength", getHeaderLength), ("TOS", getTOS), ("Length", getLength), ("ID", getID),
    ("Flags", getFlags), ("Fragment", getFragment), ("TTL", getTTL), ("Protocol", getProtocol),
    ("Checksum", getChecksum)]
  fill := [("Version", setVersion), ("HeaderLength", setHeaderLength), ("TOS", setTOS),
    ("Length", setLength), ("ID", setID), ("Flags", setFlags), ("Fragment", setFragment),
    ("TTL", setTTL), ("Protocol", setProtocol), ("Checksum", setChecksum),
    ("Src", setAddress 12), ("Dst", setAddress 16)]

end Ip4Header

/-- What the accessors use from outside: `inet_pton`, and two random words. -/
structure Environment where
  inetPton : String → Option (List UInt8)
  randomIv : List (BitVec 32)

namespace Ip6Header

def setVersion : Setter :=
  setBits 0 4 6 fun old int =>
    bswap ((bswap old &&& 0x0fffffff#32) ||| ((int <<< 28) &&& 0xf0000000#32))

def getVersion : Getter := getBits 0 4 fun vtf => (bswap vtf >>> 28) &&& 0x0000000f#32

def setTrafficClass : Setter :=
  setBits 0 4 0 fun old int =>
    bswap ((bswap old &&& 0xf00fffff#32) ||| ((int <<< 20) &&& 0x0ff00000#32))

def getTrafficClass : Getter := getBits 0 4 fun vtf => (bswap vtf >>> 20) &&& 0x000000ff#32

def setFlowLabel : Setter :=
  setBits 0 4 0 fun old int => bswap ((bswap old &&& 0xfff00000#32) ||| (int &&& 0x000fffff#32))

def getFlowLabel : Getter := getBits 0 4 fun vtf => bswap vtf &&& 0x000fffff#32

def setLength : Setter := setHton16 4 8

def getLength : Getter := getHton16 4

def setNextHeader : Setter := setByte 6 0x11

def getNextHeader : Getter := getByte 6

def setTTL : Setter := setByte 7 64

def getTTL : Getter := getByte 7

/-- Addresses are strings or unions. -/
def setAddress (env : Environment) (offset : Nat) : Setter := fun arg mem base =>
  match arg with
  | some (.text ip) => (parseIP6Address env.inetPton ip).map (Ip6Addr.set mem (base + offset))
  | some (.words addr) => some (Ip6Addr.set mem (base + offset) addr)
  | _ => none

def getAddress (offset : Nat) : Getter := fun mem base =>
  .text (Ip6Addr.getString mem (base + offset))

/-- `ip6Header:get` and `ip6Header:fill`. -/
def fields (env : Environment) : HeaderFields where
  get := [("Src", getAddress 8), ("Dst", getAddress 24), ("Version", getVersion),
    ("TrafficClass", getTrafficClass), ("FlowLabel", getFlowLabel), ("Length", getLength),
    ("NextHeader", getNextHeader), ("TTL", getTTL)]
  fill := [("Version", setVersion), ("TrafficClass", setTrafficClass),
    ("FlowLabel", setFlowLabel), ("Length", setLength), ("NextHeader", setNextHeader),
    ("TTL", setTTL), ("Src", setAddress env 8), ("Dst", setAddress env 24)]

end Ip6Header

namespace UdpHeader

def setSrcPort : Setter := setHton16 0 1024

def getSrcPort : Getter := getHton16 0

def setDstPort : Setter := setHton16 2 1025

def getDstPort : Getter := getHton16 2

def setLength : Setter := setHton16 4 28

def getLength : Getter := getHton16 4

def setChecksum : Setter := setHton16 6 0

def getChecksum : Getter := getHton16 6

/-- `udpHeader:get` and `udpHeader:fill`. -/
def fields : HeaderFields where
  get := [("Src", getSrcPort), ("Dst", getDstPort), ("Length", getLength),
    ("Checksum", getChecksum)]
  fill := [("Src", setSrcPort), ("Dst", setDstPort), ("Length", setLength),
    ("Checksum", setChecksum)]

end UdpHeader

namespace TcpHeader

def setSrcPort : Setter := setHton16 0 1025

def getSrcPort : Getter := getHton16 0

def setDstPort : Setter := setHton16 2 1024

def getDstPort : Getter := getHton16 2

/-- `tonumber(uint32(hton(self.field)))`. -/
def getUnsigned (offset : Nat) : Getter := fun mem base =>
  .number (bswap ((mem.word (base + offset) 4).setWidth 32)).toNat

def setSeqNumber : Setter := setHton 4 0

def getSeqNumber : Getter := getUnsigned 4

def setAckNumber : Setter := setHton 8 0

def getAckNumber : Getter := getUnsigned 8

def setDataOffset : Setter :=
  setBits 12 1 5 fun old int => (old &&& 0x0f#32) ||| ((int <<< 4) &&& 0xf0#32)

def getDataOffset : Getter := getBits 12 1 fun offset => (offset >>> 4) &&& 0x0f#32

/-- The reserved bits are the lower ones of the offset and the upper ones of the flags. -/
def setReserved : Setter := fun arg mem base => do
  let int ← numberOr 0 arg
  let off := (tobit int >>> 2) &&& 0x0f#32
  let old := (mem.word (base + 12) 1).setWidth 32 &&& 0xf0#32
  let mem := mem.setWord (base + 12) ((old ||| off).setWidth (8 * 1))
  let fla := tobit int <<< 6
  let old := (mem.word (base + 13) 1).setWidth 32 &&& 0x3f#32
  some (mem.setWord (base + 13) ((old ||| fla).setWidth (8 * 1)))

def getReserved : Getter := fun mem base =>
  let res := ((mem.word (base + 12) 1).setWidth 32 &&& 0x0f#32) <<< 2
  .number (res ||| ((mem.word (base + 13) 1).setWidth 32 >>> 6)).toInt

def setFlags : Setter :=
  setBits 13 1 0 fun old int => (old &&& 0xc0#32) ||| (int &&& 0x3f#32)

def getFlags : Getter := getBits 13 1 fun flags => flags &&& 0x3f#32

/-- `setUrg` and the like, which `fill` calls if the argument is neither false nor 0. -/
def setFlag (flag : BitVec 32) : Setter := fun arg mem base =>
  if truthy arg && arg != some (.number 0) then
    let flags := (mem.word (base + 13) 1).setWidth 32
    some (mem.setWord (base + 13) ((flags ||| flag).setWidth (8 * 1)))
  else some mem

/-- `getUrg` and the like. -/
def getFlag (flag : BitVec 32) (place : Nat) : Getter := fun mem base =>
  .flag ((((mem.word (base + 13) 1).setWidth 32 &&& flag) >>> place) == 1#32)

def setWindow : Setter := setHton16 14 29200

def getWindow : Getter := getHton16 14

def setChecksum : Setter := setHton16 16 0

def getChecksum : Getter := getHton16 16

def setUrgentPointer : Setter := setHton16 18 0

def getUrgentPointer : Getter := getHton16 18

/-- `tcpHeader:get` and `tcpHeader:fill`. -/
def fields : HeaderFields where
  get := [("Src", getSrcPort), ("Dst", getDstPort), ("SeqNumber", getSeqNumber),
    ("AckNumber", getAckNumber), ("DataOffset", getDataOffset), ("Reserved", getReserved),
    ("Flags", getFlags), ("Urg", getFlag 0x20#32 5), ("Ack", getFlag 0x10#32 4),
    ("Psh", getFlag 0x08#32 3), ("Rst", getFlag 0x04#32 2), ("Syn", getFlag 0x02#32 1),
    ("Fin", getFlag 0x01#32 0), ("Window", getWindow), ("Checksum", getChecksum),
    ("UrgentPointer", getUrgentPointer)]
  fill := [("Src", setSrcPort), ("Dst", setDstPort), ("SeqNumber", setSeqNumber),
    ("AckNumber", setAckNumber), ("DataOffset", setDataOffset), ("Reserved", setReserved),
    ("Flags", setFlags), ("Urg", setFlag 0x20#32), ("Ack", setFlag 0x10#32),
    ("Psh", setFlag 0x08#32), ("Rst", setFlag 0x04#32), ("Syn", setFlag 0x02#32),
    ("Fin", setFlag 0x01#32), ("Window", setWindow), ("Checksum", setChecksum),
    ("UrgentPointer", setUrgentPointer)]

end TcpHeader

namespace ArpHeader

def setHardwareAddressType : Setter := setHton16 0 1

def getHardwareAddressType : Getter := getHton16 0

def setProtoAddressType : Setter := setHton16 2 0x0800

def getProtoAddressType : Getter := getHton16 2

def setHardwareAddressLength : Setter := setByte 4 6

def getHardwareAddressLength : Getter := getByte 4

def setProtoAddressLength : Setter := setByte 5 4

def getProtoAddressLength : Getter := getByte 5

def setOperation : Setter := setHton16 6 1

def getOperation : Getter := getHton16 6

/-- `setHardwareSrc`, `setHardwareDst` or the ones for strings. -/
def setHardware (offset : Nat) : Setter := fun arg mem base =>
  match arg with
  | some (.text mac) => some (MacAddr.setString mem (base + offset) mac)
  | some (.number addr) => some (MacAddr.set mem (base + offset) (some addr))
  | none | some (.flag false) => some (MacAddr.set mem (base + offset) none)
  | _ => none

def getHardware (offset : Nat) : Getter := fun mem base =>
  .number (MacAddr.get mem (base + offset))

/-- `setProtoSrc`, `setProtoDst` or the ones for strings. -/
def setProto (offset : Nat) : Setter := Ip4Header.setAddress offset

def getProto (offset : Nat) : Getter := fun mem base => .number (Ip4Addr.get mem (base + offset))

/-- `arpHeader:get` and `arpHeader:fill`. -/
def fields : HeaderFields where
  get := [("HardwareAddressType", getHardwareAddressType),
    ("ProtoAddressType", getProtoAddressType), ("HardwareAddressLength", getHardwareAddressLength),
    ("ProtoAddressLength", getProtoAddressLength), ("Operation", getOperation),
    ("HardwareSrc", getHardware 8), ("HardwareDst", getHardware 18), ("ProtoSrc", getProto 14),
    ("ProtoDst", getProto 24)]
  fill := [("HardwareAddressType", setHardwareAddressType),
    ("ProtoAddressType", setProtoAddressType), ("HardwareAddressLength", setHardwareAddressLength),
    ("ProtoAddressLength", setProtoAddressLength), ("Operation", setOperation),
    ("HardwareSrc", setHardware 8), ("HardwareDst", setHardware 18), ("ProtoSrc", setProto 14),
    ("ProtoDst", setProto 24)]

end ArpHeader

namespace IcmpHeader

def setType : Setter := setByte 0 8

def getType : Getter := getByte 0

def setCode : Setter := setByte 1 0

def getCode : Getter := getByte 1

def setChecksum : Setter := setHton16 2 0

def getChecksum : Getter := getHton16 2

/-- The body is not written. -/
def setMessageBody : Setter := fun _ mem _ => some mem

def getMessageBody : Getter := fun _ _ => .number 0

/-- `icmpHeader:get` and `icmpHeader:fill`. -/
def fields : HeaderFields where
  get := [("Type", getType), ("Code", getCode), ("Checksum", getChecksum),
    ("MessageBody", getMessageBody)]
  fill := [("Type", setType), ("Code", setCode), ("Checksum", setChecksum),
    ("MessageBody", setMessageBody)]

end IcmpHeader

namespace VxlanHeader

def setFlags : Setter := setByte 0 8

def getFlags : Getter := getByte 0

/-- A 24-bit field, the first byte of which is the highest. -/
def setTriple (offset : Nat) : Setter := fun arg mem base => do
  let int ← numberOr 0 arg
  let mem := mem.setWord (base + offset)
    (((tobit int &&& 0xff0000#32) >>> 16).setWidth (8 * 1))
  let mem := mem.setWord (base + offset + 1)
    (((tobit int &&& 0x00ff00#32) >>> 8).setWidth (8 * 1))
  some (mem.setWord (base + offset + 2) ((tobit int &&& 0x0000ff#32).setWidth (8 * 1)))

def getTriple (offset : Nat) : Getter := fun mem base =>
  .number ((((mem.word (base + offset) 1).setWidth 32) <<< 16) |||
    ((((mem.word (base + offset + 1) 1).setWidth 32) <<< 8) |||
      ((mem.word (base + offset + 2) 1).setWidth 32))).toInt

def setReserved : Setter := setTriple 1

def getReserved : Getter := getTriple 1

def setVNI : Setter := setTriple 4

def getVNI : Getter := getTriple 4

def setReserved2 : Setter := setByte 7 0

def getReserved2 : Getter := getByte 7

/-- `vxlanHeader:get` and `vxlanHeader:fill`. -/
def fields : HeaderFields where
  get := [("Flags", getFlags), ("Reserved", getReserved), ("VNI", getVNI),
    ("Reserved2", getReserved2)]
  fill := [("Flags", setFlags), ("Reserved", setReserved), ("VNI", setVNI),
    ("Reserved2", setReserved2)]

end VxlanHeader

namespace GreHeader

def setProtoType : Setter := setHton16 2 0x6558

def getProtoType : Getter := getHton16 2

def setFlagsAndVersion : Setter := setHton16 0 0

def getFlagsAndVersion : Getter := getHton16 0

/-- `greHeader:get` and `greHeader:fill`. -/
def fields : HeaderFields where
  get := [("Proto", getProtoType), ("Flags", getFlagsAndVersion)]
  fill := [("Proto", setProtoType), ("Flags", setFlagsAndVersion)]

end GreHeader

namespace EspHeader

def setSPI : Setter := setHton 0 0

def getSPI : Getter := getHton 0

def setSQN : Setter := setHton 4 0

def getSQN : Getter := getHton 4

/-- `ipsecIV:set`, with a random IV by default. -/
def setIV (env : Environment) : Setter := fun arg mem base => do
  let iv ← match arg with
    | none | some (.flag false) => some env.randomIv
    | some (.words iv) => some iv
    | _ => none
  let mem := mem.setWord (base + 8) ((bswap (iv.getD 1 0)).setWidth (8 * 4))
  some (mem.setWord (base + 8 + 4) ((bswap (iv.getD 0 0)).setWidth (8 * 4)))

/-- `ipsecIV:get`. -/
def getIV : Getter := fun mem base =>
  .words [bswap ((mem.word (base + 8 + 4) 4).setWidth 32),
    bswap ((mem.word (base + 8) 4).setWidth 32)]

/-- `espHeader:get` and `espHeader:fill`. -/
def fields (env : Environment) : HeaderFields where
  get := [("SPI", getSPI), ("SQN", getSQN), ("IV", getIV)]
  fill := [("SPI", setSPI), ("SQN", setSQN), ("IV", setIV env)]

end EspHeader

namespace IpfixHeader

def setVersion : Setter := setHton16 0 0x000a

def getVersion : Getter := getHton16 0

def setLength : Setter := setHton16 2 0

def getLength : Getter := getHton16 2

def setExportTime : Setter := setHton 4 0

def getExportTime : Getter := getHton 4

def setSeq : Setter := setHton 8 0

def getSeq : Getter := getHton 8

def setObservationDomain : Setter := setHton 12 0

def getObservationDomain : Getter := getHton 12

/-- `ipfixHeader:get` and `ipfixHeader:fill`. -/
def fields : HeaderFields where
  get := [("Version", getVersion), ("Length", getLength), ("ExportTime", getExportTime),
    ("Seq", getSeq), ("ObservationDomain", getObservationDomain)]
  fill := [("Version", setVersion), ("Length", setLength), ("ExportTime", setExportTime),
    ("Seq", setSeq), ("ObservationDomain", setObservationDomain)]

end IpfixHeader

/-- The headers whose fields are modelled. -/
def HeaderData.fields (env : Environment) (header : HeaderData) : Option HeaderFields :=
  match header.proto with
  | .ethernet => if header.subType = some .default then some EtherHeader.fields else none
  | .ip4 => some Ip4Header.fields
  | .ip6 => some (Ip6Header.fields env)
  | .udp => some UdpHeader.fields
  | .tcp => some TcpHeader.fields
  | .arp => some ArpHeader.fields
  | .icmp => some IcmpHeader.fields
  | .vxlan => some VxlanHeader.fields
  | .gre => some GreHeader.fields
  | .esp => some (EspHeader.fields env)
  | .ipfix => some IpfixHeader.fields
  | _ => none

end Libmoon.Packet
