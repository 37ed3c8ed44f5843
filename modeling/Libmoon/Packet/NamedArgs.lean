import Libmoon.Foundation.LuaBit
import Libmoon.Packet.Headers

/-! # Named arguments

`pkt:fill` takes a table of named arguments, in which the name of a header's member is
followed by the name of one of its fields. Before a header is filled, its
`setDefaultNamedArgs` adds what is missing and can be told from the rest of the stack,
and filling adds default addresses. The table is shared by all headers.
-/

namespace Libmoon.Packet

open Foundation

/-- The values of named arguments. -/
inductive Value where
  | number (number : ℚ)
  | text (text : String)
  | flag (flag : Bool)
  /-- a `union` of 32-bit words -/
  | words (words : List (BitVec 32))
deriving DecidableEq

/-- Everything but `nil` and `false` counts as true. -/
def truthy : Option Value → Bool
  | none => false
  | some (.flag flag) => flag
  | some _ => true

/-- A table of named arguments. -/
abbrev NamedArgs : Type := String → Option Value

namespace NamedArgs

/-- `args[key] = value`. -/
def set (args : NamedArgs) (key : String) (value : Value) : NamedArgs :=
  Function.update args key (some value)

/-- `args[key] = args[key] or value`. -/
def setDefault (args : NamedArgs) (key : String) (value : Value) : NamedArgs :=
  if truthy (args key) then args else args.set key value

/-- The same with a value from a table, if it is there. -/
def setFound (args : NamedArgs) (key : String) (value : Option ℚ) : NamedArgs :=
  match value with
  | some number => args.setDefault key (.number number)
  | none => args

/-- Derive the length of a header from `pktLength`, which is a number. -/
def setLength (args : NamedArgs) (pre : String) (accumulatedLength : Nat) : Option NamedArgs :=
  if truthy (args (pre ++ "Length")) || !truthy (args "pktLength") then some args
  else
    match args "pktLength" with
    | some (.number pktLength) =>
        some (args.set (pre ++ "Length") (.number (pktLength - accumulatedLength)))
    | _ => none

end NamedArgs

/-- A header of a packet type, as `getHeaderData` returns it. -/
structure HeaderData where
  proto : Proto
  name : String
  length : Option Nat
  subType : Option SubType
deriving DecidableEq, Repr

/-- `ffi.sizeof` of the header in the packet struct. -/
def HeaderData.size (header : HeaderData) : Nat :=
  headerSize header.proto header.subType +
    if header.proto.hasVariableMember then header.length.getD 0 else 0

/-- `mapNameType` of `ethernet.lua`. -/
def etherTypeOf : Proto → Option ℚ
  | .ip4 => some 0x0800
  | .ip6 => some 0x86dd
  | .arp => some 0x0806
  | .ptp => some 0x88f7
  | .lacp => some 0x8809
  | _ => none

/-- `mapNameProto` of `ip4.lua` and `ip6.lua`. -/
def ipProtocolOf (protoIcmp : ℚ) : Proto → Option ℚ
  | .icmp => some protoIcmp
  | .udp => some 0x11
  | .tcp => some 0x06
  | .esp => some 0x32
  | .ah => some 0x33
  | .gre => some 0x2f
  | _ => none

/-- `mapNamePort` of `udp.lua`, the first port of each. -/
def udpPortOf : Proto → Option ℚ
  | .ptp => some 319
  | .vxlan => some 4789
  | .sflow => some 6343
  | .dns => some 53
  | .ipfix => some 4739
  | _ => none

/-- `setDefaultNamedArgs`. -/
def HeaderData.setDefaultNamedArgs (header : HeaderData) (args : NamedArgs)
    (nextHeader : Option Proto) (accumulatedLength headerLength : Nat) : Option NamedArgs :=
  let pre := header.name
  match header.proto with
  | .ethernet =>
      let args := args.setFound (pre ++ "Type") (nextHeader.bind etherTypeOf)
      some (if nextHeader = some .lacp then args.set (pre ++ "Dst") (.text "01:80:c2:00:00:02")
        else args)
  | .ip4 => do
      let args ← args.setLength pre accumulatedLength
      let args := args.setFound (pre ++ "Protocol") (nextHeader.bind (ipProtocolOf 0x01))
      some (args.setDefault (pre ++ "HeaderLength") (.number (headerLength / 4)))
  | .ip6 => do
      let args ← args.setLength pre (accumulatedLength + 40)
      some (args.setFound (pre ++ "NextHeader") (nextHeader.bind (ipProtocolOf 0x3a)))
  | .udp => do
      let args ← args.setLength pre accumulatedLength
      some (args.setFound (pre ++ "Dst") (nextHeader.bind udpPortOf))
  | .ipfix | .ptp => args.setLength pre accumulatedLength
  | .tcp => some (args.setDefault (pre ++ "DataOffset") (.number (headerLength / 4)))
  | _ => some args

/-- The default addresses that `fill` writes into the table. -/
def defaultAddresses : Proto → List (String × String)
  | .ethernet => [("Src", "02:03:04:05:06:07"), ("Dst", "08:09:0a:0b:0c:0d")]
  | .ip4 => [("Src", "192.168.1.1"), ("Dst", "192.168.1.2")]
  | .ip6 => [("Src", "fe80::1"), ("Dst", "fe80::2")]
  | .arp => [("HardwareSrc", "01:02:03:04:05:06"), ("HardwareDst", "07:08:09:0a:0b:0c"),
      ("ProtoSrc", "0.1.2.3"), ("ProtoDst", "4.5.6.7")]
  | _ => []

/-- The table after `fill`. -/
def HeaderData.setDefaultAddresses (header : HeaderData) (args : NamedArgs) : NamedArgs :=
  (defaultAddresses header.proto).foldl
    (fun args address => args.setDefault (header.name ++ address.1) (.text address.2)) args

end Libmoon.Packet
