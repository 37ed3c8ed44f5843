import Libmoon.Packet.Headers

/-! # Packet types and their registry

`createStack` declares a packet struct for a list of headers and remembers the
list, which `getArgs` hands out again. The elements of such a list are keywords
or tables. Tables are shared between lists and are written to by the dissector,
so they live in a heap and a list holds references to them.
-/

namespace Libmoon.Packet

open Foundation

/-- A table `{ header, name = .., length = .., subType = .. }`. -/
structure HeaderTable where
  proto : Proto
  name : Option Member
  length : Option Nat
  subType : Option SubType
deriving DecidableEq, Repr

/-- An element of an argument list. -/
inductive Arg where
  | keyword (proto : Proto)
  | table (ref : Nat)
deriving DecidableEq, Repr

/-- A declared packet struct with its argument list. -/
structure Entry where
  name : StructName
  args : List Arg
deriving DecidableEq, Repr

/-- `pkt.packetStructs` and the tables that argument lists refer to. -/
structure Library where
  structs : List Entry
  tables : Nat → HeaderTable
  nextTable : Nat

/-- The member name that a header has by default. -/
def Proto.member (proto : Proto) : Member := ⟨.header proto, 1⟩

/-- `getHeaderData`. -/
def Library.getHeaderData (lib : Library) : Arg → Segment
  | .keyword proto =>
      { proto := proto, member := proto.member, length := none, subType := proto.defaultType }
  | .table ref =>
      let table := lib.tables ref
      { proto := table.proto
        member := table.name.getD table.proto.member
        length := table.length
        subType := table.subType.or table.proto.defaultType }

/-- The name that `packetMakeStruct` builds for an argument list. -/
def Library.structName (lib : Library) (args : List Arg) : StructName := args.map lib.getHeaderData

/-- A struct of that name has been declared. -/
def Library.Declared (lib : Library) (name : StructName) : Prop :=
  ∃ entry ∈ lib.structs, entry.name = name

instance (lib : Library) (name : StructName) : Decidable (lib.Declared name) :=
  inferInstanceAs (Decidable (∃ entry ∈ lib.structs, _))

/-- `getArgs` of the packet type of that name. -/
def Library.getArgs (lib : Library) (name : StructName) : Option (List Arg) :=
  (lib.structs.find? fun entry => entry.name = name).map Entry.args

/-- A new table. -/
def Library.alloc (lib : Library) (table : HeaderTable) : Library :=
  { lib with
    tables := fun ref => if ref = lib.nextTable then table else lib.tables ref
    nextTable := lib.nextTable + 1 }

/-- `createStack` and `packetMakeStruct`: two headers with the same member name are
fatal, and a struct that exists already is left as it is. -/
def Library.createStack (lib : Library) (args : List Arg) : Option Library :=
  if ¬ ((lib.structName args).map Segment.member).Nodup then none
  else if lib.Declared (lib.structName args) then some lib
  else some { lib with structs := lib.structs ++ [⟨lib.structName args, args⟩] }

/-! ## The library after loading -/

/-- A header in the source text of a stack. -/
inductive StackHeader where
  | keyword (proto : Proto)
  | table (proto : Proto) (name : Option MemberBase) (subType : Option SubType)

/-- The arguments of a stack, with its tables allocated one after the other. -/
def Library.stackArgs (lib : Library) : List StackHeader → List Arg × Library
  | [] => ([], lib)
  | .keyword proto :: rest =>
      let (args, lib) := lib.stackArgs rest
      (.keyword proto :: args, lib)
  | .table proto name subType :: rest =>
      let ref := lib.nextTable
      let lib := lib.alloc ⟨proto, name.map fun base => ⟨base, 1⟩, none, subType⟩
      let (args, lib) := lib.stackArgs rest
      (.table ref :: args, lib)

/-- One `createStack` of the source. -/
def Library.loadStack (lib : Library) (headers : List StackHeader) : Library :=
  let (args, lib) := lib.stackArgs headers
  (lib.createStack args).getD lib

/-- The stacks that `packet.lua` creates when it is loaded, in order. -/
def protocolStacks : List (List StackHeader) :=
  let eth : StackHeader := .keyword .ethernet
  let ip4 : StackHeader := .keyword .ip4
  let ip6 : StackHeader := .keyword .ip6
  let udp : StackHeader := .keyword .udp
  let gre : StackHeader := .keyword .gre
  let etherQinQ : StackHeader := .table .ethernet (some .etherQinQ) (some .qinq)
  let nestedIp4 : StackHeader := .table .ip4 (some .nestedIp4) none
  let nestedIp6 : StackHeader := .table .ip6 (some .nestedIp6) none
  [ [],
    [eth], [.table .ethernet none (some .vlan)], [.table .ethernet none (some .qinq)],
    [eth, ip4], [eth, ip6],
    [eth, .keyword .arp],
    [eth, ip4, .keyword .icmp], [eth, ip6, .keyword .icmp],
    [eth, ip4, udp], [eth, ip6, udp],
    [eth, ip4, .keyword .tcp], [eth, ip6, .keyword .tcp],
    [eth, .keyword .ptp], [eth, ip4, udp, .keyword .ptp],
    [eth, ip4, udp, .keyword .vxlan],
    [eth, ip4, udp, .keyword .vxlan, .table .ethernet (some .innerEth) none],
    [eth, ip4, .keyword .esp], [eth, ip6, .keyword .esp],
    [eth, ip4, .keyword .ah],
    [eth, ip4, udp, .keyword .dns], [eth, ip6, udp, .keyword .dns],
    [eth, ip4, udp, .table .sflow none (some .ip4)],
    [eth, ip4, udp, .keyword .ipfix],
    [eth, .keyword .lacp],
    [eth, ip4, gre], [eth, ip6, gre],
    [eth, ip4, gre, etherQinQ, nestedIp4], [eth, ip6, gre, etherQinQ, nestedIp6],
    [eth, ip4, gre, etherQinQ, .keyword .arp],
    [eth, ip4, gre, etherQinQ, nestedIp4, udp], [eth, ip6, gre, etherQinQ, nestedIp6, udp] ]

/-- The freshly loaded library. -/
def freshLibrary : Library :=
  protocolStacks.foldl Library.loadStack ⟨[], fun _ => ⟨.ethernet, none, none, none⟩, 0⟩

end Libmoon.Packet
