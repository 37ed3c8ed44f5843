import Libmoon.Foundation.Stepping
import Libmoon.Packet.Stack
import Mathlib.Data.List.ModifyLast

/-! # Dissection

`packetResolveLastHeader` looks at the last header of the packet type it is called
on, casts the packet to a better fitting type and calls itself on that; a cast is
one step here. Types that do not exist yet are created on the way. A cast to a
struct that was never declared raises an error, and so do a method that does not
exist and a duplicate member name.
-/

namespace Libmoon.Packet

open Foundation

/-- The errors that dissection can raise. -/
inductive DissectError where
  /-- `ffi.cast` to a name that was not declared -/
  | undeclaredStruct (name : StructName)
  /-- `self:getNextHeader()` on a GRE header -/
  | missingMethod
  /-- the `log:fatal` of `packetMakeStruct` -/
  | duplicateMember
  /-- the last header is not a member of the struct -/
  | missingMember
deriving DecidableEq, Repr

/-- A packet type, or an error; and what has become of the registry. -/
structure DissectResult where
  outcome : Except DissectError StructName
  lib : Library

/-- A packet that has been cast to a type. -/
structure Dissection where
  lib : Library
  name : StructName

/-- The order in which `pairs` visits the keys of `pkt.packetStructs`. Lua does not
specify it. -/
structure PairsOrder where
  visit : List StructName → List StructName
  perm : ∀ names, (visit names).Perm names

/-- `ffi.cast(newName .. "*", self):resolveLastHeader()`. -/
def castTo (lib : Library) (name : StructName) : Stepped Dissection DissectResult :=
  if lib.Declared name then .next ⟨lib, name⟩ else .done ⟨.error (.undeclaredStruct name), lib⟩

/-- The offset and the declaration of a member of a struct that starts at `offset`. -/
def memberAt (member : Member) : StructName → Nat → Option (Nat × Segment)
  | [], _ => none
  | segment :: rest, offset =>
      if segment.member = member then some (offset, segment)
      else memberAt member rest (offset + segment.size)

/-- `headers[#headers]`. -/
def Library.lastHeader (lib : Library) (name : StructName) : Option (Nat × Segment) :=
  match (lib.getArgs name).bind List.getLast? with
  | none => none
  | some last => memberAt (lib.getHeaderData last).member name 0

/-- The new member name: the number is increased for every member of that name met
on the way through the argument list. -/
def freshMember (members : List Member) (nextMember : Member) : Member :=
  members.foldl
    (fun newMember member =>
      if member = newMember then ⟨nextMember.base, newMember.number + 1⟩ else newMember)
    nextMember

/-- `string.find(k, newName)` and no further `__`: the same headers, followed by one
of the protocol in question. -/
def similar (name : StructName) (proto : Proto) (key : StructName) : Bool :=
  key.dropLast = name && key.getLast?.map Segment.proto = some proto

/-- The last part of `packetResolveLastHeader`. -/
def resolveNext (order : PairsOrder) (mem : Memory) (lib : Library) (name : StructName)
    (offset : Nat) (last : Segment) : Stepped Dissection DissectResult :=
  match resolveNextHeader mem offset last with
  | none => .done ⟨.error .missingMethod, lib⟩
  | some none => .done ⟨.ok name, lib⟩
  | some (some nextHeader) =>
      let next := lib.getHeaderData (.keyword nextHeader)
      let simple := name ++ [⟨nextHeader, next.member, none, next.subType⟩]
      if lib.Declared simple then castTo lib simple
      else
        match (order.visit (lib.structs.map Entry.name)).find? (similar name nextHeader) with
        | some found => castTo lib found
        | none =>
            let args := (lib.getArgs name).getD []
            let newMember := freshMember (args.map fun arg => (lib.getHeaderData arg).member)
              next.member
            let newArgs := args ++ [.table lib.nextTable]
            match (lib.alloc ⟨nextHeader, some newMember, next.length, next.subType⟩).createStack
                newArgs with
            | none => .done ⟨.error .duplicateMember, lib⟩
            | some lib => castTo lib (name ++ [⟨nextHeader, newMember, none, next.subType⟩])

/-- Write the length into the last element of the argument list of a type. A keyword
is replaced by a new table, a table is changed in place. -/
def Library.setLastLength (lib : Library) (name : StructName) (len : Nat) : Library :=
  match (lib.getArgs name).bind List.getLast? with
  | none => lib
  | some (.keyword proto) =>
      let ref := lib.nextTable
      let lib := lib.alloc ⟨proto, none, some len, none⟩
      { lib with
        structs := lib.structs.map fun entry =>
          if entry.name = name then
            { entry with args := entry.args.modifyLast fun _ => .table ref }
          else entry }
  | some (.table ref) =>
      { lib with
        tables := fun other =>
          if other = ref then { lib.tables ref with length := some len } else lib.tables other }

/-- The second part of `packetResolveLastHeader`. The length is compared as a number
with the text in the name, so the branch is taken for every positive length. -/
def resolveLength (order : PairsOrder) (mem : Memory) (lib : Library) (name : StructName)
    (offset : Nat) (last : Segment) : Stepped Dissection DissectResult :=
  match getVariableLength mem offset last with
  | none => resolveNext order mem lib name offset last
  | some len =>
      if len > 0 then
        let lib := lib.setLastLength name len.toNat
        let newName := name.modifyLast fun segment => { segment with length := some len.toNat }
        let created :=
          if lib.Declared newName then some lib
          else lib.createStack ((lib.getArgs name).getD [])
        match created with
        | none => .done ⟨.error .duplicateMember, lib⟩
        | some lib =>
            if name ≠ newName then castTo lib newName
            else resolveNext order mem lib name offset last
      else resolveNext order mem lib name offset last

/-- `packetResolveLastHeader`, up to its call of itself. -/
def resolveLastHeader (order : PairsOrder) (mem : Memory) (packet : Dissection) :
    Stepped Dissection DissectResult :=
  match packet.lib.lastHeader packet.name with
  | none => .done ⟨.error .missingMember, packet.lib⟩
  | some (offset, last) =>
      match getSubType mem offset last with
      | none => resolveLength order mem packet.lib packet.name offset last
      | some subType =>
          if (packet.name.getLast?.bind Segment.subType) ≠ some subType then
            castTo packet.lib
              (packet.name.modifyLast fun segment => { segment with subType := some subType })
          else resolveLength order mem packet.lib packet.name offset last

/-- The struct of `getEthernetPacket`. -/
def ethernetPacket : StructName := [⟨.ethernet, Proto.ethernet.member, none, some .default⟩]

/-- `pkt:get()` comes to a result. -/
def Gets (order : PairsOrder) (mem : Memory) (lib : Library) (result : DissectResult) : Prop :=
  Yields (resolveLastHeader order mem) ⟨lib, ethernetPacket⟩ result

end Libmoon.Packet
