import Libmoon.Packet.Resolve
import Mathlib.Data.List.Induction

/-! # What the registry keeps

Dissection trusts the argument list of a packet type to describe the struct of that
name. The list does so when the type is created, but the length of a header is then
written into it by later packets. This file says what is left of the agreement, and
which changes of the registry it survives.
-/

namespace Libmoon.Packet

open Foundation

/-! ## Member names -/

/-- The members of a packet struct, numbered as the dissector does: the first member
of a base has number 1, the second one number 2. -/
def numbered (bases : List MemberBase) : List Member :=
  bases.foldl (fun members base => members ++ [⟨base, members.countP (·.base = base) + 1⟩]) []

theorem numbered_concat (bases : List MemberBase) (base : MemberBase) :
    numbered (bases ++ [base]) =
      numbered bases ++ [⟨base, (numbered bases).countP (·.base = base) + 1⟩] := by
  simp [numbered]

theorem number_le_of_mem_numbered {bases : List MemberBase} {member : Member}
    (hmem : member ∈ numbered bases) :
    member.number ≤ (numbered bases).countP (·.base = member.base) := by
  induction bases using List.reverseRecOn with
  | nil => cases hmem
  | append_singleton bases base ih =>
      rw [numbered_concat] at hmem ⊢
      rw [List.countP_append]
      rcases List.mem_append.mp hmem with hold | hnew
      · exact Nat.le_add_right_of_le (ih hold)
      · obtain rfl := List.mem_singleton.mp hnew
        simp

theorem numbered_nodup (bases : List MemberBase) : (numbered bases).Nodup := by
  induction bases using List.reverseRecOn with
  | nil => exact List.nodup_nil
  | append_singleton bases base ih =>
      rw [numbered_concat, List.nodup_append]
      refine ⟨ih, by simp, ?_⟩
      rintro member hmem other hother rfl
      obtain rfl := List.mem_singleton.mp hother
      exact Nat.not_succ_le_self _ (number_le_of_mem_numbered hmem)

/-- The dissector arrives at the next number. -/
theorem freshMember_numbered (bases : List MemberBase) (base : MemberBase) :
    freshMember (numbered bases) ⟨base, 1⟩ =
      ⟨base, (numbered bases).countP (·.base = base) + 1⟩ := by
  induction bases using List.reverseRecOn with
  | nil => rfl
  | append_singleton bases last ih =>
      unfold freshMember at ih ⊢
      rw [numbered_concat, List.foldl_append, ih, List.countP_append]
      by_cases hlast : last = base
      · simp [hlast]
      · simp [hlast]

/-! ## Argument lists -/

/-- A segment up to the length of a TCP header. Nothing follows a TCP header, so no
type is built on top of that length. -/
def Segment.upToTcp (segment : Segment) : Segment :=
  if segment.proto = .tcp then { segment with length := none } else segment

theorem Segment.upToTcp_proto (segment : Segment) : segment.upToTcp.proto = segment.proto := by
  unfold upToTcp
  split <;> rfl

theorem Segment.upToTcp_member (segment : Segment) : segment.upToTcp.member = segment.member := by
  unfold upToTcp
  split <;> rfl

theorem Segment.upToTcp_setLength (segment : Segment) (length : Option Nat) :
    { segment.upToTcp with length := length } = { segment with length := length } := by
  unfold upToTcp
  split <;> rfl

theorem Segment.upToTcp_of_ne {segment : Segment} (htcp : segment.proto ≠ .tcp) :
    segment.upToTcp = segment := if_neg htcp

theorem Segment.eq_of_upToTcp {first second : Segment} (heq : first.upToTcp = second.upToTcp)
    (htcp : second.proto ≠ .tcp) : first = second := by
  have hproto : first.proto = second.proto := by
    rw [← first.upToTcp_proto, heq, second.upToTcp_proto]
  rw [← Segment.upToTcp_of_ne htcp, ← heq, Segment.upToTcp_of_ne (hproto ▸ htcp)]

/-- A reference to a table that exists. -/
def Arg.Allocated (limit : Nat) : Arg → Prop
  | .keyword _ => True
  | .table ref => ref < limit

instance (limit : Nat) (arg : Arg) : Decidable (arg.Allocated limit) :=
  match arg with
  | .keyword _ => isTrue trivial
  | .table ref => inferInstanceAs (Decidable (ref < limit))

theorem Arg.Allocated.mono {limit limit' : Nat} {arg : Arg} (halloc : arg.Allocated limit)
    (hle : limit ≤ limit') : arg.Allocated limit' := by
  cases arg with
  | keyword proto => trivial
  | table ref => exact Nat.lt_of_lt_of_le halloc hle

/-- The argument list describes the struct, when its elements are read as `data` says. -/
structure Regular (data : Arg → Segment) (limit : Nat) (entry : Entry) : Prop where
  fits : (entry.args.map data).map Segment.upToTcp = entry.name.map Segment.upToTcp
  allocated : ∀ arg ∈ entry.args, arg.Allocated limit
  members : entry.name.map Segment.member =
    numbered (entry.name.map fun segment => segment.member.base)

instance (data : Arg → Segment) (limit : Nat) (entry : Entry) :
    Decidable (Regular data limit entry) :=
  decidable_of_iff
    ((entry.args.map data).map Segment.upToTcp = entry.name.map Segment.upToTcp ∧
      (∀ arg ∈ entry.args, arg.Allocated limit) ∧
      entry.name.map Segment.member =
        numbered (entry.name.map fun segment => segment.member.base))
    ⟨fun h => ⟨h.1, h.2.1, h.2.2⟩, fun h => ⟨h.fits, h.allocated, h.members⟩⟩

namespace Regular

variable {data data' : Arg → Segment} {limit limit' : Nat} {name parent : StructName}
  {args : List Arg} {segment : Segment}

theorem nodup (hregular : Regular data limit ⟨name, args⟩) : (name.map Segment.member).Nodup := by
  rw [hregular.members]
  exact numbered_nodup _

/-- It is only the tables in the list that matter. -/
theorem congr {entry : Entry} (hregular : Regular data limit entry)
    (hdata : ∀ arg ∈ entry.args, (data' arg).upToTcp = (data arg).upToTcp)
    (hlimit : limit ≤ limit') : Regular data' limit' entry := by
  refine ⟨?_, fun arg harg => (hregular.allocated arg harg).mono hlimit, hregular.members⟩
  rw [← hregular.fits]
  simpa using hdata

/-- One more header. -/
theorem concat {arg : Arg} (hregular : Regular data limit ⟨name, args⟩)
    (hfits : (data arg).upToTcp = segment.upToTcp) (halloc : arg.Allocated limit)
    (hnumber : segment.member.number =
      (name.map Segment.member).countP (·.base = segment.member.base) + 1) :
    Regular data limit ⟨name ++ [segment], args ++ [arg]⟩ := by
  have hargs := hregular.fits
  have hmembers := hregular.members
  refine ⟨?_, ?_, ?_⟩
  · simp only [List.map_append, List.map_cons, List.map_nil, hfits]
    rw [hargs]
  · intro other hother
    rcases List.mem_append.mp hother with hold | hnew
    · exact hregular.allocated other hold
    · exact List.mem_singleton.mp hnew ▸ halloc
  · simp only [List.map_append, List.map_cons, List.map_nil] at hmembers ⊢
    rw [numbered_concat, ← hmembers, ← hnumber]

/-- The last header and the list without it. -/
theorem split (hregular : Regular data limit ⟨parent ++ [segment], args⟩) :
    ∃ front last, args = front ++ [last] ∧ Regular data limit ⟨parent, front⟩ ∧
      (data last).upToTcp = segment.upToTcp ∧ last.Allocated limit ∧
      segment.member.number =
        (parent.map Segment.member).countP (·.base = segment.member.base) + 1 := by
  obtain ⟨hfits, halloc, hmembers⟩ := hregular
  simp only [List.map_append, List.map_cons, List.map_nil] at hfits hmembers
  rcases List.eq_nil_or_concat args with rfl | ⟨front, last, rfl⟩
  · simp at hfits
  · rw [List.concat_eq_append] at hfits halloc
    simp only [List.map_append, List.map_cons, List.map_nil] at hfits
    rw [numbered_concat] at hmembers
    obtain ⟨hfront, hlast⟩ := List.append_inj' hfits rfl
    obtain ⟨hbefore, hnumber⟩ := List.append_inj' hmembers rfl
    refine ⟨front, last, List.concat_eq_append,
      ⟨hfront, fun arg harg => halloc arg (by simp [harg]), hbefore⟩, List.singleton_inj.mp hlast,
      halloc last (by simp), ?_⟩
    rw [hbefore, List.singleton_inj.mp hnumber]

/-- Another last element that says the same. -/
theorem modifyLast {arg : Arg} (hregular : Regular data limit ⟨parent ++ [segment], args⟩)
    (hfits : (data arg).upToTcp = segment.upToTcp) (halloc : arg.Allocated limit) :
    Regular data limit ⟨parent ++ [segment], args.modifyLast fun _ => arg⟩ := by
  obtain ⟨front, last, rfl, hfront, _, _, hnumber⟩ := hregular.split
  rw [List.modifyLast_concat]
  exact hfront.concat hfits halloc hnumber

/-- The last header has a member name of its own. -/
theorem member_ne {front : List Arg} {last arg : Arg}
    (hregular : Regular data limit ⟨name, front ++ [last]⟩) (harg : arg ∈ front) :
    (data arg).member ≠ (data last).member := by
  have hmembers : (front ++ [last]).map (fun arg => (data arg).member) =
      name.map Segment.member := by
    have hfits := congrArg (List.map Segment.member) hregular.fits
    simpa [Function.comp_def, Segment.upToTcp_member] using hfits
  have hnodup := hregular.nodup
  rw [← hmembers, List.map_append, List.nodup_append] at hnodup
  exact hnodup.2.2 _ (List.mem_map_of_mem harg) _ (by simp)

end Regular

/-! ## The state that dissection relies on

A registry is clean if its types can be trusted again once the headers in front of
them have been passed. For IPv4 options right behind an untagged Ethernet header that
is so although they are written into a table which types of different lengths share:
every packet on its way to one of these types writes the length first.
-/

/-- The struct of a tagged Ethernet packet. -/
def vlanPacket : StructName := [⟨.ethernet, Proto.ethernet.member, none, some .vlan⟩]

/-- A header as it is first appended. -/
def Proto.segment (proto : Proto) : Segment := ⟨proto, proto.member, none, proto.defaultType⟩

/-- The struct of an untagged IPv4 packet without options. -/
def ip4Packet : StructName := ethernetPacket ++ [Proto.ip4.segment]

/-- The length of the options of an IPv4 header right behind an untagged Ethernet
header. -/
def outerLength : StructName → Option Nat
  | ether :: segment :: _ =>
      if [ether] = ethernetPacket ∧ segment.proto = .ip4 then segment.length else none
  | _ => none

/-- The table that these options are written to, once there is one. -/
def Library.outerArg (lib : Library) : Option Arg :=
  match lib.getArgs ip4Packet with
  | some [_, .table ref] => some (.table ref)
  | _ => none

/-- `getHeaderData`, if the length in that table was `length`. -/
def Library.dataWith (lib : Library) (length : Option Nat) (arg : Arg) : Segment :=
  if lib.outerArg = some arg then { lib.getHeaderData arg with length := length }
  else lib.getHeaderData arg

/-- Headers that dissection gets past. -/
def Passable (name : StructName) : Prop :=
  ∀ segment ∈ name, segment.proto ≠ .gre ∧ segment.proto ≠ .tcp

instance (name : StructName) : Decidable (Passable name) :=
  inferInstanceAs (Decidable (∀ segment ∈ name, _))

/-- A header as it is appended, up to the length of a TCP header. -/
def Segment.Plain (segment : Segment) : Prop :=
  (segment.proto = .tcp ∨ segment.length = none) ∧ segment.subType = segment.proto.defaultType

instance (segment : Segment) : Decidable segment.Plain := inferInstanceAs (Decidable (_ ∧ _))

/-- The number of leading headers that need not be plain. -/
def leading (name : StructName) : Nat := if (outerLength name).isSome then 2 else 1

/-- A type that can be trusted once the headers in front of it have been passed. -/
structure Sound (lib : Library) (entry : Entry) : Prop where
  regular : Regular (lib.dataWith (outerLength entry.name)) lib.nextTable entry
  plain : ∀ segment ∈ entry.name.drop (leading entry.name), segment.Plain
  outer : ∀ arg ∈ entry.args, lib.outerArg = some arg →
    entry.name = ip4Packet ∨ (outerLength entry.name).isSome

instance (lib : Library) (entry : Entry) : Decidable (Sound lib entry) :=
  decidable_of_iff
    (Regular (lib.dataWith (outerLength entry.name)) lib.nextTable entry ∧
      (∀ segment ∈ entry.name.drop (leading entry.name), segment.Plain) ∧
      ∀ arg ∈ entry.args, lib.outerArg = some arg →
        entry.name = ip4Packet ∨ (outerLength entry.name).isSome)
    ⟨fun h => ⟨h.1, h.2.1, h.2.2⟩, fun h => ⟨h.regular, h.plain, h.outer⟩⟩

/-- The types that an untagged packet passes first. -/
def firstTypes : List StructName :=
  [ethernetPacket, vlanPacket] ++
    ([.ip4, .ip6, .arp, .ptp, .lacp].map fun proto => ethernetPacket ++ [Proto.segment proto]) ++
    ([.icmp, .udp, .tcp, .esp, .ah, .gre].map fun proto => ip4Packet ++ [Proto.segment proto])

/-- The protocol that a member is called after. -/
def MemberBase.proto : MemberBase → Option Proto
  | .header proto => some proto
  | _ => none

/-- Members are called after no protocol but their own. -/
def Segment.Named (segment : Segment) : Prop :=
  ∀ proto ∈ segment.member.base.proto, segment.proto = proto

instance (segment : Segment) : Decidable segment.Named :=
  inferInstanceAs (Decidable (∀ proto ∈ segment.member.base.proto, _))

/-- What no packet changes. There is a TCP header without options wherever there is one
with options. -/
structure Tidy (lib : Library) : Prop where
  allocated : ∀ entry ∈ lib.structs, ∀ arg ∈ entry.args, arg.Allocated lib.nextTable
  named : ∀ entry ∈ lib.structs, ∀ segment ∈ entry.name, segment.Named
  tcp : ∀ entry ∈ lib.structs, entry.name.getLast?.map Segment.proto = some .tcp →
    lib.Declared (entry.name.dropLast ++ [Proto.tcp.segment])

/-- Dissection never gets to a type with a header behind GRE or TCP, and nothing is
said about these. -/
structure Clean (lib : Library) : Prop where
  tidy : Tidy lib
  first : ∀ name ∈ firstTypes, lib.Declared name
  sound : ∀ entry ∈ lib.structs, Passable entry.name.dropLast → Sound lib entry

theorem freshLibrary_tidy : Tidy freshLibrary :=
  ⟨by decide +kernel, by decide +kernel, by decide +kernel⟩

theorem freshLibrary_clean : Clean freshLibrary :=
  ⟨freshLibrary_tidy, by decide +kernel, by decide +kernel⟩

/-! ## Changes of the registry -/

/-- The header list of a type: what `getArgs` hands out, read by `getHeaderData`. -/
def Library.headerList (lib : Library) (name : StructName) : Option (List Segment) :=
  (lib.getArgs name).map fun args => args.map lib.getHeaderData

/-- Every type that exists keeps its header list. -/
def Library.Preserves (lib lib' : Library) : Prop :=
  ∀ name list, lib.headerList name = some list → lib'.headerList name = some list

theorem Library.getArgs_mem {lib : Library} {name : StructName} {args : List Arg}
    (hargs : lib.getArgs name = some args) : ⟨name, args⟩ ∈ lib.structs := by
  obtain ⟨entry, hfind, rfl⟩ := Option.map_eq_some_iff.mp hargs
  have hname : entry.name = name := by simpa using List.find?_some hfind
  rw [← hname]
  exact List.mem_of_find?_eq_some hfind

theorem Library.Declared.getArgs {lib : Library} {name : StructName}
    (hdeclared : lib.Declared name) : ∃ args, lib.getArgs name = some args := by
  obtain ⟨entry, hentry, hname⟩ := hdeclared
  cases hfind : lib.structs.find? fun entry => entry.name = name with
  | none => exact absurd hname (by simpa using List.find?_eq_none.mp hfind entry hentry)
  | some found => exact ⟨found.args, by simp [Library.getArgs, hfind]⟩

/-- Whatever the registry says about its tables, it still says, up to lengths that do
not matter. -/
structure Library.Keeps (lib lib' : Library) : Prop where
  data : ∀ length arg, arg.Allocated lib.nextTable →
    (lib'.dataWith length arg).upToTcp = (lib.dataWith length arg).upToTcp
  outer : ∀ arg, arg.Allocated lib.nextTable → lib'.outerArg = some arg → lib.outerArg = some arg
  limit : lib.nextTable ≤ lib'.nextTable

theorem Library.Keeps.of_data {lib lib' : Library} (houter : lib'.outerArg = lib.outerArg)
    (hdata : ∀ arg, arg.Allocated lib.nextTable →
      (lib'.getHeaderData arg).upToTcp = (lib.getHeaderData arg).upToTcp)
    (hlimit : lib.nextTable ≤ lib'.nextTable) : lib.Keeps lib' := by
  refine ⟨?_, fun arg _ harg => houter ▸ harg, hlimit⟩
  intro length arg halloc
  unfold Library.dataWith
  rw [houter]
  split
  next =>
    rw [← Segment.upToTcp_setLength, hdata arg halloc, Segment.upToTcp_setLength]
  next => exact hdata arg halloc

theorem Sound.keeps {lib lib' : Library} {entry : Entry} (hsound : Sound lib entry)
    (hkeeps : lib.Keeps lib') : Sound lib' entry := by
  have halloc := hsound.regular.allocated
  refine ⟨hsound.regular.congr ?_ hkeeps.limit, hsound.plain, ?_⟩
  · intro arg harg
    exact hkeeps.data _ arg (halloc arg harg)
  · intro arg harg houter
    exact hsound.outer arg harg (hkeeps.outer arg (halloc arg harg) houter)

/-- The registry stays clean if its new types are sound. -/
theorem Clean.keeps {lib lib' : Library} (hclean : Clean lib) (hkeeps : lib.Keeps lib')
    (htidy : Tidy lib')
    (hdeclared : ∀ name, lib.Declared name → lib'.Declared name)
    (hentries : ∀ entry ∈ lib'.structs, entry ∈ lib.structs ∨
      (Passable entry.name.dropLast → Sound lib' entry)) : Clean lib' := by
  refine ⟨htidy, fun name hname => hdeclared name (hclean.first name hname), ?_⟩
  intro entry hentry hpassable
  rcases hentries entry hentry with hold | hnew
  · exact (hclean.sound entry hold hpassable).keeps hkeeps
  · exact hnew hpassable

/-- The argument list can be trusted as it is if the length in the shared table is the
one that the name of the type has. -/
theorem Sound.regular_of_length {lib : Library} {entry : Entry} (hsound : Sound lib entry)
    (hlength : ∀ arg ∈ entry.args, lib.outerArg = some arg →
      (lib.getHeaderData arg).length = outerLength entry.name) :
    Regular lib.getHeaderData lib.nextTable entry := by
  apply hsound.regular.congr _ (Nat.le_refl _)
  intro arg harg
  unfold Library.dataWith
  split
  next houter => rw [← hlength arg harg houter]
  next => rfl

theorem Library.getHeaderData_alloc {lib : Library} {arg : Arg} (table : HeaderTable)
    (halloc : arg.Allocated lib.nextTable) :
    (lib.alloc table).getHeaderData arg = lib.getHeaderData arg := by
  cases arg with
  | keyword proto => rfl
  | table ref => simp [Library.getHeaderData, Library.alloc, Nat.ne_of_lt halloc]

/-- A new struct. -/
def Library.declare (lib : Library) (args : List Arg) : Library :=
  { lib with structs := lib.structs ++ [⟨lib.structName args, args⟩] }

theorem Library.createStack_of_new {lib : Library} {args : List Arg}
    (hnodup : ((lib.structName args).map Segment.member).Nodup)
    (hnew : ¬ lib.Declared (lib.structName args)) :
    lib.createStack args = some (lib.declare args) := by
  simp [Library.createStack, Library.declare, hnodup, hnew]

theorem Library.declared_declare {lib : Library} {args : List Arg} {name : StructName} :
    (lib.declare args).Declared name ↔ lib.Declared name ∨ name = lib.structName args := by
  simp [Library.Declared, Library.declare, or_and_right, exists_or, eq_comm]

theorem Library.getArgs_declare {lib : Library} {args : List Arg} {name : StructName}
    (hdeclared : lib.Declared name) : (lib.declare args).getArgs name = lib.getArgs name := by
  obtain ⟨found, hfound⟩ := hdeclared.getArgs
  obtain ⟨entry, hfind, rfl⟩ := Option.map_eq_some_iff.mp hfound
  simp [Library.getArgs, Library.declare, List.find?_append, hfind]

theorem Library.getArgs_declare_new {lib : Library} {args : List Arg}
    (hnew : ¬ lib.Declared (lib.structName args)) :
    (lib.declare args).getArgs (lib.structName args) = some args := by
  have hnone : (lib.structs.find? fun entry => entry.name = lib.structName args) = none := by
    rw [List.find?_eq_none]
    intro entry hentry hname
    exact hnew ⟨entry, hentry, by simpa using hname⟩
  simp [Library.getArgs, Library.declare, List.find?_append, hnone]

/-- What `setLastLength` does to a type with a known argument list: its last header is
from now on the table `ref` of the new length, which either is the table that it was
before or did not exist. -/
structure LengthSet (lib lib' : Library) (name : StructName) (len : Nat) (front : List Arg)
    (last : Arg) (ref : Nat) : Prop where
  data_ref : lib'.getHeaderData (.table ref) = { lib.getHeaderData last with length := some len }
  data : ∀ arg, arg.Allocated lib.nextTable → arg ≠ .table ref →
    lib'.getHeaderData arg = lib.getHeaderData arg
  origin : last = .table ref ∨ (∃ proto, last = .keyword proto) ∧ ref = lib.nextTable
  limit : lib.nextTable ≤ lib'.nextTable
  allocated : ref < lib'.nextTable
  getArgs : lib'.getArgs name = some (front ++ [.table ref])
  getArgs_of_ne : ∀ other, other ≠ name → lib'.getArgs other = lib.getArgs other
  declared : ∀ other, lib'.Declared other ↔ lib.Declared other
  entries : ∀ entry' ∈ lib'.structs, entry' ∈ lib.structs ∨
    ref = lib.nextTable ∧ ∃ entry ∈ lib.structs, entry.name = name ∧
      entry' = { entry with args := entry.args.modifyLast fun _ => .table ref }

theorem LengthSet.exists_entry {lib lib' : Library} {name : StructName} {len ref : Nat}
    {front : List Arg} {last : Arg} (hset : LengthSet lib lib' name len front last ref)
    {entry' : Entry} (hentry' : entry' ∈ lib'.structs) :
    ∃ entry ∈ lib.structs, entry.name = entry'.name := by
  rcases hset.entries entry' hentry' with hold | ⟨_, entry, hentry, _, rfl⟩
  · exact ⟨entry', hold, rfl⟩
  · exact ⟨entry, hentry, rfl⟩

theorem Library.setLastLength_keyword {lib : Library} {name : StructName} {front : List Arg}
    {proto : Proto} (len : Nat) (hargs : lib.getArgs name = some (front ++ [.keyword proto])) :
    LengthSet lib (lib.setLastLength name len) name len front (.keyword proto) lib.nextTable := by
  have hset : lib.setLastLength name len =
      { lib.alloc ⟨proto, none, some len, none⟩ with
        structs := lib.structs.map fun entry =>
          if entry.name = name then
            { entry with args := entry.args.modifyLast fun _ => .table lib.nextTable }
          else entry } := by
    simp [Library.setLastLength, hargs, Library.alloc]
  -- the lists change, the names stay, so that every lookup finds the same entry as before
  have hname : ∀ entry : Entry, (if entry.name = name then
      { entry with args := entry.args.modifyLast fun _ => .table lib.nextTable }
      else entry).name = entry.name := by
    intro entry
    split <;> rfl
  have hfind : ∀ other, (lib.setLastLength name len).getArgs other =
      (lib.structs.find? fun entry => entry.name = other).map fun entry =>
        if entry.name = name then entry.args.modifyLast fun _ => .table lib.nextTable
        else entry.args := by
    intro other
    rw [hset]
    simp only [Library.getArgs, List.find?_map, Option.map_map, Function.comp_def, hname]
    congr 1
    funext entry
    split <;> rfl
  refine ⟨?_, ?_, .inr ⟨⟨proto, rfl⟩, rfl⟩, ?_, ?_, ?_, ?_, ?_, ?_⟩
  · simp [hset, Library.getHeaderData, Library.alloc]
  · intro arg halloc _
    rw [hset]
    exact Library.getHeaderData_alloc _ halloc
  · simp [hset, Library.alloc]
  · simp [hset, Library.alloc]
  · obtain ⟨entry, hentry, heq⟩ := Option.map_eq_some_iff.mp hargs
    have hentryName : entry.name = name := by simpa using List.find?_some hentry
    simp [hfind, hentry, hentryName, heq, List.modifyLast_concat]
  · intro other hne
    rw [hfind, Library.getArgs]
    cases hentry : lib.structs.find? fun entry => entry.name = other with
    | none => rfl
    | some entry =>
        have hentryName : entry.name = other := by simpa using List.find?_some hentry
        simp [hentryName, hne]
  · intro other
    rw [hset]
    simp [Library.Declared, hname]
  · intro entry' hentry'
    rw [hset] at hentry'
    obtain ⟨entry, hentry, rfl⟩ := List.mem_map.mp hentry'
    split
    next hentryName => exact .inr ⟨rfl, entry, hentry, hentryName, rfl⟩
    next => exact .inl hentry

theorem Library.setLastLength_table {lib : Library} {name : StructName} {front : List Arg}
    {ref : Nat} (len : Nat) (hargs : lib.getArgs name = some (front ++ [.table ref]))
    (halloc : ref < lib.nextTable) :
    LengthSet lib (lib.setLastLength name len) name len front (.table ref) ref := by
  have hset : lib.setLastLength name len =
      { lib with
        tables := fun other =>
          if other = ref then { lib.tables ref with length := some len } else lib.tables other } := by
    simp [Library.setLastLength, hargs]
  rw [hset]
  refine ⟨?_, ?_, .inl rfl, Nat.le_refl _, halloc, hargs, fun _ _ => rfl, fun _ => Iff.rfl,
    fun _ hentry => .inl hentry⟩
  · simp [Library.getHeaderData]
  · intro arg _ hne
    cases arg with
    | keyword proto => rfl
    | table other =>
        have hother : other ≠ ref := fun heq => hne (heq ▸ rfl)
        simp [Library.getHeaderData, hother]

theorem Library.setLastLength_spec {lib : Library} {name : StructName} {front : List Arg}
    {last : Arg} (len : Nat) (hargs : lib.getArgs name = some (front ++ [last]))
    (halloc : last.Allocated lib.nextTable) :
    ∃ ref, LengthSet lib (lib.setLastLength name len) name len front last ref := by
  cases last with
  | keyword proto => exact ⟨_, Library.setLastLength_keyword len hargs⟩
  | table ref => exact ⟨ref, Library.setLastLength_table len hargs halloc⟩

theorem Tidy.lengthSet {lib lib' : Library} {name : StructName} {len ref : Nat} {front : List Arg}
    {last : Arg} (htidy : Tidy lib) (hset : LengthSet lib lib' name len front last ref) :
    Tidy lib' := by
  refine ⟨?_, ?_, ?_⟩
  · intro entry' hentry' arg harg
    rcases hset.entries entry' hentry' with hold | ⟨_, entry, hentry, _, rfl⟩
    · exact (htidy.allocated entry' hold arg harg).mono hset.limit
    · have hentryAlloc := htidy.allocated entry hentry
      rcases List.eq_nil_or_concat entry.args with hnil | ⟨before, old, hconcat⟩
      · simp only [hnil] at harg
        cases harg
      · rw [hconcat, List.concat_eq_append] at hentryAlloc
        simp only [hconcat, List.concat_eq_append, List.modifyLast_concat] at harg
        rcases List.mem_append.mp harg with hbefore | hlast
        · exact (hentryAlloc arg (by simp [hbefore])).mono hset.limit
        · exact List.mem_singleton.mp hlast ▸ hset.allocated
  · intro entry' hentry'
    obtain ⟨entry, hentry, heq⟩ := hset.exists_entry hentry'
    rw [← heq]
    exact htidy.named entry hentry
  · intro entry' hentry'
    obtain ⟨entry, hentry, heq⟩ := hset.exists_entry hentry'
    rw [← heq, hset.declared]
    exact htidy.tcp entry hentry

theorem Tidy.alloc {lib : Library} (htidy : Tidy lib) (table : HeaderTable) :
    Tidy (lib.alloc table) :=
  ⟨fun entry hentry arg harg => (htidy.allocated entry hentry arg harg).mono (Nat.le_succ _),
    htidy.named, htidy.tcp⟩

theorem Tidy.declare {lib : Library} {args : List Arg} {parent : StructName} {segment : Segment}
    (htidy : Tidy lib) (halloc : ∀ arg ∈ args, arg.Allocated lib.nextTable)
    (hstruct : lib.structName args = parent ++ [segment])
    (hnamed : ∀ other ∈ parent ++ [segment], other.Named)
    (htcp : segment.proto = .tcp → (lib.declare args).Declared (parent ++ [Proto.tcp.segment])) :
    Tidy (lib.declare args) := by
  have hentries : ∀ entry ∈ (lib.declare args).structs,
      entry ∈ lib.structs ∨ entry = ⟨parent ++ [segment], args⟩ := by
    intro entry hentry
    rw [← hstruct]
    exact (List.mem_append.mp hentry).imp_right List.mem_singleton.mp
  refine ⟨?_, ?_, ?_⟩
  · intro entry hentry
    rcases hentries entry hentry with hold | rfl
    · exact htidy.allocated entry hold
    · exact halloc
  · intro entry hentry
    rcases hentries entry hentry with hold | rfl
    · exact htidy.named entry hold
    · exact hnamed
  · intro entry hentry hlast
    rcases hentries entry hentry with hold | rfl
    · exact Library.declared_declare.mpr (.inl (htidy.tcp entry hold hlast))
    · rw [List.dropLast_concat]
      rw [List.getLast?_concat] at hlast
      exact htcp (Option.some.inj hlast)

/-- Writing the length that is there already changes nothing. -/
theorem Library.setLastLength_self {lib : Library} {name : StructName} {front : List Arg}
    {last : Arg} {len : Nat} (hargs : lib.getArgs name = some (front ++ [last]))
    (hlength : (lib.getHeaderData last).length = some len) :
    lib.setLastLength name len = lib := by
  cases last with
  | keyword proto => cases hlength
  | table ref =>
      have htable : { lib.tables ref with length := some len } = lib.tables ref := by
        rw [← hlength]
        rfl
      have htables : (fun other => if other = ref then
          { lib.tables ref with length := some len } else lib.tables other) = lib.tables := by
        funext other
        rw [htable]
        split
        next heq => rw [heq]
        next => rfl
      simp [Library.setLastLength, hargs, htables]

end Libmoon.Packet
