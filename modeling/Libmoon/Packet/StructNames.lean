import Libmoon.Foundation.DelimitedRecords
import Libmoon.Packet.SetLength

/-! # Names of packet structs

`packetMakeStruct` puts the name of a packet struct together from the protocol, the member, the
length and the sub-type of each header, with underscores between them. Members are named by
whoever creates the packet type and may have underscores in them.
-/

namespace Libmoon.Packet

open Foundation

/-- The name of a protocol, with `ethernet` spelled out. -/
def Proto.chars : Proto → List Char
  | .ethernet => ['e', 't', 'h', 'e', 'r', 'n', 'e', 't']
  | .ip4 => ['i', 'p', '4']
  | .ip6 => ['i', 'p', '6']
  | .arp => ['a', 'r', 'p']
  | .icmp => ['i', 'c', 'm', 'p']
  | .udp => ['u', 'd', 'p']
  | .tcp => ['t', 'c', 'p']
  | .ptp => ['p', 't', 'p']
  | .vxlan => ['v', 'x', 'l', 'a', 'n']
  | .esp => ['e', 's', 'p']
  | .ah => ['a', 'h']
  | .dns => ['d', 'n', 's']
  | .ipfix => ['i', 'p', 'f', 'i', 'x']
  | .sflow => ['s', 'f', 'l', 'o', 'w']
  | .lacp => ['l', 'a', 'c', 'p']
  | .gre => ['g', 'r', 'e']

def SubType.chars : SubType → List Char
  | .default => ['d', 'e', 'f', 'a', 'u', 'l', 't']
  | .vlan => ['v', 'l', 'a', 'n']
  | .qinq => ['q', 'i', 'n', 'q']
  | .ip4 => ['i', 'p', '4']
  | .ip6 => ['i', 'p', '6']

/-- `length or "x"` -/
def lengthChars : Option ℕ → List Char
  | some length => Nat.toDigits 10 length
  | none => ['x']

/-- `subType or "x"` -/
def subTypeChars : Option SubType → List Char
  | some subType => subType.chars
  | none => ['x']

namespace HeaderData

/-- What is added to the name for a header. -/
def record (header : HeaderData) : DelimitedRecord Char where
  key := header.proto.chars
  free := header.name.toList
  value := lengthChars header.length
  kind := subTypeChars header.subType

/-- `subType and "_" .. subType or ""`, and the same for the size. -/
def underscored : Option (List Char) → List Char
  | some chars => '_' :: chars
  | none => []

/-- The name of the struct of a header, as `defineHeaderStruct` builds it. -/
def structName (header : HeaderData) : List Char :=
  header.proto.chars ++ (underscored (header.subType.map SubType.chars) ++
    '_' :: (['h', 'e', 'a', 'd', 'e', 'r'] ++
      underscored (header.length.map (Nat.toDigits 10))))

end HeaderData

/-- The name of a packet struct, without `struct` in front of it. -/
def packetName (headers : List HeaderData) : List Char :=
  match DelimitedRecord.textOf '_' (headers.map HeaderData.record) with
  | [] => ['r', 'a', 'w']
  | name => name

/-! ## Names are put together from plain parts -/

/-- All protocols. -/
def Proto.all : List Proto :=
  [.ethernet, .ip4, .ip6, .arp, .icmp, .udp, .tcp, .ptp, .vxlan, .esp, .ah, .dns, .ipfix, .sflow,
    .lacp, .gre]

theorem Proto.mem_all (proto : Proto) : proto ∈ Proto.all := by
  cases proto <;> decide

theorem Proto.chars_injective {proto proto' : Proto} (hchars : proto.chars = proto'.chars) :
    proto = proto' := by
  have hall : ∀ proto ∈ Proto.all, ∀ proto' ∈ Proto.all, proto.chars = proto'.chars →
      proto = proto' := by decide
  exact hall proto proto.mem_all proto' proto'.mem_all hchars

theorem subTypeChars_injective {subType subType' : Option SubType}
    (hchars : subTypeChars subType = subTypeChars subType') : subType = subType' := by
  have hall : ∀ first ∈ [none, some SubType.default, some .vlan, some .qinq, some .ip4, some .ip6],
      ∀ second ∈ [none, some SubType.default, some .vlan, some .qinq, some .ip4, some .ip6],
        subTypeChars first = subTypeChars second → first = second := by decide
  have hmem (subType : Option SubType) :
      subType ∈ [none, some SubType.default, some .vlan, some .qinq, some .ip4, some .ip6] := by
    cases subType with
    | none => decide
    | some subType => cases subType <;> decide
  exact hall _ (hmem subType) _ (hmem subType') hchars

theorem toDigits_injective {number number' : ℕ}
    (hdigits : Nat.toDigits 10 number = Nat.toDigits 10 number') : number = number' := by
  rw [← @Nat.ofDigitChars_ten_toDigits number, hdigits, Nat.ofDigitChars_ten_toDigits]

theorem x_notMem_toDigits (number : ℕ) : 'x' ∉ Nat.toDigits 10 number := by
  intro hx
  exact absurd (Nat.isDigit_of_mem_toDigits (by decide) (by decide) hx) (by decide)

theorem lengthChars_injective {length length' : Option ℕ}
    (hchars : lengthChars length = lengthChars length') : length = length' := by
  cases length with
  | none =>
      cases length' with
      | none => rfl
      | some length' =>
          rw [lengthChars, lengthChars] at hchars
          exact absurd (hchars ▸ List.mem_singleton_self 'x') (x_notMem_toDigits length')
  | some length =>
      cases length' with
      | none =>
          rw [lengthChars, lengthChars] at hchars
          exact absurd (hchars.symm ▸ List.mem_singleton_self 'x') (x_notMem_toDigits length)
      | some length' => exact congrArg some (toDigits_injective hchars)

/-- Different headers are written differently. -/
theorem HeaderData.record_injective : Function.Injective HeaderData.record := by
  rintro ⟨proto, name, length, subType⟩ ⟨proto', name', length', subType'⟩ hrecord
  simp only [record, DelimitedRecord.mk.injEq] at hrecord
  obtain ⟨hproto, hname, hlength, hsubType⟩ := hrecord
  rw [Proto.chars_injective hproto, String.toList_inj.mp hname, lengthChars_injective hlength,
    subTypeChars_injective hsubType]

/-- A name that is read as that of a protocol. -/
def IsProto (chars : List Char) : Prop := ∃ proto : Proto, proto.chars = chars

theorem lengthChars_not_isProto (length : Option ℕ) : ¬ IsProto (lengthChars length) := by
  rintro ⟨proto, hproto⟩
  cases length with
  | none => cases proto <;> exact absurd hproto (by decide)
  | some length =>
      -- no protocol is called by a number
      have hletter : proto.chars.all Char.isDigit = false := by
        cases proto <;> decide
      have hdigits : proto.chars.all Char.isDigit = true := by
        rw [hproto, List.all_eq_true]
        exact fun digit => Nat.isDigit_of_mem_toDigits (by decide) (by decide)
      rw [hdigits] at hletter
      cases hletter

theorem Proto.chars_plain (proto : Proto) : '_' ∉ proto.chars := by
  cases proto <;> decide

theorem lengthChars_plain (length : Option ℕ) : '_' ∉ lengthChars length := by
  cases length with
  | none => decide
  | some length => exact Nat.underscore_not_in_toDigits

theorem lengthChars_ne_nil (length : Option ℕ) : lengthChars length ≠ [] := by
  cases length with
  | none => decide
  | some length => exact Nat.toDigits_ne_nil

theorem subTypeChars_plain (subType : Option SubType) :
    '_' ∉ subTypeChars subType ∧ subTypeChars subType ≠ [] := by
  cases subType with
  | none => decide
  | some subType => cases subType <;> decide

theorem HeaderData.record_wellFormed (header : HeaderData) :
    header.record.WellFormed '_' IsProto where
  key_plain := header.proto.chars_plain
  value_plain := lengthChars_plain header.length
  kind_plain := (subTypeChars_plain header.subType).1
  value_ne_nil := lengthChars_ne_nil header.length
  kind_ne_nil := (subTypeChars_plain header.subType).2
  key_isKey := ⟨header.proto, rfl⟩
  value_not_isKey := lengthChars_not_isProto header.length

/-! ## Structs of headers -/

theorem splitOn_underscored {chars : List Char} {part : Option (List Char)}
    (hchars : '_' ∉ chars) (hpart : ∀ chars ∈ part, '_' ∉ chars) :
    (chars ++ HeaderData.underscored part).splitOn '_' = chars :: part.toList := by
  cases part with
  | none =>
      rw [HeaderData.underscored, List.append_nil, List.splitOn_eq_singleton hchars]
      rfl
  | some part =>
      rw [HeaderData.underscored, List.splitOn_append_cons_self_of_not_mem hchars,
        List.splitOn_eq_singleton (hpart part rfl)]
      rfl

theorem splitOn_structName (header : HeaderData) :
    header.structName.splitOn '_' =
      header.proto.chars :: ((header.subType.map SubType.chars).toList ++
        ['h', 'e', 'a', 'd', 'e', 'r'] :: (header.length.map (Nat.toDigits 10)).toList) := by
  have hsubType : ∀ chars ∈ header.subType.map SubType.chars, '_' ∉ chars := by
    intro chars hchars
    obtain ⟨subType, -, rfl⟩ := Option.map_eq_some_iff.mp hchars
    exact (subTypeChars_plain (some subType)).1
  have hsize : ∀ chars ∈ header.length.map (Nat.toDigits 10), '_' ∉ chars := by
    intro chars hchars
    obtain ⟨size, -, rfl⟩ := Option.map_eq_some_iff.mp hchars
    exact Nat.underscore_not_in_toDigits
  rw [HeaderData.structName, ← List.append_assoc, List.splitOn_append_cons_self,
    splitOn_underscored header.proto.chars_plain hsubType, splitOn_underscored (by decide) hsize]
  rfl

theorem subType_chars_ne_header (subType : SubType) :
    subType.chars ≠ ['h', 'e', 'a', 'd', 'e', 'r'] := by
  cases subType <;> decide

theorem sizeParts_injective {size size' : Option ℕ}
    (hparts : (size.map (Nat.toDigits 10)).toList = (size'.map (Nat.toDigits 10)).toList) :
    size = size' := by
  cases size with
  | none =>
      cases size' with
      | none => rfl
      | some size' => cases hparts
  | some size =>
      cases size' with
      | none => cases hparts
      | some size' => exact congrArg some (toDigits_injective (List.singleton_inj.mp hparts))

/-- The struct of a header is called after all that it depends on. -/
theorem eq_of_structName_eq {header header' : HeaderData}
    (hname : header.structName = header'.structName) :
    header.proto = header'.proto ∧ header.subType = header'.subType ∧
      header.length = header'.length := by
  have hparts := splitOn_structName header
  rw [hname, splitOn_structName header'] at hparts
  obtain ⟨proto, name, length, subType⟩ := header
  obtain ⟨proto', name', length', subType'⟩ := header'
  obtain ⟨hproto, hparts⟩ := List.cons.inj hparts
  refine ⟨Proto.chars_injective hproto.symm, ?_⟩
  -- without a sub-type, the word "header" comes second
  cases subType with
  | none =>
      cases subType' with
      | none => exact ⟨rfl, sizeParts_injective (List.cons.inj hparts).2.symm⟩
      | some subType' => exact absurd (List.cons.inj hparts).1 (subType_chars_ne_header subType')
  | some subType =>
      cases subType' with
      | none => exact absurd (List.cons.inj hparts).1.symm (subType_chars_ne_header subType)
      | some subType' =>
          obtain ⟨hsubType, hparts⟩ := List.cons.inj hparts
          refine ⟨?_, sizeParts_injective (List.cons.inj hparts).2.symm⟩
          exact @subTypeChars_injective (some subType) (some subType') hsubType.symm

/-! ## When names are the same -/

/-- Joining neighbouring headers to one, whose member has what is written between them in its
name, and taking such headers apart leads from one list to the other. -/
def SameWhenJoined (headers headers' : List HeaderData) : Prop :=
  DelimitedRecord.Joinable '_' (headers.map HeaderData.record) (headers'.map HeaderData.record)

variable {headers headers' : List HeaderData}

theorem wellFormed_of_mem : ∀ record ∈ headers.map HeaderData.record,
    record.WellFormed '_' IsProto := by
  intro record hrecord
  obtain ⟨header, -, rfl⟩ := List.mem_map.mp hrecord
  exact header.record_wellFormed

theorem packetName_eq_iff_textOf : packetName headers = packetName headers' ↔
    DelimitedRecord.textOf '_' (headers.map HeaderData.record) =
      DelimitedRecord.textOf '_' (headers'.map HeaderData.record) := by
  cases headers with
  | nil =>
      cases headers' with
      | nil => exact iff_of_true rfl rfl
      | cons header' rest' => exact iff_of_false (by intro h; cases h) (by intro h; cases h)
  | cons header rest =>
      cases headers' with
      | nil => exact iff_of_false (by intro h; cases h) (by intro h; cases h)
      | cons header' rest' => rfl

/-- Names are the same exactly for lists that are the same when joined. -/
theorem packetName_eq_iff :
    packetName headers = packetName headers' ↔ SameWhenJoined headers headers' :=
  packetName_eq_iff_textOf.trans
    (DelimitedRecord.textOf_eq_iff_joinable wellFormed_of_mem wellFormed_of_mem)

/-- The member of one header looks like two headers. -/
example : packetName [⟨.ethernet, "a_x_default__ethernet_b", none, some .default⟩] =
    packetName [⟨.ethernet, "a", none, some .default⟩, ⟨.ethernet, "b", none, some .default⟩] := by
  decide

/-- Without two underscores in a row, members do not look like several headers. -/
theorem eq_of_sameWhenJoined
    (hplain : ∀ header ∈ headers, ¬ ['_', '_'] <:+: header.name.toList)
    (hplain' : ∀ header ∈ headers', ¬ ['_', '_'] <:+: header.name.toList)
    (hsame : SameWhenJoined headers headers') : headers = headers' := by
  have hrecords := DelimitedRecord.eq_of_textOf_eq wellFormed_of_mem wellFormed_of_mem
    (List.forall_mem_map.mpr hplain) (List.forall_mem_map.mpr hplain') hsame.textOf_eq
  exact List.map_injective_iff.mpr HeaderData.record_injective hrecords

end Libmoon.Packet
