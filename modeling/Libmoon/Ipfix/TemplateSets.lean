import Libmoon.Foundation.NetworkOrder
import Mathlib.Data.FinEnum

/-! # IPFIX template sets

Template sets and options template sets are structs with room for five information
elements, which are filled from a list of any length. `copyTo` takes the number of bytes to
copy from the header of the set. What the bytes mean is said by a decoder for sets with one
template.
-/

namespace Libmoon.Ipfix

open Foundation

universe u

/-! ## Structs -/

/-- `struct ipfix_set_header`. -/
structure SetHeader where
  setId : UInt16
  length : UInt16
deriving DecidableEq, Repr

def SetHeader.bytes (header : SetHeader) : List UInt8 := le16 header.setId ++ le16 header.length

/-- `struct ipfix_tmpl_record_header`. -/
structure TmplRecordHeader where
  templateId : UInt16
  fieldCount : UInt16
deriving DecidableEq, Repr

def TmplRecordHeader.bytes (header : TmplRecordHeader) : List UInt8 :=
  le16 header.templateId ++ le16 header.fieldCount

/-- `struct ipfix_opts_tmpl_record_header`. -/
structure OptsTmplRecordHeader where
  templateId : UInt16
  fieldCount : UInt16
  scopeFieldCount : UInt16
deriving DecidableEq, Repr

def OptsTmplRecordHeader.bytes (header : OptsTmplRecordHeader) : List UInt8 :=
  le16 header.templateId ++ le16 header.fieldCount ++ le16 header.scopeFieldCount

/-- `struct ipfix_information_element`. -/
structure InformationElement where
  ieId : UInt16
  length : UInt16
deriving DecidableEq, Repr

def InformationElement.bytes (element : InformationElement) : List UInt8 :=
  le16 element.ieId ++ le16 element.length

/-- `struct ipfix_tmpl_record` and `struct ipfix_opts_tmpl_record`. -/
structure TmplRecord (Header : Type u) where
  templateHeader : Header
  informationElements : Vector InformationElement 5

/-- `struct ipfix_tmpl_set` and `struct ipfix_opts_tmpl_set`. -/
structure TmplSet (Header : Type u) where
  setHeader : SetHeader
  record : TmplRecord Header
  padding : UInt8

/-- The bytes of a struct that begins with a set header, and the header in them. -/
structure SetObject where
  setHeader : SetHeader
  body : List UInt8

def SetObject.bytes (set : SetObject) : List UInt8 := set.setHeader.bytes ++ set.body

def TmplSet.object {Header : Type u} (headerBytes : Header → List UInt8) (set : TmplSet Header) :
    SetObject :=
  ⟨set.setHeader, headerBytes set.record.templateHeader ++
    (set.record.informationElements.toList.flatMap InformationElement.bytes ++ [set.padding])⟩

/-! ## Creating sets -/

/-- `ipfix:createInformationElement`. -/
def createInformationElement (id length : ℕ) : InformationElement := ⟨hton16 id, hton16 length⟩

/-- `ipfix:createSetHeader`. -/
def createSetHeader (id length : ℕ) : SetHeader := ⟨hton16 id, hton16 length⟩

/-- `ipfix:createTmplRecordHeader`. -/
def createTmplRecordHeader (id fieldCount : ℕ) : TmplRecordHeader := ⟨hton16 id, hton16 fieldCount⟩

/-- `ipfix:createOptsTmplRecordHeader`. -/
def createOptsTmplRecordHeader (id fieldCount scopeFieldCount : ℕ) : OptsTmplRecordHeader :=
  ⟨hton16 id, hton16 fieldCount, hton16 scopeFieldCount⟩

/-- What a template says about an information element. -/
structure TemplateEntry where
  id : UInt16
  length : UInt16
deriving DecidableEq, Repr

/-- The objects that exist while the record is filled; of the set itself, only the padding is
not overwritten afterwards. -/
structure OtherObjects (Header : Type u) where
  header : SetHeader
  recordHeader : Header
  padding : UInt8

/-- What a write behind the record, with this index, does to the other objects. -/
abbrev StrayWrite (Header : Type u) : Type u :=
  ℕ → InformationElement → OtherObjects Header → OtherObjects Header

section Create

variable {Header : Type u} (stray : StrayWrite Header)

/-- `record.information_elements[i-1] = ...` for all entries from an index on. -/
def fillElements : ℕ → List TemplateEntry → Vector InformationElement 5 → OtherObjects Header →
    Vector InformationElement 5 × OtherObjects Header
  | _, [], elements, others => (elements, others)
  | i, ie :: rest, elements, others =>
      let element := createInformationElement ie.id.toNat ie.length.toNat
      if i < 5 then fillElements (i + 1) rest (elements.setIfInBounds i element) others
      else fillElements (i + 1) rest elements (stray i element others)

/-- Fill a new record, and put the parts of the set together. -/
def assembleSet (template : List TemplateEntry) (header : SetHeader) (recordHeader : Header) :
    TmplSet Header :=
  let filled := fillElements stray 0 template (Vector.replicate 5 ⟨0, 0⟩) ⟨header, recordHeader, 0⟩
  ⟨filled.2.header, ⟨filled.2.recordHeader, filled.1⟩, filled.2.padding⟩

end Create

/-- `ipfix.ID_TEMPLATE_SET`. -/
def idTemplateSet : ℕ := 0x0002

/-- `ipfix.ID_OPTION_TEMPLATE_SET`. -/
def idOptionTemplateSet : ℕ := 0x0003

/-- `ipfix:createTmplSet`. -/
def createTmplSet (stray : StrayWrite TmplRecordHeader) (id : ℕ) (template : List TemplateEntry) :
    TmplSet TmplRecordHeader :=
  let numOfFields := template.length
  let tmplSetLength := 4 + 4 + 4 * numOfFields
  assembleSet stray template (createSetHeader idTemplateSet tmplSetLength)
    (createTmplRecordHeader id numOfFields)

/-- `ipfix:createOptsTmplSet`, with two bytes for a padding of which the struct has one. -/
def createOptsTmplSet (stray : StrayWrite OptsTmplRecordHeader) (id : ℕ)
    (template : List TemplateEntry) : TmplSet OptsTmplRecordHeader :=
  let numOfFields := template.length
  let optsTmplSetLength := 4 + 6 + 2 + 4 * numOfFields
  { assembleSet stray template (createSetHeader idOptionTemplateSet optsTmplSetLength)
      (createOptsTmplRecordHeader id numOfFields 1) with
    padding := UInt8.ofNat (hton16 0).toNat }

/-! ## Copying -/

/-- `ffi.string(set, length)`. What is in memory behind the set belongs to others. -/
def ffiString (behind : Memory) (set : SetObject) (length : ℕ) : List UInt8 :=
  set.bytes.take length ++ behind.load 0 (length - set.bytes.length)

/-- The loop of `copyTo`. The string has no byte at an index behind its end. -/
def copyLoop (s : List UInt8) (dest : Memory) (pos length aux : ℕ) : Option (Memory × ℕ) :=
  if pos < length then do
    let byte ← s[aux - 1]?
    copyLoop s (dest.store pos [byte]) (pos + 1) length (aux + 1)
  else some (dest, pos)
termination_by length - pos

/-- `ipfix:copyTo`. -/
def copyTo (behind dest : Memory) (pos : ℕ) (set : SetObject) : Option (Memory × ℕ) :=
  let length := ntoh16 set.setHeader.length
  let s := ffiString behind set length
  copyLoop s dest pos (length + pos) 1

/-! ## Decoding -/

/-- A field specifier as it is meant: the highest bit of the identifier says that the number
of an enterprise follows. -/
structure FieldSpecifier where
  id : ℕ
  length : ℕ
  enterprise : Option ℕ
deriving DecidableEq, Repr

def decodeFieldSpecifier (bytes : List UInt8) : Option (FieldSpecifier × List UInt8) := do
  let (identifier, bytes) ← takeBigEndian 2 bytes
  let (length, bytes) ← takeBigEndian 2 bytes
  if identifier < 2 ^ 15 then some (⟨identifier, length, none⟩, bytes)
  else
    let (enterprise, bytes) ← takeBigEndian 4 bytes
    some (⟨identifier - 2 ^ 15, length, some enterprise⟩, bytes)

def decodeFieldSpecifiers : ℕ → List UInt8 → Option (List FieldSpecifier × List UInt8)
  | 0, bytes => some ([], bytes)
  | count + 1, bytes => do
      let (specifier, bytes) ← decodeFieldSpecifier bytes
      let (specifiers, bytes) ← decodeFieldSpecifiers count bytes
      some (specifier :: specifiers, bytes)

/-- What one template record says. -/
structure Template where
  id : ℕ
  scopeFieldCount : ℕ
  fields : List FieldSpecifier
deriving DecidableEq, Repr

/-- The record of a set and what follows it. A template of options has one scope field at
least. -/
def decodeRecord (options : Bool) (bytes : List UInt8) : Option (Template × List UInt8) := do
  let (id, bytes) ← takeBigEndian 2 bytes
  let (fieldCount, bytes) ← takeBigEndian 2 bytes
  if options then
    let (scopeFieldCount, bytes) ← takeBigEndian 2 bytes
    let (fields, bytes) ← decodeFieldSpecifiers fieldCount bytes
    if 0 < scopeFieldCount ∧ scopeFieldCount ≤ fieldCount then
      some (⟨id, scopeFieldCount, fields⟩, bytes)
    else none
  else
    let (fields, bytes) ← decodeFieldSpecifiers fieldCount bytes
    some (⟨id, 0, fields⟩, bytes)

/-- A set with its identifier, its length, one record, and a padding of zeros that is too
short for another record. -/
def decodeSet (setId : ℕ) (options : Bool) (bytes : List UInt8) : Option Template := do
  let (identifier, rest) ← takeBigEndian 2 bytes
  let (length, rest) ← takeBigEndian 2 rest
  let (template, padding) ← decodeRecord options rest
  if identifier = setId ∧ length = bytes.length ∧ padding.length < 4 ∧ ∀ byte ∈ padding, byte = 0 then
    some template
  else none

/-- The entry of a template as a field specifier. -/
def TemplateEntry.specifier (entry : TemplateEntry) : FieldSpecifier :=
  ⟨entry.id.toNat, entry.length.toNat, none⟩

/-- `copyTo` writes bytes of the set object only, and they are a set with the template. -/
def Encodes (decode : List UInt8 → Option Template) (template : Template) (behind dest : Memory)
    (pos : ℕ) (set : SetObject) : Prop :=
  ∃ written, copyTo behind dest pos set = some (dest.store pos written, pos + written.length) ∧
    written.length = ntoh16 set.setHeader.length ∧ written <+: set.bytes ∧
    decode written = some template

/-! ## What is copied -/

section Copy

variable {behind dest : Memory} {pos : ℕ} {set : SetObject}

theorem copyLoop_eq (pre rest : List UInt8) (dest : Memory) (pos : ℕ) :
    copyLoop (pre ++ rest) dest pos (rest.length + pos) (pre.length + 1) =
      some (dest.store pos rest, pos + rest.length) := by
  induction rest generalizing pre dest pos with
  | nil => rw [copyLoop, if_neg (by simp), Memory.store_nil, List.length_nil, Nat.add_zero]
  | cons byte rest ih =>
      have hget : (pre ++ byte :: rest)[pre.length + 1 - 1]? = some byte := by simp
      have hnext := ih (pre ++ [byte]) (dest.store pos [byte]) (pos + 1)
      have hstore := dest.store_append pos [byte] rest
      rw [List.append_assoc, List.length_append, List.singleton_append,
        List.length_singleton] at hnext
      rw [List.length_singleton, List.singleton_append] at hstore
      have hlength : (byte :: rest).length + pos = rest.length + (pos + 1) := by
        rw [List.length_cons]
        omega
      rw [copyLoop, if_pos (by omega), hget, Option.bind_eq_bind, Option.bind_some, hlength, hnext,
        hstore, List.length_cons, Nat.add_assoc, Nat.add_comm 1]

theorem length_ffiString (length : ℕ) : (ffiString behind set length).length = length := by
  rw [ffiString, List.length_append, List.length_take, Memory.length_load]
  omega

theorem copyTo_eq : copyTo behind dest pos set =
    some (dest.store pos (ffiString behind set (ntoh16 set.setHeader.length)),
      pos + ntoh16 set.setHeader.length) := by
  have hloop := copyLoop_eq [] (ffiString behind set (ntoh16 set.setHeader.length)) dest pos
  rw [length_ffiString] at hloop
  exact hloop

/-- The length in the header decides what is copied. -/
theorem encodes_iff {decode : List UInt8 → Option Template} {template : Template} :
    Encodes decode template behind dest pos set ↔
      ntoh16 set.setHeader.length ≤ set.bytes.length ∧
        decode (set.bytes.take (ntoh16 set.setHeader.length)) = some template := by
  unfold Encodes
  rw [copyTo_eq]
  constructor
  · rintro ⟨written, hcopy, hlength, hprefix, hdecode⟩
    have htake : set.bytes.take (ntoh16 set.setHeader.length) = written := by
      rw [← hlength]
      exact List.prefix_iff_eq_take.mp hprefix |>.symm
    exact ⟨hlength ▸ hprefix.length_le, htake ▸ hdecode⟩
  · rintro ⟨hle, hdecode⟩
    have hlength : (set.bytes.take (ntoh16 set.setHeader.length)).length =
        ntoh16 set.setHeader.length := List.length_take_of_le hle
    refine ⟨_, ?_, hlength, List.take_prefix _ _, hdecode⟩
    rw [hlength, ffiString, Nat.sub_eq_zero_of_le hle]
    simp [Memory.load]

end Copy

/-! ## What is decoded -/

theorem of_decodeFieldSpecifier {bytes rest : List UInt8} {specifier : FieldSpecifier}
    (hdecode : decodeFieldSpecifier bytes = some (specifier, rest)) :
    4 + rest.length ≤ bytes.length ∧ (specifier.enterprise = none → specifier.id < 2 ^ 15) := by
  simp only [decodeFieldSpecifier, Option.bind_eq_bind, Option.bind_eq_some_iff,
    Prod.exists] at hdecode
  obtain ⟨identifier, afterId, hid, length, afterLength, hlength, hdecode⟩ := hdecode
  have hsize := length_of_takeBigEndian hid
  have hsize' := length_of_takeBigEndian hlength
  split at hdecode
  next hplain =>
    obtain ⟨rfl, rfl⟩ := Prod.mk.inj (Option.some.inj hdecode)
    exact ⟨by omega, fun _ => hplain⟩
  next =>
    simp only [Option.bind_eq_some_iff, Prod.exists] at hdecode
    obtain ⟨enterprise, afterEnterprise, henterprise, hdecode⟩ := hdecode
    obtain ⟨rfl, rfl⟩ := Prod.mk.inj (Option.some.inj hdecode)
    have hsize'' := length_of_takeBigEndian henterprise
    exact ⟨by omega, nofun⟩

theorem of_decodeFieldSpecifiers {count : ℕ} {bytes rest : List UInt8}
    {specifiers : List FieldSpecifier}
    (hdecode : decodeFieldSpecifiers count bytes = some (specifiers, rest)) :
    4 * specifiers.length + rest.length ≤ bytes.length ∧
      ∀ specifier ∈ specifiers, specifier.enterprise = none → specifier.id < 2 ^ 15 := by
  induction count generalizing bytes specifiers with
  | zero =>
      obtain ⟨rfl, rfl⟩ := Prod.mk.inj (Option.some.inj hdecode)
      exact ⟨by simp, nofun⟩
  | succ count ih =>
      simp only [decodeFieldSpecifiers, Option.bind_eq_bind, Option.bind_eq_some_iff,
        Prod.exists] at hdecode
      obtain ⟨first, afterFirst, hfirst, others, afterOthers, hothers, hdecode⟩ := hdecode
      obtain ⟨rfl, rfl⟩ := Prod.mk.inj (Option.some.inj hdecode)
      obtain ⟨hsize, hid⟩ := of_decodeFieldSpecifier hfirst
      obtain ⟨hsizes, hids⟩ := ih hothers
      refine ⟨?_, List.forall_mem_cons.mpr ⟨hid, hids⟩⟩
      rw [List.length_cons]
      omega

/-- The bytes of an entry, in network order. -/
def TemplateEntry.bytes (entry : TemplateEntry) : List UInt8 :=
  bigEndian 2 entry.id.toNat ++ bigEndian 2 entry.length.toNat

theorem length_flatMap_bytes (template : List TemplateEntry) :
    (template.flatMap TemplateEntry.bytes).length = 4 * template.length := by
  induction template with
  | nil => rfl
  | cons entry rest ih =>
      rw [List.flatMap_cons, List.length_append, ih, List.length_cons, TemplateEntry.bytes,
        List.length_append, length_bigEndian, length_bigEndian]
      omega

theorem decodeFieldSpecifier_append {entry : TemplateEntry} (hid : entry.id.toNat < 2 ^ 15)
    (rest : List UInt8) :
    decodeFieldSpecifier (entry.bytes ++ rest) = some (entry.specifier, rest) := by
  rw [decodeFieldSpecifier, TemplateEntry.bytes, List.append_assoc,
    takeBigEndian_append 2 entry.id.toNat_lt, Option.bind_eq_bind, Option.bind_some]
  simp only
  rw [takeBigEndian_append 2 entry.length.toNat_lt, Option.bind_some, if_pos hid]
  rfl

theorem decodeFieldSpecifiers_append {template : List TemplateEntry}
    (hids : ∀ entry ∈ template, entry.id.toNat < 2 ^ 15) (rest : List UInt8) :
    decodeFieldSpecifiers template.length (template.flatMap TemplateEntry.bytes ++ rest) =
      some (template.map TemplateEntry.specifier, rest) := by
  induction template with
  | nil => rfl
  | cons entry others ih =>
      obtain ⟨hid, hothers⟩ := List.forall_mem_cons.mp hids
      rw [List.flatMap_cons, List.append_assoc, List.length_cons, decodeFieldSpecifiers,
        decodeFieldSpecifier_append hid, Option.bind_eq_bind, Option.bind_some]
      simp only
      rw [ih hothers]
      rfl

section Decode

variable {id : UInt16} {template : List TemplateEntry} {padding : List UInt8}

theorem decodeRecord_tmpl (id : UInt16) (padding : List UInt8)
    (hids : ∀ entry ∈ template, entry.id.toNat < 2 ^ 15)
    (hcount : template.length < 2 ^ 16) :
    decodeRecord false (bigEndian 2 id.toNat ++ (bigEndian 2 template.length ++
        (template.flatMap TemplateEntry.bytes ++ padding))) =
      some (⟨id.toNat, 0, template.map TemplateEntry.specifier⟩, padding) := by
  rw [decodeRecord, takeBigEndian_append 2 id.toNat_lt, Option.bind_eq_bind,
    Option.bind_some]
  simp only
  rw [takeBigEndian_append 2 hcount, Option.bind_some]
  simp only [Bool.false_eq_true, if_false]
  rw [decodeFieldSpecifiers_append hids]
  rfl

theorem decodeRecord_opts (id : UInt16) (padding : List UInt8)
    (hids : ∀ entry ∈ template, entry.id.toNat < 2 ^ 15)
    (hcount : template.length < 2 ^ 16) (hne : 0 < template.length) :
    decodeRecord true (bigEndian 2 id.toNat ++ (bigEndian 2 template.length ++ (bigEndian 2 1 ++
        (template.flatMap TemplateEntry.bytes ++ padding)))) =
      some (⟨id.toNat, 1, template.map TemplateEntry.specifier⟩, padding) := by
  rw [decodeRecord, takeBigEndian_append 2 id.toNat_lt, Option.bind_eq_bind,
    Option.bind_some]
  simp only
  rw [takeBigEndian_append 2 hcount, Option.bind_some]
  simp only [if_true]
  rw [takeBigEndian_append 2 (by decide), Option.bind_some]
  simp only
  rw [decodeFieldSpecifiers_append hids]
  exact if_pos ⟨Nat.one_pos, hne⟩

theorem decodeSet_append {setId length : ℕ} {options : Bool} {record : List UInt8}
    {decoded : Template}
    (hsetId : setId < 2 ^ 16) (hlength : length < 2 ^ 16) (hsize : length = 4 + record.length)
    (hrecord : decodeRecord options record = some (decoded, padding)) (hshort : padding.length < 4)
    (hzero : ∀ byte ∈ padding, byte = 0) :
    decodeSet setId options (bigEndian 2 setId ++ (bigEndian 2 length ++ record)) =
      some decoded := by
  rw [decodeSet, takeBigEndian_append 2 hsetId, Option.bind_eq_bind, Option.bind_some]
  simp only
  rw [takeBigEndian_append 2 hlength, Option.bind_some]
  simp only
  rw [hrecord]
  apply if_pos
  refine ⟨trivial, ?_, hshort, hzero⟩
  rw [hsize, List.length_append, List.length_append, length_bigEndian, length_bigEndian]
  omega

theorem of_decodeRecord {options : Bool} {bytes : List UInt8} {decoded : Template}
    (hdecode : decodeRecord options bytes = some (decoded, padding)) :
    4 + 4 * decoded.fields.length ≤ bytes.length ∧
      ∀ specifier ∈ decoded.fields, specifier.enterprise = none → specifier.id < 2 ^ 15 := by
  simp only [decodeRecord, Option.bind_eq_bind, Option.bind_eq_some_iff, Prod.exists] at hdecode
  obtain ⟨_, afterId, hid, _, afterCount, hcount, hdecode⟩ := hdecode
  have hsize := length_of_takeBigEndian hid
  have hsize' := length_of_takeBigEndian hcount
  split at hdecode
  next =>
    simp only [Option.bind_eq_some_iff, Prod.exists] at hdecode
    obtain ⟨_, afterScope, hscope, fields, _, hfields, hdecode⟩ := hdecode
    have hsize'' := length_of_takeBigEndian hscope
    obtain ⟨hlength, hids⟩ := of_decodeFieldSpecifiers hfields
    split at hdecode
    next =>
      obtain ⟨rfl, rfl⟩ := Prod.mk.inj (Option.some.inj hdecode)
      exact ⟨by simp only; omega, hids⟩
    next => cases hdecode
  next =>
    simp only [Option.bind_eq_some_iff, Prod.exists] at hdecode
    obtain ⟨fields, _, hfields, hdecode⟩ := hdecode
    obtain ⟨hlength, hids⟩ := of_decodeFieldSpecifiers hfields
    obtain ⟨rfl, rfl⟩ := Prod.mk.inj (Option.some.inj hdecode)
    exact ⟨by simp only; omega, hids⟩

/-- A set has room for its fields, and identifiers in it have 15 bits. -/
theorem of_decodeSet {setId : ℕ} {options : Bool} {bytes : List UInt8} {decoded : Template}
    (hdecode : decodeSet setId options bytes = some decoded) :
    8 + 4 * decoded.fields.length ≤ bytes.length ∧
      ∀ specifier ∈ decoded.fields, specifier.enterprise = none → specifier.id < 2 ^ 15 := by
  simp only [decodeSet, Option.bind_eq_bind, Option.bind_eq_some_iff, Prod.exists] at hdecode
  obtain ⟨_, afterId, hid, _, afterLength, hlength, _, _, hrecord, hdecode⟩ := hdecode
  have hsize := length_of_takeBigEndian hid
  have hsize' := length_of_takeBigEndian hlength
  obtain ⟨hfields, hids⟩ := of_decodeRecord hrecord
  split at hdecode
  next =>
    cases hdecode
    exact ⟨by omega, hids⟩
  next => cases hdecode

/-- So has one with the fields of a template. -/
theorem of_decodeSet_template {setId scope : ℕ} {options : Bool} {bytes : List UInt8}
    (hdecode : decodeSet setId options bytes =
      some ⟨id.toNat, scope, template.map TemplateEntry.specifier⟩) :
    8 + 4 * template.length ≤ bytes.length ∧ ∀ entry ∈ template, entry.id.toNat < 2 ^ 15 := by
  obtain ⟨hlength, hids⟩ := of_decodeSet hdecode
  rw [List.length_map] at hlength
  refine ⟨hlength, fun entry hentry => ?_⟩
  exact hids entry.specifier (List.mem_map_of_mem hentry) rfl

end Decode

/-! ## What is created -/

section Create

variable {Header : Type u} {stray : StrayWrite Header} {template : List TemplateEntry}
  {id : UInt16}

theorem bytes_createInformationElement (entry : TemplateEntry) :
    (createInformationElement entry.id.toNat entry.length.toNat).bytes = entry.bytes := by
  rw [InformationElement.bytes, createInformationElement, le16_hton16 entry.id.toNat_lt,
    le16_hton16 entry.length.toNat_lt]
  rfl

/-- As long as there is room, the elements are written one behind the other, and to no other
place. -/
theorem fillElements_eq (stray : StrayWrite Header) {spare : ℕ} {pre : List InformationElement}
    {elements : Vector InformationElement 5} (others : OtherObjects Header)
    (helements : elements.toList = pre ++ List.replicate (template.length + spare) ⟨0, 0⟩) :
    ∃ filled, fillElements stray pre.length template elements others = (filled, others) ∧
      filled.toList = pre ++
        (template.map fun ie => createInformationElement ie.id.toNat ie.length.toNat) ++
        List.replicate spare ⟨0, 0⟩ := by
  induction template generalizing pre elements with
  | nil => exact ⟨elements, rfl, by simpa using helements⟩
  | cons ie rest ih =>
      have hroom := congrArg List.length helements
      rw [Vector.length_toList, List.length_append, List.length_replicate,
        List.length_cons] at hroom
      have hset : (elements.setIfInBounds pre.length
          (createInformationElement ie.id.toNat ie.length.toNat)).toList =
            (pre ++ [createInformationElement ie.id.toNat ie.length.toNat]) ++
              List.replicate (rest.length + spare) ⟨0, 0⟩ := by
        rw [Vector.toList_setIfInBounds, helements, List.length_cons, Nat.add_right_comm,
          List.replicate_succ]
        simp
      obtain ⟨filled, hfill, hlist⟩ := ih hset
      rw [List.length_append, List.length_singleton] at hfill
      refine ⟨filled, ?_, by simpa using hlist⟩
      rw [fillElements, if_pos (by omega), hfill]

theorem assembleSet_eq (stray : StrayWrite Header) (header : SetHeader) (recordHeader : Header)
    (hroom : template.length ≤ 5) :
    ∃ elements, assembleSet stray template header recordHeader =
        ⟨header, ⟨recordHeader, elements⟩, 0⟩ ∧
      elements.toList.flatMap InformationElement.bytes =
        template.flatMap TemplateEntry.bytes ++ List.replicate (4 * (5 - template.length)) 0 := by
  have hnew : (Vector.replicate 5 (⟨0, 0⟩ : InformationElement)).toList =
      [] ++ List.replicate (template.length + (5 - template.length)) ⟨0, 0⟩ := by
    rw [Nat.add_sub_cancel' hroom]
    rfl
  obtain ⟨filled, hfill, hlist⟩ := fillElements_eq stray ⟨header, recordHeader, 0⟩ hnew
  refine ⟨filled, ?_, ?_⟩
  · rw [List.length_nil] at hfill
    rw [assembleSet, hfill]
  · have hzero (count : ℕ) : (List.replicate count (⟨0, 0⟩ : InformationElement)).flatMap
        InformationElement.bytes = List.replicate (4 * count) 0 := by
      induction count with
      | zero => rfl
      | succ count ih =>
          rw [List.replicate_succ, List.flatMap_cons, ih, Nat.mul_succ, Nat.add_comm,
            ← List.replicate_append_replicate]
          rfl
    rw [hlist, List.nil_append, List.flatMap_append, List.flatMap_map, hzero]
    simp only [bytes_createInformationElement]

theorem length_object (headerBytes : Header → List UInt8) (set : TmplSet Header) :
    (set.object headerBytes).bytes.length =
      4 + (headerBytes set.record.templateHeader).length + 21 := by
  have helements (elements : List InformationElement) :
      (elements.flatMap InformationElement.bytes).length = 4 * elements.length := by
    simp [List.length_flatMap, InformationElement.bytes, Nat.mul_comm]
  rw [SetObject.bytes, TmplSet.object, List.length_append, List.length_append, List.length_append,
    helements, Vector.length_toList, Nat.add_assoc]
  rfl

/-- The number of bytes a set is said to have. -/
theorem bytes_createSetHeader (setId : ℕ) {length : ℕ} (hsetId : setId < 2 ^ 16)
    (hlength : length < 2 ^ 16) :
    (createSetHeader setId length).bytes = bigEndian 2 setId ++ bigEndian 2 length ∧
      ntoh16 (createSetHeader setId length).length = length := by
  rw [SetHeader.bytes, createSetHeader, le16_hton16 hsetId, le16_hton16 hlength]
  exact ⟨rfl, ntoh16_hton16 hlength⟩

/-- A set whose header counts a record that can be decoded is copied as such. -/
theorem encodes_of_record (spare : List UInt8) {setId length : ℕ} {options : Bool}
    {body record padding : List UInt8} {decoded : Template} {behind dest : Memory} {pos : ℕ}
    (hsetId : setId < 2 ^ 16) (hlength : length < 2 ^ 16) (hbody : body = record ++ spare)
    (hsize : length = 4 + record.length)
    (hrecord : decodeRecord options record = some (decoded, padding)) (hshort : padding.length < 4)
    (hzero : ∀ byte ∈ padding, byte = 0) :
    Encodes (decodeSet setId options) decoded behind dest pos
      ⟨createSetHeader setId length, body⟩ := by
  obtain ⟨hheader, hntoh⟩ := bytes_createSetHeader setId hsetId hlength
  have hbytes : (⟨createSetHeader setId length, body⟩ : SetObject).bytes =
      (bigEndian 2 setId ++ (bigEndian 2 length ++ record)) ++ spare := by
    rw [SetObject.bytes, hheader, hbody]
    simp only [List.append_assoc]
  have hfront : (bigEndian 2 setId ++ (bigEndian 2 length ++ record)).length = length := by
    rw [List.length_append, List.length_append, length_bigEndian, length_bigEndian]
    omega
  rw [encodes_iff, hntoh, hbytes, List.take_left' hfront]
  refine ⟨?_, decodeSet_append hsetId hlength hsize hrecord hshort hzero⟩
  rw [List.length_append, hfront]
  omega

/-- For every template: the set that is copied says what the template says exactly if the
template has five fields at most, and no identifier with the bit for enterprises. -/
theorem createTmplSet_encodes_iff (stray : StrayWrite TmplRecordHeader) (behind dest : Memory)
    (pos : ℕ) :
    Encodes (decodeSet idTemplateSet false) ⟨id.toNat, 0, template.map TemplateEntry.specifier⟩
        behind dest pos ((createTmplSet stray id.toNat template).object TmplRecordHeader.bytes) ↔
      template.length ≤ 5 ∧ ∀ entry ∈ template, entry.id.toNat < 2 ^ 15 := by
  constructor
  · rw [encodes_iff, length_object]
    rintro ⟨hle, hdecode⟩
    obtain ⟨hfields, hids⟩ := of_decodeSet_template hdecode
    rw [List.length_take, length_object] at hfields
    have hheader : (TmplRecordHeader.bytes
      (createTmplSet stray id.toNat template).record.templateHeader).length = 4 := rfl
    exact ⟨by omega, hids⟩
  · rintro ⟨hroom, hids⟩
    have hcount : template.length < 2 ^ 16 := by omega
    obtain ⟨elements, hset, hbytes⟩ := assembleSet_eq stray
      (createSetHeader idTemplateSet (4 + 4 + 4 * template.length))
      (createTmplRecordHeader id.toNat template.length) hroom
    have hrecord := decodeRecord_tmpl id [] hids hcount
    rw [createTmplSet, hset]
    refine encodes_of_record (List.replicate (4 * (5 - template.length)) 0 ++ [0]) (by decide)
      (by omega) ?_ ?_ hrecord (by decide) nofun
    · rw [hbytes, createTmplRecordHeader, TmplRecordHeader.bytes, le16_hton16 id.toNat_lt,
        le16_hton16 hcount]
      simp only [List.append_assoc, List.append_nil]
    · simp only [List.length_append, length_bigEndian, length_flatMap_bytes, List.length_nil]
      omega

/-- A set of options has room for one field less, since two bytes of padding are counted. -/
theorem createOptsTmplSet_encodes_iff (stray : StrayWrite OptsTmplRecordHeader)
    (behind dest : Memory) (pos : ℕ) (hne : 0 < template.length) :
    Encodes (decodeSet idOptionTemplateSet true)
        ⟨id.toNat, 1, template.map TemplateEntry.specifier⟩ behind dest pos
        ((createOptsTmplSet stray id.toNat template).object OptsTmplRecordHeader.bytes) ↔
      template.length ≤ 4 ∧ ∀ entry ∈ template, entry.id.toNat < 2 ^ 15 := by
  have hassemble (hroom : template.length ≤ 5) := assembleSet_eq stray
    (createSetHeader idOptionTemplateSet (4 + 6 + 2 + 4 * template.length))
    (createOptsTmplRecordHeader id.toNat template.length 1) hroom
  constructor
  · rw [encodes_iff, length_object]
    rintro ⟨hle, hdecode⟩
    obtain ⟨hfields, hids⟩ := of_decodeSet_template hdecode
    rw [List.length_take, length_object] at hfields
    have hheader : (OptsTmplRecordHeader.bytes
      (createOptsTmplSet stray id.toNat template).record.templateHeader).length = 6 := rfl
    have hroom : template.length ≤ 5 := by omega
    -- with five fields, the padding does not end in the struct
    obtain ⟨elements, hset, _⟩ := hassemble hroom
    have hlength : 4 + 6 + 2 + 4 * template.length < 2 ^ 16 := by omega
    have hntoh := (bytes_createSetHeader idOptionTemplateSet (by decide) hlength).2
    have hword : ((createOptsTmplSet stray id.toNat template).object
        OptsTmplRecordHeader.bytes).setHeader =
        createSetHeader idOptionTemplateSet (4 + 6 + 2 + 4 * template.length) := by
      rw [createOptsTmplSet, hset]
      rfl
    rw [hword, hntoh] at hle
    exact ⟨by omega, hids⟩
  · rintro ⟨hroom, hids⟩
    have hcount : template.length < 2 ^ 16 := by omega
    obtain ⟨elements, hset, hbytes⟩ := hassemble (by omega)
    have hrecord := decodeRecord_opts id [0, 0] hids hcount hne
    have hspare : List.replicate (4 * (5 - template.length)) (0 : UInt8) =
        [0, 0] ++ List.replicate (4 * (5 - template.length) - 2) 0 := by
      have hcount' : 4 * (5 - template.length) = 2 + (4 * (5 - template.length) - 2) := by omega
      rw [hcount', ← List.replicate_append_replicate, Nat.add_sub_cancel_left]
      rfl
    rw [createOptsTmplSet, hset]
    refine encodes_of_record (List.replicate (4 * (5 - template.length) - 2) 0 ++
      [UInt8.ofNat (hton16 0).toNat]) (by decide) (by omega) ?_ ?_ hrecord (by decide) (by simp)
    · rw [hbytes, hspare, createOptsTmplRecordHeader, OptsTmplRecordHeader.bytes,
        le16_hton16 id.toNat_lt, le16_hton16 hcount, le16_hton16 (by decide)]
      simp only [List.append_assoc]
    · simp only [List.length_append, length_bigEndian, length_flatMap_bytes, List.length_cons,
        List.length_nil]
      omega

/-- Both kinds of sets, for every identifier, every template that is not empty and every
content of the memory around. -/
theorem templateSets_encode_iff (stray : StrayWrite TmplRecordHeader)
    (strayOpts : StrayWrite OptsTmplRecordHeader) (behind dest : Memory) (pos : ℕ) (id : UInt16)
    (template : List TemplateEntry) (hne : 0 < template.length) :
    (Encodes (decodeSet idTemplateSet false) ⟨id.toNat, 0, template.map TemplateEntry.specifier⟩
        behind dest pos ((createTmplSet stray id.toNat template).object TmplRecordHeader.bytes) ↔
      template.length ≤ 5 ∧ ∀ entry ∈ template, entry.id.toNat < 2 ^ 15) ∧
    (Encodes (decodeSet idOptionTemplateSet true)
        ⟨id.toNat, 1, template.map TemplateEntry.specifier⟩ behind dest pos
        ((createOptsTmplSet strayOpts id.toNat template).object OptsTmplRecordHeader.bytes) ↔
      template.length ≤ 4 ∧ ∀ entry ∈ template, entry.id.toNat < 2 ^ 15) :=
  ⟨createTmplSet_encodes_iff stray behind dest pos,
    createOptsTmplSet_encodes_iff strayOpts behind dest pos hne⟩

/-- The template of the documentation. -/
def flowTemplate : List TemplateEntry := [⟨8, 4⟩, ⟨12, 4⟩, ⟨4, 1⟩, ⟨7, 2⟩, ⟨11, 2⟩]

theorem templateSets_encode_iff_flowTemplate :
    0 < flowTemplate.length ∧
    (Encodes (decodeSet idTemplateSet false) ⟨256, 0, flowTemplate.map TemplateEntry.specifier⟩
        (fun _ => 0) (fun _ => 0) 0
        ((createTmplSet (fun _ _ others => others) 256 flowTemplate).object
          TmplRecordHeader.bytes) ↔
      flowTemplate.length ≤ 5 ∧ ∀ entry ∈ flowTemplate, entry.id.toNat < 2 ^ 15) :=
  ⟨by decide, (templateSets_encode_iff (fun _ _ others => others) (fun _ _ others => others)
    (fun _ => 0) (fun _ => 0) 0 256 flowTemplate (by decide)).1⟩

/-- It does not fit into a set of options, and with another field not into a template set. -/
theorem flowTemplate_not_encodes :
    ¬ Encodes (decodeSet idOptionTemplateSet true)
        ⟨(256 : UInt16).toNat, 1, flowTemplate.map TemplateEntry.specifier⟩ (fun _ => 0)
        (fun _ => 0) 0 ((createOptsTmplSet (fun _ _ others => others) (256 : UInt16).toNat
          flowTemplate).object OptsTmplRecordHeader.bytes) ∧
    ¬ Encodes (decodeSet idTemplateSet false)
        ⟨(256 : UInt16).toNat, 0, (⟨1, 4⟩ :: flowTemplate).map TemplateEntry.specifier⟩
        (fun _ => 0) (fun _ => 0) 0 ((createTmplSet (fun _ _ others => others)
          (256 : UInt16).toNat (⟨1, 4⟩ :: flowTemplate)).object TmplRecordHeader.bytes) := by
  rw [createOptsTmplSet_encodes_iff _ _ _ _ (by decide), createTmplSet_encodes_iff]
  exact ⟨by decide, by decide⟩

end Create

end Libmoon.Ipfix
