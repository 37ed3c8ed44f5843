import Libmoon.Ipfix.TemplateSets
import Mathlib.Algebra.BigOperators.Group.List.Basic

/-! # IPFIX data sets

A data set holds one record after the other, and a record the values of its fields. The
value of a field is the result of a function of the template, which is called for every byte
of the field, and may return something else each time. The results are recorded beside the
bytes, to compare them with those of one call a field.
-/

namespace Libmoon.Ipfix

open Foundation

universe u

variable {World : Type u}

/-- What a template says about a field. Its function depends on a world and changes it. -/
structure DataField (World : Type u) where
  length : ℕ
  value : World → ℕ × World

/-- `ipfix:getRecordLength`. -/
def getRecordLength (template : List (DataField World)) : ℕ :=
  template.foldl (fun length ie => length + ie.length) 0

/-- The byte that `bit.rshift(value, offset * 8)` leaves in a `uint8_t`. The number of bits to
shift by is reduced to its lowest five. -/
def fieldByte (value offset : ℕ) : UInt8 := ⟨(tobit value >>> (offset * 8 % 32)).setWidth 8⟩

/-- The loops of `createDataSet` on their way: the bytes with the index of the next one, the
world, and all results so far. -/
structure Filling (World : Type u) where
  fieldValues : List UInt8
  index : ℕ
  world : World
  calls : List ℕ

/-- The body of the innermost loop. -/
def writeByte (ie : DataField World) (offset : ℕ) (filling : Filling World) : Filling World :=
  let result := ie.value filling.world
  { fieldValues := filling.fieldValues.set filling.index (fieldByte result.1 offset)
    index := filling.index + 1
    world := result.2
    calls := filling.calls ++ [result.1] }

/-- The innermost loop, with the offsets below a number. -/
def writeField (ie : DataField World) : ℕ → Filling World → Filling World
  | 0, filling => filling
  | offset + 1, filling => writeField ie offset (writeByte ie offset filling)

/-- The loop over the fields. -/
def writeRecord (template : List (DataField World)) (filling : Filling World) : Filling World :=
  template.foldl (fun filling ie => writeField ie ie.length filling) filling

/-- The loop over the records. -/
def writeRecords (template : List (DataField World)) : ℕ → Filling World → Filling World
  | 0, filling => filling
  | numOfRecords + 1, filling => writeRecords template numOfRecords (writeRecord template filling)

/-- `ipfix:createDataSet`, with the results of all calls. -/
def createDataSet (id : ℕ) (template : List (DataField World)) (recordLength numOfRecords : ℕ)
    (world : World) : SetObject × List ℕ :=
  let header := createSetHeader id (4 + numOfRecords * recordLength)
  let filling := writeRecords template numOfRecords
    ⟨List.replicate (numOfRecords * recordLength) 0, 0, world, []⟩
  (⟨header, filling.fieldValues⟩, filling.calls)

/-! ## One value a field -/

/-- Call the function of every field once. -/
def sampleOnce : List (DataField World) → World → List ℕ × World
  | [], world => ([], world)
  | ie :: rest, world =>
      let result := ie.value world
      let others := sampleOnce rest result.2
      (result.1 :: others.1, others.2)

/-- Values as fields, in network order. -/
def encodeFields (fields : List (DataField World)) (values : List ℕ) : List UInt8 :=
  (List.zipWith (fun ie value => bigEndian ie.length value) fields values).flatten

/-- The fields of all records. -/
def allFields (template : List (DataField World)) (numOfRecords : ℕ) : List (DataField World) :=
  (List.replicate numOfRecords template).flatten

/-- The length in the header is right, the functions have been called once for every field,
and the set holds the encodings of what they returned. -/
structure OneValueAField (template : List (DataField World)) (numOfRecords : ℕ) (world : World)
    (result : SetObject × List ℕ) : Prop where
  length : ntoh16 result.1.setHeader.length = 4 + numOfRecords * getRecordLength template
  once : result.2 = (sampleOnce (allFields template numOfRecords) world).1
  encoded : result.1.body = encodeFields (allFields template numOfRecords) result.2

section Laws

variable {template fields : List (DataField World)} {filling : Filling World} {ie : DataField World}

theorem getRecordLength_eq : getRecordLength template = (template.map DataField.length).sum := by
  rw [getRecordLength, List.sum_eq_foldl, List.foldl_map]

theorem length_sampleOnce (fields : List (DataField World)) (world : World) :
    (sampleOnce fields world).1.length = fields.length := by
  induction fields generalizing world with
  | nil => rfl
  | cons ie rest ih => rw [sampleOnce, List.length_cons, ih, List.length_cons]

theorem allFields_succ (template : List (DataField World)) (numOfRecords : ℕ) :
    allFields template (numOfRecords + 1) = template ++ allFields template numOfRecords := by
  rw [allFields, List.replicate_succ, List.flatten_cons, allFields]

theorem sum_length_allFields (template : List (DataField World)) (numOfRecords : ℕ) :
    ((allFields template numOfRecords).map DataField.length).sum =
      numOfRecords * getRecordLength template := by
  induction numOfRecords with
  | zero => rw [Nat.zero_mul]; rfl
  | succ numOfRecords ih =>
      rw [allFields_succ, List.map_append, List.sum_append, ih, getRecordLength_eq, Nat.succ_mul,
        Nat.add_comm]

theorem mem_allFields {numOfRecords : ℕ} :
    ie ∈ allFields template numOfRecords ↔ numOfRecords ≠ 0 ∧ ie ∈ template := by
  simp [allFields, List.mem_flatten, List.mem_replicate]

/-- Records are written like one long record. -/
theorem writeRecords_eq (template : List (DataField World)) (numOfRecords : ℕ)
    (filling : Filling World) :
    writeRecords template numOfRecords filling =
      writeRecord (allFields template numOfRecords) filling := by
  induction numOfRecords generalizing filling with
  | zero => rfl
  | succ numOfRecords ih =>
      rw [writeRecords, ih, allFields_succ, writeRecord, writeRecord, writeRecord,
        List.foldl_append]

/-- A function is called for every byte. -/
theorem length_calls_writeField (ie : DataField World) (count : ℕ) (filling : Filling World) :
    (writeField ie count filling).calls.length = filling.calls.length + count := by
  induction count generalizing filling with
  | zero => rfl
  | succ offset ih =>
      rw [writeField, ih, writeByte, List.length_append, List.length_singleton]
      omega

theorem length_calls_writeRecord (fields : List (DataField World)) (filling : Filling World) :
    (writeRecord fields filling).calls.length =
      filling.calls.length + (fields.map DataField.length).sum := by
  induction fields generalizing filling with
  | nil => rfl
  | cons ie rest ih =>
      have hnext : writeRecord (ie :: rest) filling =
          writeRecord rest (writeField ie ie.length filling) := rfl
      rw [hnext, ih, length_calls_writeField, List.map_cons, List.sum_cons, Nat.add_assoc]

theorem fieldByte_eq (value offset : ℕ) :
    fieldByte value offset = ⟨(BitVec.ofNat 32 value >>> (offset * 8 % 32)).setWidth 8⟩ := by
  rw [fieldByte, tobit_natCast]

theorem fieldByte_zero (value : ℕ) : fieldByte value 0 = UInt8.ofNat value := by
  apply UInt8.toBitVec_inj.mp
  apply BitVec.eq_of_toNat_eq
  rw [fieldByte_eq]
  simp

/-- Fields of one byte are written one behind the other, with one call each. -/
theorem writeRecord_single (written : List UInt8) (spare : ℕ) (world : World) (calls : List ℕ)
    (hsingle : ∀ ie ∈ fields, ie.length = 1) :
    writeRecord fields ⟨written ++ List.replicate (fields.length + spare) 0, written.length, world,
        calls⟩ =
      ⟨written ++ encodeFields fields (sampleOnce fields world).1 ++ List.replicate spare 0,
        written.length + fields.length, (sampleOnce fields world).2,
        calls ++ (sampleOnce fields world).1⟩ := by
  induction fields generalizing written world calls with
  | nil => simp [writeRecord, sampleOnce, encodeFields]
  | cons ie rest ih =>
      obtain ⟨hone, hrest⟩ := List.forall_mem_cons.mp hsingle
      have hset : (written ++ List.replicate ((ie :: rest).length + spare) 0).set written.length
          (fieldByte (ie.value world).1 0) =
            (written ++ [UInt8.ofNat (ie.value world).1]) ++
              List.replicate (rest.length + spare) 0 := by
        rw [List.length_cons, Nat.add_right_comm, List.replicate_succ, fieldByte_zero]
        simp
      have hnext := ih (written ++ [UInt8.ofNat (ie.value world).1]) (ie.value world).2
        (calls ++ [(ie.value world).1]) hrest
      rw [writeRecord, List.foldl_cons, hone, writeField, writeField, writeByte]
      simp only
      rw [hset]
      rw [List.length_append, List.length_singleton] at hnext
      rw [writeRecord] at hnext
      rw [hnext, sampleOnce, encodeFields, encodeFields, List.zipWith_cons_cons, List.flatten_cons,
        hone, bigEndian_one]
      simp [Nat.add_assoc, Nat.add_comm 1]

/-- Where no field has more than one byte, the set holds what one call a field returns. -/
theorem createDataSet_single (id numOfRecords : ℕ) (world : World)
    (hsingle : ∀ ie ∈ allFields template numOfRecords, ie.length = 1) :
    createDataSet id template (getRecordLength template) numOfRecords world =
      (⟨createSetHeader id (4 + numOfRecords * getRecordLength template),
          encodeFields (allFields template numOfRecords)
            (sampleOnce (allFields template numOfRecords) world).1⟩,
        (sampleOnce (allFields template numOfRecords) world).1) := by
  have htotal : numOfRecords * getRecordLength template =
      (allFields template numOfRecords).length := by
    rw [← sum_length_allFields, List.map_congr_left hsingle, List.map_const', List.sum_replicate,
      Nat.nsmul_eq_mul, Nat.mul_one]
  have hwrite := writeRecord_single [] 0 world [] hsingle
  rw [Nat.add_zero, ← htotal, List.nil_append, List.nil_append, List.nil_append,
    List.replicate_zero, List.append_nil, List.length_nil] at hwrite
  rw [createDataSet, writeRecords_eq, hwrite]

/-- Numbers of at least 1 whose sum is their number are 1. -/
theorem eq_one_of_sum_eq_length {lengths : List ℕ} (hpos : ∀ length ∈ lengths, 0 < length)
    (hsum : lengths.sum = lengths.length) : ∀ length ∈ lengths, length = 1 := by
  induction lengths with
  | nil => nofun
  | cons length rest ih =>
      obtain ⟨hfirst, hrest⟩ := List.forall_mem_cons.mp hpos
      have hle := List.length_le_sum_of_one_le rest hrest
      rw [List.sum_cons, List.length_cons] at hsum
      exact List.forall_mem_cons.mpr ⟨by omega, ih hrest (by omega)⟩

/-- For every template, number of records and world: every field is one value exactly if there
is no record or no field has more than one byte, and the length of the set fits. -/
theorem createDataSet_oneValueAField_iff (id : ℕ) (template : List (DataField World))
    (hpos : ∀ ie ∈ template, 0 < ie.length) (numOfRecords : ℕ) (world : World) :
    OneValueAField template numOfRecords world
        (createDataSet id template (getRecordLength template) numOfRecords world) ↔
      (numOfRecords = 0 ∨ ∀ ie ∈ template, ie.length = 1) ∧
        4 + numOfRecords * getRecordLength template < 2 ^ 16 := by
  have hfits : ntoh16 (hton16 (4 + numOfRecords * getRecordLength template)) =
      4 + numOfRecords * getRecordLength template ↔
        4 + numOfRecords * getRecordLength template < 2 ^ 16 := by
    refine ⟨fun heq => ?_, ntoh16_hton16⟩
    rw [← heq]
    exact ntoh16_lt _
  constructor
  · rintro ⟨hlength, honce, _⟩
    refine ⟨?_, hfits.mp hlength⟩
    have hcalls := congrArg List.length honce
    rw [createDataSet, writeRecords_eq, length_calls_writeRecord, length_sampleOnce] at hcalls
    have hlengths : ((allFields template numOfRecords).map DataField.length).sum =
        ((allFields template numOfRecords).map DataField.length).length := by
      simpa using hcalls
    have hall := eq_one_of_sum_eq_length ?_ hlengths
    · by_cases hzero : numOfRecords = 0
      · exact .inl hzero
      · right
        intro ie hie
        exact hall _ (List.mem_map_of_mem (mem_allFields.mpr ⟨hzero, hie⟩))
    · intro length hmem
      obtain ⟨ie, hie, rfl⟩ := List.mem_map.mp hmem
      exact hpos ie (mem_allFields.mp hie).2
  · rintro ⟨hcase, hlt⟩
    have hsingle : ∀ ie ∈ allFields template numOfRecords, ie.length = 1 := by
      intro ie hie
      obtain ⟨hne, hmem⟩ := mem_allFields.mp hie
      exact hcase.elim (fun hzero => absurd hzero hne) (fun hall => hall ie hmem)
    rw [createDataSet_single id numOfRecords world hsingle]
    exact ⟨hfits.mpr hlt, rfl, rfl⟩

/-- A field of one byte, with a counter for its value. -/
def counterField : DataField ℕ := ⟨1, fun count => (count, count + 1)⟩

theorem createDataSet_counterField : (∀ ie ∈ [counterField], 0 < ie.length) ∧
    (OneValueAField [counterField] 2 7
        (createDataSet 256 [counterField] (getRecordLength [counterField]) 2 7) ↔
      (2 = 0 ∨ ∀ ie ∈ [counterField], ie.length = 1) ∧
        4 + 2 * getRecordLength [counterField] < 2 ^ 16) :=
  ⟨by simp [counterField],
    createDataSet_oneValueAField_iff 256 [counterField] (by simp [counterField]) 2 7⟩

/-- A port that counts up is written as 0x0101 where it has been 0x0100 and 0x0101, and 1 in
eight bytes is written as 1 twice. -/
theorem createDataSet_not_oneValueAField :
    (createDataSet 256 [⟨2, fun port => (port, port + 1)⟩] 2 1 0x0100).1.body = [1, 1] ∧
      ¬ OneValueAField [⟨2, fun port => (port, port + 1)⟩] 1 0x0100
        (createDataSet 256 [⟨2, fun port => (port, port + 1)⟩] 2 1 0x0100) ∧
      (createDataSet 256 [⟨8, fun world : Unit => (1, world)⟩] 8 1 ()).1.body =
        [0, 0, 0, 1, 0, 0, 0, 1] ∧
      ¬ OneValueAField [⟨8, fun world : Unit => (1, world)⟩] 1 ()
        (createDataSet 256 [⟨8, fun world : Unit => (1, world)⟩] 8 1 ()) := by
  refine ⟨?_, fun hone => ?_, ?_, fun hone => ?_⟩
  · simp [createDataSet, writeRecords, writeRecord, writeField, writeByte, fieldByte_eq]
  · exact absurd (congrArg List.length hone.once) (by decide)
  · simp [createDataSet, writeRecords, writeRecord, writeField, writeByte, fieldByte_eq]
  · exact absurd (congrArg List.length hone.once) (by decide)

end Laws

end Libmoon.Ipfix
