import Libmoon.Pcap.Reader

/-! # Files of complete records

A file whose records are complete is a chain: every record starts where the one
before it ends, and the last one ends with the file. What the single and the
batched read return on such a file is computed here from the chain.
-/

namespace Libmoon.Pcap

open Foundation

/-! ## One record -/

/-- The buffer that is filled from the record at an offset. -/
def recordBuf (mem : Memory) (src : Nat) (mempoolBufSize : UInt32)
    (nanosecondTimestamps : Bool) : PktMbuf :=
  let inclLen := mem.word32 (src + 8)
  let origLen := mem.word32 (src + 12)
  { pktLen := inclLen
    dataLen := (copyLen inclLen mempoolBufSize +
      zeroFillLen inclLen origLen mempoolBufSize).toUInt16
    timestamp := recordTimestamp nanosecondTimestamps (mem.word32 src) (mem.word32 (src + 4))
    data := mem.load (src + 16) (copyLen inclLen mempoolBufSize).toNat ++
      List.replicate (zeroFillLen inclLen origLen mempoolBufSize).toNat 0 }

/-- The guard of `libmoon_read_pcap`, over the integers. -/
theorem refused_iff (inclLen : UInt32) (remaining : UInt64) :
    inclLen.toUInt64 ≥ remaining ↔ remaining.toNat ≤ inclLen.toNat := by
  rw [ge_iff_le, UInt64.le_iff_toNat_le, UInt32.toNat_toUInt64]

section ReadPcap

variable (mem : Memory) (src : Nat) {remaining : UInt64} (mempoolBufSize : UInt32)
  (nanosecondTimestamps : Bool)

theorem libmoonReadPcap_of_refused (allocated : Bool)
    (hrefused : remaining.toNat ≤ (mem.word32 (src + 8)).toNat) :
    libmoonReadPcap mem src remaining mempoolBufSize nanosecondTimestamps allocated =
      ⟨none, [⟨src + 8, 4⟩]⟩ := by
  simp only [libmoonReadPcap, Traced.word32, Traced.bind_mk, refused_iff, hrefused, if_true]
  rfl

theorem libmoonReadPcap_of_not_allocated
    (hfits : ¬ remaining.toNat ≤ (mem.word32 (src + 8)).toNat) :
    libmoonReadPcap mem src remaining mempoolBufSize nanosecondTimestamps false =
      ⟨none, [⟨src + 8, 4⟩, ⟨src + 12, 4⟩]⟩ := by
  simp only [libmoonReadPcap, Traced.word32, Traced.bind_mk, refused_iff, hfits, if_false]
  rfl

theorem libmoonReadPcap_of_allocated
    (hfits : ¬ remaining.toNat ≤ (mem.word32 (src + 8)).toNat) :
    libmoonReadPcap mem src remaining mempoolBufSize nanosecondTimestamps true =
      ⟨some (recordBuf mem src mempoolBufSize nanosecondTimestamps),
        [⟨src + 8, 4⟩, ⟨src + 12, 4⟩, ⟨src, 4⟩, ⟨src + 4, 4⟩,
          ⟨src + 16, (copyLen (mem.word32 (src + 8)) mempoolBufSize).toNat⟩]⟩ := by
  simp only [libmoonReadPcap, Traced.word32, Traced.bind_mk, refused_iff, hfits, if_false]
  rfl

theorem copyLen_le (inclLen : UInt32) :
    (copyLen inclLen mempoolBufSize).toNat ≤ inclLen.toNat := by
  unfold copyLen
  split
  next hlong => exact Nat.le_of_lt (UInt32.lt_iff_toNat_lt.mp hlong)
  next => exact Nat.le_refl _

variable {mempoolBufSize}

theorem toNat_dataRoom (hsize : 128 ≤ mempoolBufSize.toNat) :
    (mempoolBufSize - 128).toNat = mempoolBufSize.toNat - 128 :=
  UInt32.toNat_sub_of_le _ _ (UInt32.le_iff_toNat_le.mpr hsize)

theorem toNat_copyLen (hsize : 128 ≤ mempoolBufSize.toNat) (inclLen : UInt32) :
    (copyLen inclLen mempoolBufSize).toNat =
      min inclLen.toNat (mempoolBufSize.toNat - 128) := by
  have hroom := toNat_dataRoom hsize
  unfold copyLen
  split
  next hlong =>
    rw [gt_iff_lt, UInt32.lt_iff_toNat_lt, hroom] at hlong
    omega
  next hshort =>
    rw [gt_iff_lt, UInt32.lt_iff_toNat_lt, hroom] at hshort
    omega

/-- The zeros fill up to the original length, or the buffer if that is shorter than the
record. -/
theorem toNat_zeroFillLen (hsize : 128 ≤ mempoolBufSize.toNat) (inclLen origLen : UInt32) :
    (zeroFillLen inclLen origLen mempoolBufSize).toNat =
      if origLen.toNat < inclLen.toNat then mempoolBufSize.toNat - 128 - inclLen.toNat
      else min (mempoolBufSize.toNat - 128 - inclLen.toNat) (origLen.toNat - inclLen.toNat) := by
  have hcopy := toNat_copyLen hsize inclLen
  have hheadroom : (128 : UInt32).toNat = 128 := rfl
  have hrest : (mempoolBufSize - copyLen inclLen mempoolBufSize).toNat =
      mempoolBufSize.toNat - (copyLen inclLen mempoolBufSize).toNat :=
    UInt32.toNat_sub_of_le _ _ (UInt32.le_iff_toNat_le.mpr (by omega))
  have hroom : (mempoolBufSize - copyLen inclLen mempoolBufSize - 128).toNat =
      mempoolBufSize.toNat - 128 - inclLen.toNat := by
    rw [UInt32.toNat_sub_of_le _ _ (UInt32.le_iff_toNat_le.mpr (by omega)), hrest, hheadroom,
      hcopy]
    omega
  rw [zeroFillLen, UInt32.toNat_min, hroom]
  split
  next hshorter =>
    have hincl := inclLen.toNat_lt
    have hbuf := mempoolBufSize.toNat_lt
    have hwrapped : (origLen - inclLen).toNat = 2 ^ 32 - inclLen.toNat + origLen.toNat := by
      rw [UInt32.toNat_sub, Nat.mod_eq_of_lt (by omega)]
    omega
  next hlonger =>
    rw [UInt32.toNat_sub_of_le _ _ (UInt32.le_iff_toNat_le.mpr (by omega))]

end ReadPcap

/-! ## A batch, record by record -/

theorem advance_cons (offset : Nat) (buf : PktMbuf) (bufs : List PktMbuf) :
    advance offset (buf :: bufs) = advance (offset + buf.pktLen.toNat + 16) bufs := rfl

theorem le_advance (offset : Nat) (bufs : List PktMbuf) : offset ≤ advance offset bufs := by
  induction bufs generalizing offset with
  | nil => exact Nat.le_refl _
  | cons buf rest ih =>
      rw [advance_cons]
      exact Nat.le_trans (by omega) (ih _)

section Batch

variable (mem : Memory) (pcap : Nat) (mempoolBufSize : UInt32) (nanosecondTimestamps : Bool)
  {allocated : Nat → Bool} (left : Nat) {i : Nat} {offset remaining : UInt64} {start : Nat}

theorem readPcapBatchLoop_of_refused (hstart : pcap + offset.toNat = start)
    (hrefused : remaining.toNat ≤ (mem.word32 (start + 8)).toNat) :
    readPcapBatchLoop mem pcap mempoolBufSize nanosecondTimestamps allocated (left + 1) i
        offset remaining = ⟨[], [⟨start + 8, 4⟩]⟩ := by
  simp only [readPcapBatchLoop, hstart, Traced.bind_mk,
    libmoonReadPcap_of_refused mem start mempoolBufSize nanosecondTimestamps (allocated i) hrefused]
  rfl

theorem readPcapBatchLoop_of_not_allocated (hstart : pcap + offset.toNat = start)
    (hfits : ¬ remaining.toNat ≤ (mem.word32 (start + 8)).toNat) (halloc : allocated i = false) :
    readPcapBatchLoop mem pcap mempoolBufSize nanosecondTimestamps allocated (left + 1) i
        offset remaining = ⟨[], [⟨start + 8, 4⟩, ⟨start + 12, 4⟩]⟩ := by
  simp only [readPcapBatchLoop, hstart, halloc, Traced.bind_mk,
    libmoonReadPcap_of_not_allocated mem start mempoolBufSize nanosecondTimestamps hfits]
  rfl

theorem readPcapBatchLoop_of_allocated (hstart : pcap + offset.toNat = start)
    (hfits : ¬ remaining.toNat ≤ (mem.word32 (start + 8)).toNat) (halloc : allocated i = true) :
    let rest := readPcapBatchLoop mem pcap mempoolBufSize nanosecondTimestamps allocated left
      (i + 1) (offset + ((mem.word32 (start + 8)).toUInt64 + 16))
      (remaining - ((mem.word32 (start + 8)).toUInt64 + 16))
    readPcapBatchLoop mem pcap mempoolBufSize nanosecondTimestamps allocated (left + 1) i
        offset remaining =
      ⟨recordBuf mem start mempoolBufSize nanosecondTimestamps :: rest.value,
        [⟨start + 8, 4⟩, ⟨start + 12, 4⟩, ⟨start, 4⟩, ⟨start + 4, 4⟩,
          ⟨start + 16, (copyLen (mem.word32 (start + 8)) mempoolBufSize).toNat⟩,
          ⟨start + 8, 4⟩] ++ rest.reads⟩ := by
  intro rest
  simp only [readPcapBatchLoop, hstart, halloc, Traced.bind_mk, Traced.word32,
    libmoonReadPcap_of_allocated mem start mempoolBufSize nanosecondTimestamps hfits]
  simp [rest]

end Batch

section Next

variable {pcap start : Nat} {offset remaining size : UInt64} {inclLen : UInt32}

theorem toNat_recordSize (inclLen : UInt32) :
    (inclLen.toUInt64 + 16).toNat = inclLen.toNat + 16 := by
  have hlen := inclLen.toNat_lt
  have hheader : (16 : UInt64).toNat = 16 := rfl
  rw [UInt64.toNat_add, UInt32.toNat_toUInt64, hheader]
  omega

/-- The offset of the batch loop does not wrap while the record is inside. -/
theorem toNat_offset_next (hstart : pcap + offset.toNat = start)
    (hinside : start + 16 + inclLen.toNat ≤ size.toNat) :
    pcap + (offset + (inclLen.toUInt64 + 16)).toNat = start + 16 + inclLen.toNat := by
  have hsize := size.toNat_lt
  rw [UInt64.toNat_add, toNat_recordSize]
  omega

/-- Nor does its count of the remaining bytes. -/
theorem toNat_remaining_next (hremaining : remaining.toNat = size.toNat - start)
    (hinside : start + 16 + inclLen.toNat ≤ size.toNat) :
    (remaining - (inclLen.toUInt64 + 16)).toNat =
      size.toNat - (start + 16 + inclLen.toNat) := by
  have hle : inclLen.toUInt64 + 16 ≤ remaining := by
    rw [UInt64.le_iff_toNat_le, toNat_recordSize]
    omega
  rw [UInt64.toNat_sub_of_le _ _ hle, toNat_recordSize]
  omega

/-- The count a reader passes to the C code. -/
theorem toNat_fileRemaining {reader : Reader} (hoffset : reader.offset ≤ reader.file.size.toNat) :
    (UInt64.ofNat reader.fileRemaining.toNat).toNat =
      reader.file.size.toNat - reader.offset := by
  have hsize := reader.file.size.toNat_lt
  have hint : reader.fileRemaining.toNat = reader.file.size.toNat - reader.offset := by
    unfold Reader.fileRemaining
    omega
  rw [hint, UInt64.toNat_ofNat', Nat.mod_eq_of_lt (by omega)]

end Next

/-! ## The read functions -/

/-- An accepted file is read from the end of its header on. -/
theorem newReader_eq {file : PcapFile} {reader : Reader} (hreader : newReader file = .ok reader) :
    reader.file = file ∧ reader.offset = fileHeaderSize := by
  unfold newReader readHeader at hreader
  simp only [bind, Except.bind, pure, Except.pure] at hreader
  split at hreader
  next => cases hreader
  next result hheader =>
    obtain rfl := Except.ok.inj hreader
    refine ⟨rfl, ?_⟩
    split at hheader
    next => cases hheader
    next =>
      split at hheader
      next => cases hheader
      next =>
        split at hheader
        next => cases hheader
        next =>
          split at hheader
          next => cases hheader
          next =>
            obtain rfl := Except.ok.inj hheader
            rfl

section Read

variable {reader : Reader} {mempoolBufSize : UInt32}

theorem readSingle_near_end {allocated : Bool}
    (hend : ¬ reader.offset + 32 ≤ reader.file.size.toNat) :
    reader.readSingle mempoolBufSize allocated = ⟨(.nil, reader), []⟩ := by
  have hguard : reader.fileRemaining < 32 := by
    unfold Reader.fileRemaining
    omega
  simp only [Reader.readSingle, hguard, if_true]
  rfl

theorem read_near_end {numBufs : UInt32} {allocated : Nat → Bool}
    (hend : ¬ reader.offset + 32 ≤ reader.file.size.toNat) :
    reader.read numBufs mempoolBufSize allocated = ⟨([], reader), []⟩ := by
  have hguard : reader.fileRemaining < 32 := by
    unfold Reader.fileRemaining
    omega
  simp only [Reader.read, hguard, if_true]
  rfl

theorem fileRemaining_of_room (hroom : reader.offset + 32 ≤ reader.file.size.toNat) :
    ¬ reader.fileRemaining < 32 ∧ (UInt64.ofNat reader.fileRemaining.toNat).toNat =
      reader.file.size.toNat - reader.offset := by
  refine ⟨?_, toNat_fileRemaining (by omega)⟩
  unfold Reader.fileRemaining
  omega

theorem readSingle_of_refused {allocated : Bool}
    (hroom : reader.offset + 32 ≤ reader.file.size.toNat)
    (hrefused : reader.file.size.toNat - reader.offset ≤
      (reader.file.byte.word32 (reader.offset + 8)).toNat) :
    reader.readSingle mempoolBufSize allocated =
      ⟨(.nullDereference, reader), [⟨reader.offset + 8, 4⟩]⟩ := by
  obtain ⟨hguard, hremaining⟩ := fileRemaining_of_room hroom
  simp only [Reader.readSingle, hguard, if_false, Traced.bind_mk,
    libmoonReadPcap_of_refused reader.file.byte reader.offset mempoolBufSize
      reader.nanosecondTimestamp allocated (hremaining ▸ hrefused)]
  rfl

theorem readSingle_of_not_allocated
    (hroom : reader.offset + 32 ≤ reader.file.size.toNat)
    (hfits : ¬ reader.file.size.toNat - reader.offset ≤
      (reader.file.byte.word32 (reader.offset + 8)).toNat) :
    reader.readSingle mempoolBufSize false =
      ⟨(.nullDereference, reader), [⟨reader.offset + 8, 4⟩, ⟨reader.offset + 12, 4⟩]⟩ := by
  obtain ⟨hguard, hremaining⟩ := fileRemaining_of_room hroom
  simp only [Reader.readSingle, hguard, if_false, Traced.bind_mk,
    libmoonReadPcap_of_not_allocated reader.file.byte reader.offset mempoolBufSize
      reader.nanosecondTimestamp (hremaining ▸ hfits)]
  rfl

theorem readSingle_of_allocated
    (hroom : reader.offset + 32 ≤ reader.file.size.toNat)
    (hfits : ¬ reader.file.size.toNat - reader.offset ≤
      (reader.file.byte.word32 (reader.offset + 8)).toNat) :
    reader.readSingle mempoolBufSize true =
      ⟨(.buf (recordBuf reader.file.byte reader.offset mempoolBufSize
            reader.nanosecondTimestamp).clip,
          { reader with
            offset := reader.offset + (reader.file.byte.word32 (reader.offset + 8)).toNat + 16 }),
        [⟨reader.offset + 8, 4⟩, ⟨reader.offset + 12, 4⟩, ⟨reader.offset, 4⟩,
          ⟨reader.offset + 4, 4⟩, ⟨reader.offset + 16,
            (copyLen (reader.file.byte.word32 (reader.offset + 8)) mempoolBufSize).toNat⟩]⟩ := by
  obtain ⟨hguard, hremaining⟩ := fileRemaining_of_room hroom
  simp only [Reader.readSingle, hguard, if_false, Traced.bind_mk,
    libmoonReadPcap_of_allocated reader.file.byte reader.offset mempoolBufSize
      reader.nanosecondTimestamp (hremaining ▸ hfits)]
  rfl

theorem read_of_room {numBufs : UInt32} {allocated : Nat → Bool}
    (hroom : reader.offset + 32 ≤ reader.file.size.toNat) :
    let run := readPcapBatchLoop reader.file.byte reader.offset mempoolBufSize
      reader.nanosecondTimestamp allocated numBufs.toNat 0 0
      (UInt64.ofNat reader.fileRemaining.toNat)
    reader.read numBufs mempoolBufSize allocated =
      ⟨(run.value.map PktMbuf.clip, { reader with offset := advance reader.offset run.value }),
        run.reads⟩ := by
  intro run
  obtain ⟨hguard, _⟩ := fileRemaining_of_room hroom
  simp only [Reader.read, libmoonReadPcapBatch, hguard, if_false]
  change Traced.mk _ _ = _
  simp [run]

end Read

/-! ## Chains of complete records -/

/-- From `start` on the file consists of complete records of the given lengths and
nothing else. -/
def RecordsAt (file : PcapFile) : Nat → List UInt32 → Prop
  | start, [] => start = file.size.toNat
  | start, len :: rest =>
      file.byte.word32 (start + 8) = len ∧ RecordsAt file (start + 16 + len.toNat) rest

instance decidableRecordsAt (file : PcapFile) (start : Nat) (lens : List UInt32) :
    Decidable (RecordsAt file start lens) :=
  match lens with
  | [] => inferInstanceAs (Decidable (_ = _))
  | len :: rest =>
      haveI := decidableRecordsAt file (start + 16 + len.toNat) rest
      inferInstanceAs (Decidable (_ ∧ _))

/-- The file that is written for packets of the given lengths. -/
def sampleFile (lens : List UInt32) : PcapFile :=
  ((lens.map fun len => (⟨1, 2, UInt8.ofNat, len, none⟩ : Packet)).foldl Writer.write
    (newWriter 200)).close

/-- A reader at the first record of such a file. -/
def sampleReader (lens : List UInt32) : Reader := ⟨sampleFile lens, fileHeaderSize, tcpdumpMagic⟩

/-- The bytes that records of the given lengths take. -/
def recordBytes : List UInt32 → Nat
  | [] => 0
  | len :: rest => 16 + len.toNat + recordBytes rest

/-- The buffers such records are returned in. -/
def recordBufs (mem : Memory) (mempoolBufSize : UInt32) (nanosecondTimestamps : Bool) :
    Nat → List UInt32 → List PktMbuf
  | _, [] => []
  | start, len :: rest =>
      (recordBuf mem start mempoolBufSize nanosecondTimestamps).clip ::
        recordBufs mem mempoolBufSize nanosecondTimestamps (start + 16 + len.toNat) rest

@[simp] theorem length_recordBufs (mem : Memory) (mempoolBufSize : UInt32)
    (nanosecondTimestamps : Bool) (start : Nat) (lens : List UInt32) :
    (recordBufs mem mempoolBufSize nanosecondTimestamps start lens).length = lens.length := by
  induction lens generalizing start with
  | nil => rfl
  | cons len rest ih => simp [recordBufs, ih]

theorem RecordsAt.size_eq {file : PcapFile} {start : Nat} {lens : List UInt32}
    (hrecords : RecordsAt file start lens) : file.size.toNat = start + recordBytes lens := by
  induction lens generalizing start with
  | nil => exact hrecords.symm
  | cons len rest ih =>
      rw [ih hrecords.2, recordBytes]
      omega

/-- The records from number `k` on. -/
theorem RecordsAt.drop {file : PcapFile} {start : Nat} {lens : List UInt32}
    (hrecords : RecordsAt file start lens) (k : Nat) :
    RecordsAt file (start + recordBytes (lens.take k)) (lens.drop k) := by
  induction lens generalizing start k with
  | nil => simpa [recordBytes] using hrecords
  | cons len rest ih =>
      cases k with
      | zero => exact hrecords
      | succ k =>
          have hrest := ih hrecords.2 k
          rw [List.take_succ_cons, List.drop_succ_cons, recordBytes, ← Nat.add_assoc,
            ← Nat.add_assoc]
          exact hrest

/-- The last record, if there is one, has at least 16 bytes. -/
def LastLong (lens : List UInt32) : Prop := ∀ len ∈ lens.getLast?, 16 ≤ len.toNat

instance (lens : List UInt32) : Decidable (LastLong lens) :=
  match h : lens.getLast? with
  | none => isTrue (by simp [LastLong, h])
  | some len => decidable_of_iff (16 ≤ len.toNat) (by simp [LastLong, h])

/-- The guard `fileRemaining < 32` stops at the end of the file and, by mistake, at
a last record of fewer than 16 bytes. -/
theorem recordBytes_lt_iff (lens : List UInt32) :
    recordBytes lens < 32 ↔ lens = [] ∨ lens.length = 1 ∧ ¬ LastLong lens := by
  match lens with
  | [] => simp [recordBytes]
  | [len] =>
      have hlast : LastLong [len] ↔ 16 ≤ len.toNat := by simp [LastLong]
      have hne : [len] ≠ [] := List.cons_ne_nil _ _
      simp only [recordBytes, hne, false_or, List.length_singleton, true_and, hlast]
      omega
  | first :: second :: rest =>
      have hne : first :: second :: rest ≠ [] := List.cons_ne_nil _ _
      simp only [recordBytes, hne, false_or, List.length_cons]
      omega

/-- The results of `n` calls of `readSingle`, all of whose allocations succeed. -/
def readSingles (mempoolBufSize : UInt32) : Nat → Reader → List SingleResult
  | 0, _ => []
  | n + 1, reader =>
      let result := (reader.readSingle mempoolBufSize true).value
      result.1 ::
        if result.1 = .nullDereference then [] else readSingles mempoolBufSize n result.2

/-- The buffer a single read returns, if any. -/
def SingleResult.buf? : SingleResult → Option PktMbuf
  | .buf packet => some packet
  | .nil | .nullDereference => none

section Chain

variable {reader : Reader} {lens : List UInt32} (mempoolBufSize : UInt32)

theorem room_iff (hrecords : RecordsAt reader.file reader.offset lens) :
    reader.offset + 32 ≤ reader.file.size.toNat ↔ ¬ recordBytes lens < 32 := by
  rw [hrecords.size_eq]
  omega

theorem readSingle_end (hrecords : RecordsAt reader.file reader.offset lens)
    (hend : recordBytes lens < 32) :
    (reader.readSingle mempoolBufSize true).value = (.nil, reader) := by
  rw [readSingle_near_end (by rw [room_iff hrecords, not_not]; exact hend)]

theorem readSingle_record {len : UInt32}
    (hrecords : RecordsAt reader.file reader.offset (len :: lens))
    (hroom : ¬ recordBytes (len :: lens) < 32) :
    (reader.readSingle mempoolBufSize true).value =
      (.buf (recordBuf reader.file.byte reader.offset mempoolBufSize
          reader.nanosecondTimestamp).clip,
        { reader with offset := reader.offset + 16 + len.toNat }) := by
  have hsize := hrecords.size_eq
  rw [recordBytes] at hsize
  have hlen : (reader.file.byte.word32 (reader.offset + 8)) = len := hrecords.1
  rw [readSingle_of_allocated ((room_iff hrecords).mpr hroom) (by rw [hlen]; omega)]
  simp only [hlen, Nat.add_right_comm]

/-- At the end of the file every further call returns `nil`. -/
theorem readSingles_end (hrecords : RecordsAt reader.file reader.offset lens)
    (hend : recordBytes lens < 32) (n : Nat) :
    readSingles mempoolBufSize n reader = List.replicate n .nil := by
  induction n with
  | zero => rfl
  | succ n ih =>
      simp only [readSingles, readSingle_end mempoolBufSize hrecords hend, reduceCtorEq, if_false,
        ih, List.replicate_succ]

theorem readSingles_record {len : UInt32}
    (hrecords : RecordsAt reader.file reader.offset (len :: lens))
    (hroom : ¬ recordBytes (len :: lens) < 32) (n : Nat) :
    readSingles mempoolBufSize (n + 1) reader =
      .buf (recordBuf reader.file.byte reader.offset mempoolBufSize
          reader.nanosecondTimestamp).clip ::
        readSingles mempoolBufSize n { reader with offset := reader.offset + 16 + len.toNat } := by
  simp only [readSingles, readSingle_record mempoolBufSize hrecords hroom, reduceCtorEq, if_false]

/-- Single reads return every record of a chain whose last record is long enough,
and then `nil`. -/
theorem readSingles_of_lastLong (hrecords : RecordsAt reader.file reader.offset lens)
    (hlast : LastLong lens) (extra : Nat) :
    readSingles mempoolBufSize (lens.length + extra) reader =
      (recordBufs reader.file.byte mempoolBufSize reader.nanosecondTimestamp reader.offset
        lens).map .buf ++ List.replicate extra .nil := by
  induction lens generalizing reader with
  | nil => simpa [recordBufs] using readSingles_end mempoolBufSize hrecords (by decide) extra
  | cons len rest ih =>
      have hroom : ¬ recordBytes (len :: rest) < 32 := by
        rw [recordBytes_lt_iff]
        simp [hlast]
      have hrest : LastLong rest := by
        intro last hmem
        apply hlast last
        rw [List.getLast?_cons]
        rw [Option.mem_def] at hmem ⊢
        simp [hmem]
      rw [List.length_cons, Nat.add_right_comm, readSingles_record mempoolBufSize hrecords hroom,
        ih hrecords.2 hrest]
      rfl

/-- A last record of fewer than 16 bytes is never returned. -/
theorem readSingles_of_not_lastLong (hrecords : RecordsAt reader.file reader.offset lens)
    (hlast : ¬ LastLong lens) (extra : Nat) :
    readSingles mempoolBufSize (lens.length + extra) reader =
      (recordBufs reader.file.byte mempoolBufSize reader.nanosecondTimestamp reader.offset
        lens).dropLast.map .buf ++ List.replicate (extra + 1) .nil := by
  induction lens generalizing reader with
  | nil => exact absurd (by simp [LastLong]) hlast
  | cons len rest ih =>
      cases rest with
      | nil =>
          have hend : recordBytes [len] < 32 := (recordBytes_lt_iff [len]).mpr (.inr ⟨rfl, hlast⟩)
          rw [readSingles_end mempoolBufSize hrecords hend]
          simp [recordBufs, Nat.add_comm]
      | cons second rest =>
          have hroom : ¬ recordBytes (len :: second :: rest) < 32 := by
            rw [recordBytes_lt_iff]
            simp
          have hrest : ¬ LastLong (second :: rest) := by
            intro hlong
            apply hlast
            rw [LastLong, List.getLast?_cons_cons]
            exact hlong
          have hnext := @ih { reader with offset := reader.offset + 16 + len.toNat } hrecords.2 hrest
          rw [List.length_cons, Nat.add_right_comm,
            readSingles_record mempoolBufSize hrecords hroom, hnext]
          rfl

theorem filterMap_replicate_nil (n : Nat) :
    (List.replicate n SingleResult.nil).filterMap SingleResult.buf? = [] := by
  simp [SingleResult.buf?]

theorem filterMap_map_buf (bufs : List PktMbuf) :
    (bufs.map SingleResult.buf).filterMap SingleResult.buf? = bufs := by
  rw [List.filterMap_map]
  exact List.filterMap_some

/-- The records that `n` single reads return when their allocations succeed. -/
def singleRecords (n : Nat) (reader : Reader) : List PktMbuf :=
  (readSingles mempoolBufSize n reader).filterMap SingleResult.buf?

/-- The buffers of the records of a reader. -/
def Reader.records (reader : Reader) (lens : List UInt32) : List PktMbuf :=
  recordBufs reader.file.byte mempoolBufSize reader.nanosecondTimestamp reader.offset lens

theorem singleRecords_of_lastLong (hrecords : RecordsAt reader.file reader.offset lens)
    (hlast : LastLong lens) (extra : Nat) :
    singleRecords mempoolBufSize (lens.length + extra) reader =
      reader.records mempoolBufSize lens := by
  rw [singleRecords, readSingles_of_lastLong mempoolBufSize hrecords hlast, List.filterMap_append,
    filterMap_map_buf, filterMap_replicate_nil, List.append_nil]
  rfl

theorem singleRecords_of_not_lastLong (hrecords : RecordsAt reader.file reader.offset lens)
    (hlast : ¬ LastLong lens) (extra : Nat) :
    singleRecords mempoolBufSize (lens.length + extra) reader =
      (reader.records mempoolBufSize lens).dropLast := by
  rw [singleRecords, readSingles_of_not_lastLong mempoolBufSize hrecords hlast,
    List.filterMap_append, filterMap_map_buf, filterMap_replicate_nil, List.append_nil]
  rfl

end Chain

end Libmoon.Pcap
