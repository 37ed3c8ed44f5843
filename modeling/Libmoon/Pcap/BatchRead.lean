import Libmoon.Pcap.Records

/-! # Batched reads against single reads

On a file of complete records a batch returns the next records up to the first
allocation that fails, and the reader continues behind them. The single read
refuses a last record of fewer than 16 bytes, and so does a batch that starts at
that record; a batch that reaches it from an earlier record returns it.

A batch that asks for more records than there are looks for the length of a further one
behind the file, which is there only if the last page of the mapping has room for it.
-/

namespace Libmoon.Pcap

open Foundation

/-- How many of the next `left` allocations, from number `i` on, succeed before the
first one that fails. -/
def granted (allocated : Nat → Bool) : Nat → Nat → Nat
  | 0, _ => 0
  | left + 1, i => if allocated i then granted allocated left (i + 1) + 1 else 0

theorem granted_all (left i : Nat) : granted (fun _ => true) left i = left := by
  induction left generalizing i with
  | zero => rfl
  | succ left ih => simp [granted, ih]

theorem recordBufs_drop (mem : Memory) (mempoolBufSize : UInt32) (nanosecondTimestamps : Bool)
    (start : Nat) (lens : List UInt32) (k : Nat) :
    recordBufs mem mempoolBufSize nanosecondTimestamps (start + recordBytes (lens.take k))
        (lens.drop k) =
      (recordBufs mem mempoolBufSize nanosecondTimestamps start lens).drop k := by
  induction lens generalizing start k with
  | nil => simp [recordBufs]
  | cons len rest ih =>
      cases k with
      | zero => rfl
      | succ k =>
          rw [List.take_succ_cons, List.drop_succ_cons, recordBytes, ← Nat.add_assoc,
            ← Nat.add_assoc, ih, recordBufs, List.drop_succ_cons]

/-- The batch loop on a chain: the records for which a buffer is granted. -/
theorem readPcapBatchLoop_records (file : PcapFile) (pcap : Nat) (mempoolBufSize : UInt32)
    (nanosecondTimestamps : Bool) (allocated : Nat → Bool) (left i start : Nat)
    (offset remaining : UInt64) (lens : List UInt32) (hstart : pcap + offset.toNat = start)
    (hrecords : RecordsAt file start lens) (hremaining : remaining.toNat = file.size.toNat - start) :
    let run := readPcapBatchLoop file.byte pcap mempoolBufSize nanosecondTimestamps allocated left
      i offset remaining
    run.value.map PktMbuf.clip =
        (recordBufs file.byte mempoolBufSize nanosecondTimestamps start lens).take
          (granted allocated left i) ∧
      advance start run.value = start + recordBytes (lens.take (granted allocated left i)) := by
  induction left generalizing i start offset remaining lens with
  | zero => simp [readPcapBatchLoop, granted, advance, recordBytes]
  | succ left ih =>
      intro run
      have hsize := hrecords.size_eq
      cases lens with
      | nil =>
          -- nothing remains, so whatever stands behind the file is refused
          rw [recordBytes] at hsize
          have hrun : run = ⟨[], [⟨start + 8, 4⟩]⟩ :=
            readPcapBatchLoop_of_refused file.byte pcap mempoolBufSize nanosecondTimestamps left
              hstart (by omega)
          simp [hrun, recordBufs, advance, recordBytes]
      | cons len rest =>
          rw [recordBytes] at hsize
          obtain ⟨hlen, hrest⟩ := hrecords
          have hfits : ¬ remaining.toNat ≤ (file.byte.word32 (start + 8)).toNat := by
            rw [hlen]
            omega
          cases halloc : allocated i with
          | false =>
              have hrun : run = ⟨[], [⟨start + 8, 4⟩, ⟨start + 12, 4⟩]⟩ :=
                readPcapBatchLoop_of_not_allocated file.byte pcap mempoolBufSize
                  nanosecondTimestamps left hstart hfits halloc
              simp [hrun, granted, halloc, advance, recordBytes]
          | true =>
              have hinside : start + 16 + len.toNat ≤ file.size.toNat := by omega
              have hrun := readPcapBatchLoop_of_allocated file.byte pcap mempoolBufSize
                nanosecondTimestamps left hstart hfits halloc
              rw [hlen] at hrun
              obtain ⟨hbufs, hadvance⟩ := ih (i + 1) (start + 16 + len.toNat) _ _ rest
                (toNat_offset_next hstart hinside) hrest (toNat_remaining_next hremaining hinside)
              rw [show run = _ from hrun]
              have hnext : start + len.toNat + 16 = start + 16 + len.toNat := by omega
              refine ⟨?_, ?_⟩
              · simp only [List.map_cons, hbufs, granted, halloc, if_true, recordBufs,
                  List.take_succ_cons]
              · simp only [advance_cons, recordBuf, hlen, hnext, hadvance, granted, halloc,
                  if_true, List.take_succ_cons, recordBytes]
                omega

/-- The loop looks for the length of one more record behind the file at most. -/
theorem readPcapBatchLoop_below (file : PcapFile) (pcap : Nat) (mempoolBufSize : UInt32)
    (nanosecondTimestamps : Bool) (allocated : Nat → Bool) (left i start : Nat)
    (offset remaining : UInt64) (lens : List UInt32) (hstart : pcap + offset.toNat = start)
    (hrecords : RecordsAt file start lens) (hremaining : remaining.toNat = file.size.toNat - start) :
    ∀ span ∈ (readPcapBatchLoop file.byte pcap mempoolBufSize nanosecondTimestamps allocated left
      i offset remaining).reads, span.Below (file.size.toNat + 12) := by
  induction left generalizing i start offset remaining lens with
  | zero => simp [readPcapBatchLoop]
  | succ left ih =>
      have hsize := hrecords.size_eq
      cases lens with
      | nil =>
          rw [recordBytes] at hsize
          rw [readPcapBatchLoop_of_refused file.byte pcap mempoolBufSize nanosecondTimestamps left
            hstart (by omega)]
          simp only [List.mem_singleton, forall_eq, Span.Below]
          omega
      | cons len rest =>
          rw [recordBytes] at hsize
          obtain ⟨hlen, hrest⟩ := hrecords
          have hfits : ¬ remaining.toNat ≤ (file.byte.word32 (start + 8)).toNat := by
            rw [hlen]
            omega
          cases halloc : allocated i with
          | false =>
              rw [readPcapBatchLoop_of_not_allocated file.byte pcap mempoolBufSize
                nanosecondTimestamps left hstart hfits halloc]
              simp only [List.mem_cons, List.not_mem_nil, or_false, forall_eq_or_imp, forall_eq,
                Span.Below]
              omega
          | true =>
              have hinside : start + 16 + len.toNat ≤ file.size.toNat := by omega
              have hcopied := copyLen_le mempoolBufSize len
              have hlater := ih (i + 1) (start + 16 + len.toNat) _ _ rest
                (toNat_offset_next hstart hinside) hrest (toNat_remaining_next hremaining hinside)
              rw [readPcapBatchLoop_of_allocated file.byte pcap mempoolBufSize
                nanosecondTimestamps left hstart hfits halloc, hlen]
              simp only [List.cons_append, List.nil_append, List.mem_cons, forall_eq_or_imp]
              refine ⟨?_, ?_, ?_, ?_, ?_, ?_, hlater⟩ <;> right <;> dsimp only <;> omega

/-! ## Sequences of batches -/

/-- The arguments of one `reader:read`. -/
structure BatchCall where
  numBufs : UInt32
  allocated : Nat → Bool

/-- The concatenation of the batches, and the reader behind them. -/
def readBatches (mempoolBufSize : UInt32) : Reader → List BatchCall → List PktMbuf × Reader
  | reader, [] => ([], reader)
  | reader, call :: rest =>
      let result := (reader.read call.numBufs mempoolBufSize call.allocated).value
      let later := readBatches mempoolBufSize result.2 rest
      (result.1 ++ later.1, later.2)

/-- The spans of the mapping that the batches read. -/
def batchReads (mempoolBufSize : UInt32) : Reader → List BatchCall → List Span
  | _, [] => []
  | reader, call :: rest =>
      let result := reader.read call.numBufs mempoolBufSize call.allocated
      result.reads ++ batchReads mempoolBufSize result.value.2 rest

/-- The bytes of a mapping: `mmap` maps whole pages. -/
def mappedBytes (pageSize size : Nat) : Nat := (size + pageSize - 1) / pageSize * pageSize

/-- A reader that has moved behind `k` records. -/
def Reader.behind (reader : Reader) (lens : List UInt32) (k : Nat) : Reader :=
  { reader with offset := reader.offset + recordBytes (lens.take k) }

section Chain

variable {reader : Reader} {lens : List UInt32} (mempoolBufSize : UInt32)

theorem recordBytes_append (first second : List UInt32) :
    recordBytes (first ++ second) = recordBytes first + recordBytes second := by
  induction first with
  | nil => simp [recordBytes]
  | cons len rest ih =>
      simp only [List.cons_append, recordBytes, ih]
      omega

theorem behind_behind (j k : Nat) :
    (reader.behind lens j).behind (lens.drop j) k = reader.behind lens (j + k) := by
  simp only [Reader.behind, List.take_add, recordBytes_append, Nat.add_assoc]

theorem behind_records (hrecords : RecordsAt reader.file reader.offset lens) (k : Nat) :
    RecordsAt (reader.behind lens k).file (reader.behind lens k).offset (lens.drop k) :=
  hrecords.drop k

theorem behind_recordBufs (k : Nat) :
    (reader.behind lens k).records mempoolBufSize (lens.drop k) =
      (reader.records mempoolBufSize lens).drop k :=
  recordBufs_drop _ _ _ _ _ _

theorem read_end (hrecords : RecordsAt reader.file reader.offset lens)
    (hend : recordBytes lens < 32) (call : BatchCall) :
    (reader.read call.numBufs mempoolBufSize call.allocated).value = ([], reader) := by
  rw [read_near_end (by rw [room_iff hrecords, not_not]; exact hend)]

theorem read_records (hrecords : RecordsAt reader.file reader.offset lens)
    (hroom : ¬ recordBytes lens < 32) (call : BatchCall) :
    (reader.read call.numBufs mempoolBufSize call.allocated).value =
      ((reader.records mempoolBufSize lens).take (granted call.allocated call.numBufs.toNat 0),
        reader.behind lens (granted call.allocated call.numBufs.toNat 0)) := by
  have hroom' := (room_iff hrecords).mpr hroom
  obtain ⟨hbufs, hadvance⟩ := readPcapBatchLoop_records reader.file reader.offset mempoolBufSize
    reader.nanosecondTimestamp call.allocated call.numBufs.toNat 0 reader.offset 0
    (UInt64.ofNat reader.fileRemaining.toNat) lens (by simp) hrecords
    (toNat_fileRemaining (by omega))
  rw [read_of_room hroom', hbufs, hadvance]
  rfl

/-- Whatever the sizes of the batches and their allocations, they return an initial
part of the records, and the reader continues behind it. -/
theorem readBatches_records (hrecords : RecordsAt reader.file reader.offset lens)
    (calls : List BatchCall) :
    ∃ k, readBatches mempoolBufSize reader calls =
      ((reader.records mempoolBufSize lens).take k, reader.behind lens k) := by
  induction calls generalizing reader lens with
  | nil => exact ⟨0, rfl⟩
  | cons call rest ih =>
      by_cases hroom : recordBytes lens < 32
      · obtain ⟨k, hk⟩ := ih hrecords
        refine ⟨k, ?_⟩
        simp only [readBatches, read_end mempoolBufSize hrecords hroom, hk, List.nil_append]
      · obtain ⟨k, hk⟩ := ih (behind_records hrecords
          (granted call.allocated call.numBufs.toNat 0))
        refine ⟨granted call.allocated call.numBufs.toNat 0 + k, ?_⟩
        simp only [readBatches, read_records mempoolBufSize hrecords hroom, hk,
          behind_recordBufs, behind_behind, List.take_add]

/-- A batch whose allocations succeed. -/
def BatchCall.succeeding (numBufs : UInt32) : BatchCall := ⟨numBufs, fun _ => true⟩

theorem lastLong_drop (hlast : LastLong lens) (k : Nat) : LastLong (lens.drop k) := by
  intro last hmem
  apply hlast last
  rw [List.getLast?_drop] at hmem
  split at hmem
  next => cases hmem
  next => exact hmem

theorem readBatches_cons_succeeding (hrecords : RecordsAt reader.file reader.offset lens)
    (hroom : ¬ recordBytes lens < 32) (numBufs : UInt32) (rest : List BatchCall) :
    (readBatches mempoolBufSize reader (.succeeding numBufs :: rest)).1 =
      (reader.records mempoolBufSize lens).take numBufs.toNat ++
        (readBatches mempoolBufSize (reader.behind lens numBufs.toNat) rest).1 := by
  have hread := read_records mempoolBufSize hrecords hroom (.succeeding numBufs)
  simp only [BatchCall.succeeding, granted_all] at hread
  simp only [readBatches, BatchCall.succeeding, hread]

/-- Batches whose allocations succeed return records until there are none left. -/
theorem readBatches_succeeding (hrecords : RecordsAt reader.file reader.offset lens)
    (hlast : LastLong lens) (sizes : List UInt32) :
    (readBatches mempoolBufSize reader (sizes.map .succeeding)).1 =
      (reader.records mempoolBufSize lens).take (sizes.map UInt32.toNat).sum := by
  induction sizes generalizing reader lens with
  | nil => rfl
  | cons numBufs rest ih =>
      by_cases hroom : recordBytes lens < 32
      · -- only the end of the file stops such a reader
        have hnil : lens = [] := by
          rcases (recordBytes_lt_iff lens).mp hroom with hnil | ⟨_, hshort⟩
          · exact hnil
          · exact absurd hlast hshort
        subst hnil
        simp only [List.map_cons, readBatches, read_end mempoolBufSize hrecords hroom,
          ih hrecords hlast, Reader.records, recordBufs, List.take_nil, List.nil_append]
      · rw [List.map_cons, readBatches_cons_succeeding mempoolBufSize hrecords hroom,
          ih (behind_records hrecords numBufs.toNat) (lastLong_drop hlast numBufs.toNat),
          behind_recordBufs, List.map_cons, List.sum_cons, List.take_add]

/-- Single records followed by a batch of two at the end of the file. -/
theorem readBatches_final_pair (hrecords : RecordsAt reader.file reader.offset lens) (j : Nat)
    (hlength : lens.length = j + 2) :
    (readBatches mempoolBufSize reader
        (List.replicate j (.succeeding 1) ++ [.succeeding 2])).1 =
      reader.records mempoolBufSize lens := by
  have hroom : ¬ recordBytes lens < 32 := by
    rw [recordBytes_lt_iff, ← List.length_eq_zero_iff]
    omega
  induction j generalizing reader lens with
  | zero =>
      rw [List.replicate_zero, List.nil_append,
        readBatches_cons_succeeding mempoolBufSize hrecords hroom]
      simp only [readBatches, List.append_nil]
      apply List.take_of_length_le
      rw [Reader.records, length_recordBufs, hlength]
      exact Nat.le_refl 2
  | succ j ih =>
      have hlength' : (lens.drop 1).length = j + 2 := by
        rw [List.length_drop, hlength]
        omega
      have hroom' : ¬ recordBytes (lens.drop 1) < 32 := by
        rw [recordBytes_lt_iff, ← List.length_eq_zero_iff]
        omega
      have hrest := ih (behind_records hrecords 1) hlength' hroom'
      rw [behind_recordBufs] at hrest
      rw [List.replicate_succ, List.cons_append,
        readBatches_cons_succeeding mempoolBufSize hrecords hroom,
        show (1 : UInt32).toNat = 1 from rfl, hrest, List.take_append_drop]

theorem batchReads_below (hrecords : RecordsAt reader.file reader.offset lens)
    (calls : List BatchCall) :
    ∀ span ∈ batchReads mempoolBufSize reader calls,
      span.Below (reader.file.size.toNat + 12) := by
  induction calls generalizing reader lens with
  | nil => simp [batchReads]
  | cons call rest ih =>
      intro span hmem
      rw [batchReads, List.mem_append] at hmem
      by_cases hroom : recordBytes lens < 32
      · have hread : reader.read call.numBufs mempoolBufSize call.allocated =
            ⟨([], reader), []⟩ :=
          read_near_end (by rw [room_iff hrecords, not_not]; exact hroom)
        rw [hread] at hmem
        exact ih hrecords span (hmem.resolve_left List.not_mem_nil)
      · rcases hmem with hmem | hmem
        · have hroom' := (room_iff hrecords).mpr hroom
          rw [read_of_room hroom'] at hmem
          exact readPcapBatchLoop_below reader.file reader.offset mempoolBufSize
            reader.nanosecondTimestamp call.allocated call.numBufs.toNat 0 reader.offset 0 _ lens
            (by simp) hrecords (toNat_fileRemaining (by omega)) span hmem
        · rw [read_records mempoolBufSize hrecords hroom] at hmem
          exact ih (behind_records hrecords _) span hmem

/-- A batch of two at a long last record looks behind the file. -/
theorem mem_batchReads_final {len : UInt32}
    (hrecords : RecordsAt reader.file reader.offset [len]) (hlong : 16 ≤ len.toNat) :
    ⟨reader.file.size.toNat + 8, 4⟩ ∈ batchReads mempoolBufSize reader [.succeeding 2] := by
  have hsize : reader.file.size.toNat = reader.offset + 16 + len.toNat := hrecords.2.symm
  have hroom : reader.offset + 32 ≤ reader.file.size.toNat := by omega
  have hlen : reader.file.byte.word32 (reader.offset + 8) = len := hrecords.1
  have hremaining := @toNat_fileRemaining reader (by omega)
  have hinside : reader.offset + 16 + len.toNat ≤ reader.file.size.toNat := by omega
  have hstart : reader.offset + (0 : UInt64).toNat = reader.offset := by simp
  have hend := toNat_remaining_next hremaining hinside
  rw [batchReads, List.mem_append, read_of_room hroom]
  left
  rw [show (BatchCall.succeeding 2).numBufs.toNat = 0 + 1 + 1 from rfl,
    readPcapBatchLoop_of_allocated reader.file.byte reader.offset mempoolBufSize
      reader.nanosecondTimestamp (0 + 1) hstart (by rw [hlen]; omega) rfl, hlen,
    readPcapBatchLoop_of_refused reader.file.byte reader.offset mempoolBufSize
      reader.nanosecondTimestamp 0 (toNat_offset_next hstart hinside) (by omega), hsize]
  simp

/-- So does a sequence of single records with such a batch at its end. -/
theorem mem_batchReads_succeeding (hrecords : RecordsAt reader.file reader.offset lens) (j : Nat)
    (hlength : lens.length = j + 1) (hlast : LastLong lens) :
    ⟨reader.file.size.toNat + 8, 4⟩ ∈ batchReads mempoolBufSize reader
      (List.replicate j (.succeeding 1) ++ [.succeeding 2]) := by
  induction j generalizing reader lens with
  | zero =>
      obtain ⟨len, rfl⟩ := List.length_eq_one_iff.mp hlength
      exact mem_batchReads_final mempoolBufSize hrecords (hlast len rfl)
  | succ j ih =>
      have hroom : ¬ recordBytes lens < 32 := by
        rw [recordBytes_lt_iff, ← List.length_eq_zero_iff]
        omega
      have hlength' : (lens.drop 1).length = j + 1 := by
        rw [List.length_drop, hlength]
        omega
      have hread := read_records mempoolBufSize hrecords hroom (.succeeding 1)
      simp only [BatchCall.succeeding, granted_all] at hread
      rw [List.replicate_succ, List.cons_append, batchReads, List.mem_append]
      simp only [BatchCall.succeeding, hread]
      exact .inr (ih (behind_records hrecords 1) hlength' (lastLong_drop hlast 1))

end Chain

/-! ## Agreement with single reads -/

/-- Batches return what single reads return, for a file with records of the given
lengths: an initial part of it whatever their sizes and allocations are, after
which the reader continues at the first record not yet returned, and all of it
once enough allocations have succeeded. They read nothing that is not mapped, which
would end the process. -/
structure BatchesAgree (pageSize : Nat) (mempoolBufSize : UInt32) (reader : Reader)
    (lens : List UInt32) : Prop where
  mapped : ∀ (calls : List BatchCall), ∀ span ∈ batchReads mempoolBufSize reader calls,
    span.Below (mappedBytes pageSize reader.file.size.toNat)
  initial : ∀ (calls : List BatchCall) (extra : Nat),
    (readBatches mempoolBufSize reader calls).1 <+:
      singleRecords mempoolBufSize (lens.length + extra) reader
  continues : ∀ calls : List BatchCall, (readBatches mempoolBufSize reader calls).2 =
    reader.behind lens (readBatches mempoolBufSize reader calls).1.length
  exhausts : ∀ (calls : List BatchCall) (sizes : List UInt32) (extra : Nat),
    lens.length ≤ (sizes.map UInt32.toNat).sum →
      (readBatches mempoolBufSize reader (calls ++ sizes.map .succeeding)).1 =
        singleRecords mempoolBufSize (lens.length + extra) reader

section Agreement

variable {reader : Reader} {lens : List UInt32} (mempoolBufSize : UInt32)

/-- A reader in front of a single short record never moves. -/
theorem readBatches_end (hrecords : RecordsAt reader.file reader.offset lens)
    (hend : recordBytes lens < 32) (calls : List BatchCall) :
    readBatches mempoolBufSize reader calls = ([], reader) := by
  induction calls with
  | nil => rfl
  | cons call rest ih =>
      simp only [readBatches, read_end mempoolBufSize hrecords hend, ih, List.nil_append]

theorem readBatches_append (reader : Reader) (first second : List BatchCall) :
    (readBatches mempoolBufSize reader (first ++ second)).1 =
      (readBatches mempoolBufSize reader first).1 ++
        (readBatches mempoolBufSize (readBatches mempoolBufSize reader first).2 second).1 := by
  induction first generalizing reader with
  | nil => rfl
  | cons call rest ih => simp only [List.cons_append, readBatches, ih, List.append_assoc]

theorem batchesAgree_of_lastLong {pageSize : Nat}
    (hrecords : RecordsAt reader.file reader.offset lens) (hlast : LastLong lens)
    (hmapped : reader.file.size.toNat + 12 ≤ mappedBytes pageSize reader.file.size.toNat) :
    BatchesAgree pageSize mempoolBufSize reader lens := by
  refine ⟨?_, ?_, ?_, ?_⟩
  · intro calls span hmem
    exact (batchReads_below mempoolBufSize hrecords calls span hmem).imp id
      fun hbelow => Nat.le_trans hbelow hmapped
  · intro calls extra
    obtain ⟨k, hk⟩ := readBatches_records mempoolBufSize hrecords calls
    rw [hk, singleRecords_of_lastLong mempoolBufSize hrecords hlast]
    exact List.take_prefix k _
  · intro calls
    obtain ⟨k, hk⟩ := readBatches_records mempoolBufSize hrecords calls
    rw [hk]
    simp only [List.length_take, Reader.records, length_recordBufs, Reader.behind]
    rw [List.take_eq_take_min]
  · intro calls sizes extra hsizes
    obtain ⟨k, hk⟩ := readBatches_records mempoolBufSize hrecords calls
    rw [readBatches_append, hk, singleRecords_of_lastLong mempoolBufSize hrecords hlast,
      readBatches_succeeding mempoolBufSize (behind_records hrecords k) (lastLong_drop hlast k),
      behind_recordBufs, List.take_of_length_le (l := List.drop k _), List.take_append_drop]
    rw [List.length_drop, Reader.records, length_recordBufs]
    omega

/-- Neither path gets anywhere on a file without records, or with a single short one. -/
theorem batchesAgree_of_end {pageSize : Nat}
    (hrecords : RecordsAt reader.file reader.offset lens) (hend : recordBytes lens < 32) :
    BatchesAgree pageSize mempoolBufSize reader lens := by
  have hsingle (extra : Nat) : singleRecords mempoolBufSize (lens.length + extra) reader = [] := by
    rw [singleRecords, readSingles_end mempoolBufSize hrecords hend, filterMap_replicate_nil]
  refine ⟨?_, ?_, ?_, ?_⟩
  · intro calls span hmem
    induction calls with
    | nil => cases hmem
    | cons call rest ih =>
        have hread : reader.read call.numBufs mempoolBufSize call.allocated =
            ⟨([], reader), []⟩ :=
          read_near_end (by rw [room_iff hrecords, not_not]; exact hend)
        rw [batchReads, hread, List.nil_append] at hmem
        exact ih hmem
  · intro calls extra
    rw [readBatches_end mempoolBufSize hrecords hend]
    exact List.nil_prefix
  · intro calls
    rw [readBatches_end mempoolBufSize hrecords hend]
    rfl
  · intro calls sizes extra _
    rw [readBatches_end mempoolBufSize hrecords hend, hsingle]

/-- Two records or more, the last of which is short: batches may return it. -/
theorem lastLong_of_batchesAgree {pageSize : Nat}
    (hrecords : RecordsAt reader.file reader.offset lens) (hroom : ¬ recordBytes lens < 32)
    (hagree : BatchesAgree pageSize mempoolBufSize reader lens) : LastLong lens := by
  by_contra hlast
  have hlength : 2 ≤ lens.length := by
    rw [recordBytes_lt_iff, not_or, ← List.length_eq_zero_iff] at hroom
    have hone : lens.length ≠ 1 := fun hone => hroom.2 ⟨hone, hlast⟩
    omega
  have hpair := readBatches_final_pair mempoolBufSize hrecords (lens.length - 2) (by omega)
  have hinitial := hagree.initial
    (List.replicate (lens.length - 2) (.succeeding 1) ++ [.succeeding 2]) 0
  rw [hpair, singleRecords_of_not_lastLong mempoolBufSize hrecords hlast] at hinitial
  have hle := hinitial.length_le
  rw [List.length_dropLast, Reader.records, length_recordBufs] at hle
  omega

end Agreement

/-- On a file of complete records batches agree with single reads exactly when there is no
record that either path returns, or the last record has at least 16 bytes and the last page
at least 12 behind it. -/
theorem batchesAgree_iff {file : PcapFile} {reader : Reader} {lens : List UInt32}
    (hreader : newReader file = .ok reader) (hrecords : RecordsAt file fileHeaderSize lens)
    (pageSize : Nat) (mempoolBufSize : UInt32) :
    BatchesAgree pageSize mempoolBufSize reader lens ↔
      recordBytes lens < 32 ∨
        LastLong lens ∧ file.size.toNat + 12 ≤ mappedBytes pageSize file.size.toNat := by
  obtain ⟨hfile, hoffset⟩ := newReader_eq hreader
  rw [← hfile, ← hoffset] at hrecords
  rw [← hfile]
  constructor
  · intro hagree
    by_cases hroom : recordBytes lens < 32
    · exact .inl hroom
    · have hlast := lastLong_of_batchesAgree mempoolBufSize hrecords hroom hagree
      have hpos : 0 < lens.length := by
        rw [recordBytes_lt_iff, not_or, ← List.length_eq_zero_iff] at hroom
        omega
      have hmem := mem_batchReads_succeeding mempoolBufSize hrecords (lens.length - 1) (by omega)
        hlast
      refine .inr ⟨hlast, ?_⟩
      rcases hagree.mapped _ _ hmem with hzero | hbelow
      · cases hzero
      · exact hbelow
  · rintro (hend | ⟨hlast, hmapped⟩)
    · exact batchesAgree_of_end mempoolBufSize hrecords hend
    · exact batchesAgree_of_lastLong mempoolBufSize hrecords hlast hmapped

/-- Three records, the shortest of them in the middle. -/
theorem batchesAgree_short_middle :
    BatchesAgree 4096 2048 (sampleReader [20, 4, 30]) [20, 4, 30] :=
  (batchesAgree_iff (show newReader (sampleFile [20, 4, 30]) = .ok _ from rfl)
    (by decide) 4096 2048).mpr (.inr (by decide))

/-- A last record of 4 bytes is returned by a batch of two and by no single read; behind a
file that ends with its page, a batch of two looks for a second record that is not mapped. -/
theorem not_batchesAgree :
    (¬ ∀ (file : PcapFile) (reader : Reader) (lens : List UInt32), newReader file = .ok reader →
      RecordsAt file fileHeaderSize lens →
        ∀ mempoolBufSize, BatchesAgree 4096 mempoolBufSize reader lens) ∧
    ¬ (readBatches 2048 (sampleReader [20, 4]) [.succeeding 2]).1 <+:
      singleRecords 2048 3 (sampleReader [20, 4]) ∧
    ¬ ∀ span ∈ batchReads 2048 (sampleReader [4056]) [.succeeding 2],
      span.Below (mappedBytes 4096 (sampleReader [4056]).file.size.toNat) := by
  have hshort : ¬ (readBatches 2048 (sampleReader [20, 4]) [.succeeding 2]).1 <+:
      singleRecords 2048 3 (sampleReader [20, 4]) := by
    intro hinitial
    have hlength := hinitial.length_le
    revert hlength
    decide
  refine ⟨fun halways => hshort ?_, hshort, ?_⟩
  · exact (halways (sampleFile [20, 4]) (sampleReader [20, 4]) [20, 4] rfl (by decide)
      2048).initial [.succeeding 2] 1
  · decide

end Libmoon.Pcap
