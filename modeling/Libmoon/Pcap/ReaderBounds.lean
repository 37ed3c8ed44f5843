import Libmoon.Pcap.Records

/-! # Which reads stay inside the file

Both read functions walk from record to record by the lengths they find in the
file. A walk stays inside exactly when every record it visits can be inspected
inside the file and is either refused or complete. The guards of the reader do
not ensure this: they compare the length of the data with a count that includes
the record header, and the batch loop does not check that a header is left.
-/

namespace Libmoon.Pcap

open Foundation

/-- The calls that read records. -/
inductive ReadCall where
  | single (mempoolBufSize : UInt32) (allocated : Bool)
  | batch (numBufs mempoolBufSize : UInt32) (allocated : Nat → Bool)

/-- The number of records a call asks for. -/
def ReadCall.numBufs : ReadCall → Nat
  | .single _ _ => 1
  | .batch numBufs _ _ => numBufs.toNat

/-- Which of its allocations succeed. -/
def ReadCall.allocated : ReadCall → Nat → Bool
  | .single _ allocated => fun _ => allocated
  | .batch _ _ allocated => allocated

/-- A reader as a machine whose answers are the spans it reads. The state is
`none` once the process has dereferenced a null pointer. -/
def readerMachine : Machine (Option Reader) ReadCall (List Span) where
  step state call :=
    match state with
    | none => ([], none)
    | some reader =>
        match call with
        | .single mempoolBufSize allocated =>
            let result := reader.readSingle mempoolBufSize allocated
            (result.reads, if result.value.1 = .nullDereference then none else some result.value.2)
        | .batch numBufs mempoolBufSize allocated =>
            let result := reader.read numBufs mempoolBufSize allocated
            (result.reads, some result.value.2)

/-- The records visited from `start` on, at most `left` of them, lie inside the
file: the length of each is inside, and then the record is refused because it
claims at least the rest of the file, or its header is inside and, when a buffer
is allocated for it, so are its data and the records visited after it. -/
def RecordsInside (file : PcapFile) (allocated : Nat → Bool) : Nat → Nat → Nat → Prop
  | 0, _, _ => True
  | left + 1, i, start =>
      start + 12 ≤ file.size.toNat ∧
        (file.size.toNat - start ≤ (file.byte.word32 (start + 8)).toNat ∨
          start + 16 ≤ file.size.toNat ∧
            (allocated i = true →
              start + 16 + (file.byte.word32 (start + 8)).toNat ≤ file.size.toNat ∧
                RecordsInside file allocated left (i + 1)
                  (start + 16 + (file.byte.word32 (start + 8)).toNat)))

instance decidableRecordsInside (file : PcapFile) (allocated : Nat → Bool) (left i start : Nat) :
    Decidable (RecordsInside file allocated left i start) :=
  match left with
  | 0 => isTrue trivial
  | left + 1 =>
      haveI := decidableRecordsInside file allocated left (i + 1)
        (start + 16 + (file.byte.word32 (start + 8)).toNat)
      inferInstanceAs (Decidable (_ ∧ _))

/-- A call returns at once near the end of the file, or the records it visits lie
inside. -/
def CallInside (state : Option Reader) (call : ReadCall) : Prop :=
  match state with
  | none => True
  | some reader => reader.offset + 32 ≤ reader.file.size.toNat →
      RecordsInside reader.file call.allocated call.numBufs 0 reader.offset

instance (state : Option Reader) (call : ReadCall) : Decidable (CallInside state call) :=
  match state with
  | none => isTrue trivial
  | some _ => inferInstanceAs (Decidable (_ → _))

/-! ## One call -/

/-- The batch loop reads inside the file and leaves the reader inside it exactly
when the records it visits lie inside. -/
theorem readPcapBatchLoop_inside_iff (file : PcapFile) (pcap : Nat) (mempoolBufSize : UInt32)
    (nanosecondTimestamps : Bool) (allocated : Nat → Bool) (left i start : Nat)
    (offset remaining : UInt64) (hstart : pcap + offset.toNat = start)
    (hinside : start ≤ file.size.toNat) (hremaining : remaining.toNat = file.size.toNat - start) :
    let run := readPcapBatchLoop file.byte pcap mempoolBufSize nanosecondTimestamps allocated left
      i offset remaining
    (∀ span ∈ run.reads, span.Below file.size.toNat) ∧
        advance start run.value ≤ file.size.toNat ↔
      RecordsInside file allocated left i start := by
  induction left generalizing i start offset remaining with
  | zero => simpa [readPcapBatchLoop, RecordsInside, advance] using hinside
  | succ left ih =>
      intro run
      unfold RecordsInside
      by_cases hrefused : remaining.toNat ≤ (file.byte.word32 (start + 8)).toNat
      · -- only the length is read
        have hrun : run = ⟨[], [⟨start + 8, 4⟩]⟩ :=
          readPcapBatchLoop_of_refused file.byte pcap mempoolBufSize nanosecondTimestamps left
            hstart hrefused
        simp only [hrun, List.mem_singleton, forall_eq, Span.Below, advance, List.foldl_nil]
        omega
      · by_cases halloc : allocated i = true
        · have hrun := readPcapBatchLoop_of_allocated file.byte pcap mempoolBufSize
            nanosecondTimestamps left hstart hrefused halloc
          have hcopied := copyLen_le mempoolBufSize (file.byte.word32 (start + 8))
          rw [show run = _ from hrun]
          simp only [List.cons_append, List.nil_append, List.mem_cons, forall_eq_or_imp,
            Span.Below, advance_cons, halloc, true_implies]
          by_cases hcomplete :
              start + 16 + (file.byte.word32 (start + 8)).toNat ≤ file.size.toNat
          · have hrest := ih (i + 1) (start + 16 + (file.byte.word32 (start + 8)).toNat) _ _
              (toNat_offset_next hstart hcomplete) hcomplete
              (toNat_remaining_next hremaining hcomplete)
            have hnext : start + (file.byte.word32 (start + 8)).toNat + 16 =
                start + 16 + (file.byte.word32 (start + 8)).toNat := by omega
            simp only [Span.Below] at hrest
            simp only [recordBuf, hnext, ← hrest]
            constructor
            · rintro ⟨⟨_, _, _, _, _, _, hreads⟩, hadvance⟩
              exact ⟨by omega, .inr ⟨by omega, hcomplete, hreads, hadvance⟩⟩
            · rintro ⟨_, hrefused' | ⟨_, _, hreads, hadvance⟩⟩
              · omega
              · refine ⟨⟨?_, ?_, ?_, ?_, ?_, ?_, hreads⟩, hadvance⟩ <;> omega
          · -- the offset passes the end of the file whatever the later records are
            have hpassed := le_advance
              (start + (file.byte.word32 (start + 8)).toNat + 16)
              (readPcapBatchLoop file.byte pcap mempoolBufSize nanosecondTimestamps allocated left
                (i + 1) (offset + ((file.byte.word32 (start + 8)).toUInt64 + 16))
                (remaining - ((file.byte.word32 (start + 8)).toUInt64 + 16))).value
            simp only [recordBuf]
            constructor
            · rintro ⟨_, hadvance⟩
              omega
            · rintro ⟨_, hrefused' | ⟨_, hcomplete', _⟩⟩
              · omega
              · exact absurd hcomplete' hcomplete
        · -- the second length is read before the allocation fails
          have hrun : run = ⟨[], [⟨start + 8, 4⟩, ⟨start + 12, 4⟩]⟩ :=
            readPcapBatchLoop_of_not_allocated file.byte pcap mempoolBufSize nanosecondTimestamps
              left hstart hrefused (Bool.eq_false_iff.mpr halloc)
          simp only [hrun, List.mem_cons, List.not_mem_nil, or_false, forall_eq_or_imp, forall_eq,
            Span.Below, advance, List.foldl_nil]
          constructor
          · rintro ⟨⟨_, _⟩, _⟩
            exact ⟨by omega, .inr ⟨by omega, fun hgranted => absurd hgranted halloc⟩⟩
          · rintro ⟨_, hrefused' | ⟨_, _⟩⟩ <;> omega

/-- A reader is on the file with its offset inside. -/
def StateInside (file : PcapFile) (state : Option Reader) : Prop :=
  match state with
  | none => True
  | some reader => reader.file = file ∧ reader.offset ≤ file.size.toNat

theorem readSingle_inside_iff {file : PcapFile} {reader : Reader}
    (hstate : StateInside file (some reader)) (mempoolBufSize : UInt32) (allocated : Bool) :
    let call := ReadCall.single mempoolBufSize allocated
    (∀ span ∈ (readerMachine.step (some reader) call).1, span.Below file.size.toNat) ∧
        StateInside file (readerMachine.step (some reader) call).2 ↔
      CallInside (some reader) call := by
  obtain ⟨rfl, hoffset⟩ := hstate
  intro call
  by_cases hend : reader.offset + 32 ≤ reader.file.size.toNat
  · simp only [call, readerMachine, CallInside, hend, true_implies, ReadCall.numBufs,
      ReadCall.allocated, RecordsInside]
    by_cases hrefused : reader.file.size.toNat - reader.offset ≤
        (reader.file.byte.word32 (reader.offset + 8)).toNat
    · rw [readSingle_of_refused hend hrefused]
      simp only [List.mem_singleton, forall_eq, Span.Below, if_true, StateInside, and_true]
      constructor
      · intro _
        exact ⟨by omega, .inl hrefused⟩
      · intro _
        omega
    · cases allocated with
      | false =>
          rw [readSingle_of_not_allocated hend hrefused]
          simp only [List.mem_cons, List.not_mem_nil, or_false, forall_eq_or_imp, forall_eq,
            Span.Below, if_true, StateInside, and_true]
          constructor
          · intro _
            exact ⟨by omega, .inr ⟨by omega, fun hgranted => Bool.noConfusion hgranted⟩⟩
          · intro _
            omega
      | true =>
          have hcopied := copyLen_le mempoolBufSize
            (reader.file.byte.word32 (reader.offset + 8))
          rw [readSingle_of_allocated hend hrefused]
          simp only [List.mem_cons, List.not_mem_nil, or_false, forall_eq_or_imp, forall_eq,
            Span.Below, StateInside, reduceCtorEq, if_false, true_and, true_implies, and_true]
          omega
  · rw [show (readerMachine.step (some reader) call) = ([], some reader) by
      simp only [call, readerMachine, readSingle_near_end hend, reduceCtorEq, if_false]]
    simp [CallInside, StateInside, hend, hoffset]

theorem read_inside_iff {file : PcapFile} {reader : Reader}
    (hstate : StateInside file (some reader)) (numBufs mempoolBufSize : UInt32)
    (allocated : Nat → Bool) :
    let call := ReadCall.batch numBufs mempoolBufSize allocated
    (∀ span ∈ (readerMachine.step (some reader) call).1, span.Below file.size.toNat) ∧
        StateInside file (readerMachine.step (some reader) call).2 ↔
      CallInside (some reader) call := by
  obtain ⟨rfl, hoffset⟩ := hstate
  intro call
  by_cases hend : reader.offset + 32 ≤ reader.file.size.toNat
  · have hloop := readPcapBatchLoop_inside_iff reader.file reader.offset mempoolBufSize
      reader.nanosecondTimestamp allocated numBufs.toNat 0 reader.offset 0
      (UInt64.ofNat reader.fileRemaining.toNat) (by simp) hoffset (toNat_fileRemaining hoffset)
    simp only [call, readerMachine, CallInside, hend, true_implies, ReadCall.numBufs,
      ReadCall.allocated, read_of_room hend, StateInside, true_and]
    exact hloop
  · rw [show (readerMachine.step (some reader) call) = ([], some reader) by
      simp only [call, readerMachine, read_near_end hend]]
    simp [CallInside, StateInside, hend, hoffset]

/-! ## Sequences of calls -/

/-- Every byte that a sequence of calls reads lies below the file size, and the
offset is within the file after every call. -/
def StaysInside (reader : Reader) (calls : List ReadCall) : Prop :=
  (∀ spans ∈ readerMachine.answers (some reader) calls,
      ∀ span ∈ spans, span.Below reader.file.size.toNat) ∧
    ∀ first, first <+: calls →
      StateInside reader.file (readerMachine.after (some reader) first)

/-- For every accepted file of at least 24 bytes and every sequence of calls, the
reads stay inside the file and the offset within it exactly when the records
that each call visits lie inside. -/
theorem reader_staysInside_iff {file : PcapFile} {reader : Reader}
    (hheader : fileHeaderSize ≤ file.size.toNat) (hreader : newReader file = .ok reader)
    (calls : List ReadCall) :
    StaysInside reader calls ↔ readerMachine.Along CallInside (some reader) calls := by
  obtain ⟨rfl, hoffset⟩ := newReader_eq hreader
  have hstart : StateInside reader.file (some reader) := ⟨rfl, hoffset ▸ hheader⟩
  have hstep : ∀ state call, StateInside reader.file state →
      ((∀ span ∈ (readerMachine.step state call).1, span.Below reader.file.size.toNat) ∧
        StateInside reader.file (readerMachine.step state call).2 ↔ CallInside state call) := by
    intro state call hstate
    cases state with
    | none => simp [readerMachine, StateInside, CallInside]
    | some current =>
        cases call with
        | single mempoolBufSize allocated =>
            exact readSingle_inside_iff hstate mempoolBufSize allocated
        | batch numBufs mempoolBufSize allocated =>
            exact read_inside_iff hstate numBufs mempoolBufSize allocated
  exact readerMachine.good_invariant_iff_along hstep hstart calls

/-- Two records read one after the other, by a batch of one and a single read. -/
theorem reader_staysInside_two :
    StaysInside (sampleReader [20, 20]) [.batch 1 2048 fun _ => true, .single 2048 true,
      .single 2048 true] :=
  (reader_staysInside_iff (by decide)
    (show newReader (sampleFile [20, 20]) = .ok (sampleReader [20, 20]) from rfl) _).mpr (by decide)

/-- A batch of two on a file with one complete record looks for a record header
behind the end of the file. -/
theorem not_reader_staysInside :
    ¬ ∀ (file : PcapFile) (reader : Reader), fileHeaderSize ≤ file.size.toNat →
      newReader file = .ok reader → ∀ calls : List ReadCall, StaysInside reader calls := by
  intro halways
  have hinside := (halways (sampleFile [20]) (sampleReader [20]) (by decide) rfl
    [.batch 2 2048 fun _ => true]).1 _ List.mem_cons_self
  revert hinside
  decide

end Libmoon.Pcap
