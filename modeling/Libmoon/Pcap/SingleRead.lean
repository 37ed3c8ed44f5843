import Libmoon.Pcap.Records

/-! # Reading one record

What `readSingle` does when there is no record or no buffer for it, and what
`libmoon_read_pcap` makes of the lengths in a record. The differences of these lengths
are unsigned.
-/

namespace Libmoon.Pcap

open Foundation

/-! ## Failures -/

/-- The next record is in the file as a whole. -/
def Reader.Complete (reader : Reader) : Prop :=
  reader.offset + 16 + (reader.file.byte.word32 (reader.offset + 8)).toNat ≤
    reader.file.size.toNat

instance (reader : Reader) : Decidable reader.Complete := inferInstanceAs (Decidable (_ ≤ _))

/-- Without a record or a buffer `readSingle` returns `nil` and can be called again for the
same record. -/
def FailsCleanly (reader : Reader) (mempoolBufSize : UInt32) (allocated : Bool) : Prop :=
  ¬ reader.Complete ∨ allocated = false →
    (reader.readSingle mempoolBufSize allocated).value = (.nil, reader) ∧
    (reader.Complete → ∀ laterBufSize, (reader.readSingle laterBufSize true).value.1 =
      .buf (recordBuf reader.file.byte reader.offset laterBufSize
        reader.nanosecondTimestamp).clip)

section Failure

variable {reader : Reader} {mempoolBufSize : UInt32} {allocated : Bool}

/-- With a header left in the file, no failure is reported as `nil`. -/
theorem readSingle_ne_nil (hroom : reader.offset + 32 ≤ reader.file.size.toNat) :
    (reader.readSingle mempoolBufSize allocated).value.1 ≠ .nil := by
  by_cases hrefused : reader.file.size.toNat - reader.offset ≤
      (reader.file.byte.word32 (reader.offset + 8)).toNat
  · rw [readSingle_of_refused hroom hrefused]
    simp
  · cases allocated with
    | false =>
        rw [readSingle_of_not_allocated hroom hrefused]
        simp
    | true =>
        rw [readSingle_of_allocated hroom hrefused]
        simp

/-- A failure leaves the reader as it is only where the rest of the file is too short for the
header of a record and holds no complete one. -/
theorem failsCleanly_iff :
    FailsCleanly reader mempoolBufSize allocated ↔
      reader.Complete ∧ allocated = true ∨ ¬ reader.Complete ∧ reader.fileRemaining < 32 := by
  have hremaining : reader.fileRemaining < 32 ↔
      ¬ reader.offset + 32 ≤ reader.file.size.toNat := by
    unfold Reader.fileRemaining
    omega
  rw [hremaining]
  constructor
  · intro hclean
    by_cases hcomplete : reader.Complete
    · refine .inl ⟨hcomplete, ?_⟩
      by_contra hnone
      obtain ⟨hnil, hlater⟩ := hclean (.inr (Bool.eq_false_iff.mpr hnone))
      by_cases hroom : reader.offset + 32 ≤ reader.file.size.toNat
      · exact readSingle_ne_nil hroom (congrArg Prod.fst hnil)
      · -- A record of less than 16 bytes at the end of the file is never returned.
        have hagain := hlater hcomplete mempoolBufSize
        rw [readSingle_near_end hroom] at hagain
        cases hagain
    · refine .inr ⟨hcomplete, ?_⟩
      intro hroom
      obtain ⟨hnil, -⟩ := hclean (.inl hcomplete)
      exact readSingle_ne_nil hroom (congrArg Prod.fst hnil)
  · rintro (⟨hcomplete, halloc⟩ | ⟨htruncated, hend⟩) hfails
    · rcases hfails with hfails | hfails
      · exact absurd hcomplete hfails
      · rw [halloc] at hfails
        cases hfails
    · rw [readSingle_near_end hend]
      exact ⟨rfl, fun hcomplete => absurd hcomplete htruncated⟩

end Failure

theorem sampleReader_fails : ¬ ∀ (reader : Reader) (mempoolBufSize : UInt32) (allocated : Bool),
    FailsCleanly reader mempoolBufSize allocated := by
  intro halways
  have hnil := (halways (sampleReader [60]) 2048 false (.inr rfl)).1
  exact readSingle_ne_nil (by decide) (congrArg Prod.fst hnil)

/-! ## Lengths -/

/-- The length a record is meant to have in its buffer. -/
def convertedLen (inclLen origLen mempoolBufSize : UInt32) : Nat :=
  min (max inclLen.toNat origLen.toNat) (mempoolBufSize.toNat - 128)

/-- The record at `src` is written into a buffer with the length it is meant to have, followed
by zeros only. -/
def ConvertsRecord (mem : Memory) (src : Nat) (remaining : UInt64) (mempoolBufSize : UInt32)
    (nanosecondTimestamps : Bool) : Prop :=
  let inclLen := mem.word32 (src + 8)
  let origLen := mem.word32 (src + 12)
  ∃ buf, (libmoonReadPcap mem src remaining mempoolBufSize nanosecondTimestamps true).value =
      some buf ∧
    buf.data.length ≤ mempoolBufSize.toNat - 128 ∧
    (convertedLen inclLen origLen mempoolBufSize < 65536 →
      buf.dataLen.toNat = convertedLen inclLen origLen mempoolBufSize) ∧
    ∃ zeros, buf.data = mem.load (src + 16) (min inclLen.toNat (mempoolBufSize.toNat - 128)) ++
      List.replicate zeros 0

/-- The record is longer than the packet it is of, and both are shorter than the buffer. -/
structure Underflows (inclLen origLen mempoolBufSize : UInt32) : Prop where
  shorter : origLen.toNat < inclLen.toNat
  room : inclLen.toNat < mempoolBufSize.toNat - 128
  small : inclLen.toNat < 65536
  visible : (mempoolBufSize.toNat - 128) % 65536 ≠ inclLen.toNat

section Lengths

variable {inclLen origLen mempoolBufSize : UInt32}

/-- What is written, in all. -/
theorem written_le (hsize : 128 ≤ mempoolBufSize.toNat) (inclLen origLen : UInt32) :
    (copyLen inclLen mempoolBufSize).toNat + (zeroFillLen inclLen origLen mempoolBufSize).toNat ≤
      mempoolBufSize.toNat - 128 := by
  rw [toNat_copyLen hsize, toNat_zeroFillLen hsize]
  split <;> omega

theorem toNat_dataLen (hsize : 128 ≤ mempoolBufSize.toNat) (inclLen origLen : UInt32) :
    (copyLen inclLen mempoolBufSize + zeroFillLen inclLen origLen mempoolBufSize).toUInt16.toNat =
      (if origLen.toNat < inclLen.toNat then mempoolBufSize.toNat - 128
        else convertedLen inclLen origLen mempoolBufSize) % 65536 := by
  have hwritten := written_le hsize inclLen origLen
  have hbuf := mempoolBufSize.toNat_lt
  have hsum : (copyLen inclLen mempoolBufSize + zeroFillLen inclLen origLen mempoolBufSize).toNat =
      if origLen.toNat < inclLen.toNat then mempoolBufSize.toNat - 128
        else convertedLen inclLen origLen mempoolBufSize := by
    rw [UInt32.toNat_add, Nat.mod_eq_of_lt (by omega), toNat_copyLen hsize,
      toNat_zeroFillLen hsize, convertedLen]
    split <;> omega
  rw [UInt32.toNat_toUInt16, hsum]

theorem dataLen_eq_iff (hsize : 128 ≤ mempoolBufSize.toNat) (inclLen origLen : UInt32) :
    (convertedLen inclLen origLen mempoolBufSize < 65536 →
      (copyLen inclLen mempoolBufSize +
        zeroFillLen inclLen origLen mempoolBufSize).toUInt16.toNat =
          convertedLen inclLen origLen mempoolBufSize) ↔
      ¬ Underflows inclLen origLen mempoolBufSize := by
  rw [toNat_dataLen hsize]
  unfold convertedLen
  constructor
  · rintro hlen ⟨hshorter, hroom, hsmall, hvisible⟩
    rw [if_pos hshorter] at hlen
    omega
  · intro hnot hsmall
    split
    next hshorter =>
      by_cases hroom : inclLen.toNat < mempoolBufSize.toNat - 128
      · by_contra hother
        exact hnot ⟨hshorter, hroom, by omega, by omega⟩
      · omega
    next => exact Nat.mod_eq_of_lt hsmall

/-- A record is converted as it should exactly if the difference of its lengths does not
underflow where that can be seen. -/
theorem convertsRecord_iff {mem : Memory} {src : Nat} {remaining : UInt64}
    {nanosecondTimestamps : Bool}
    (hinside : 16 + (mem.word32 (src + 8)).toNat ≤ remaining.toNat)
    (hsize : 128 ≤ mempoolBufSize.toNat) :
    ConvertsRecord mem src remaining mempoolBufSize nanosecondTimestamps ↔
      ¬ Underflows (mem.word32 (src + 8)) (mem.word32 (src + 12)) mempoolBufSize := by
  rw [ConvertsRecord, libmoonReadPcap_of_allocated mem src mempoolBufSize nanosecondTimestamps
    (by omega), ← dataLen_eq_iff hsize]
  constructor
  · rintro ⟨buf, hbuf, -, hlen, -⟩
    cases hbuf
    exact hlen
  · intro hlen
    refine ⟨_, rfl, ?_, hlen, ?_⟩
    · rw [recordBuf, List.length_append, Memory.length_load, List.length_replicate]
      exact written_le hsize _ _
    · rw [← toNat_copyLen hsize]
      exact ⟨_, rfl⟩

end Lengths

/-- A record that holds eight bytes of a packet of four. -/
def shortOriginal : Memory := fun i =>
  ([1, 0, 0, 0, 2, 0, 0, 0, 8, 0, 0, 0, 4, 0, 0, 0, 10, 20, 30, 40, 50, 60, 70, 80] :
    List UInt8).getD i 0

theorem shortOriginal_not_converted : ¬ ∀ (mem : Memory) (src : Nat) (remaining : UInt64)
    (mempoolBufSize : UInt32) (nanosecondTimestamps : Bool),
    16 + (mem.word32 (src + 8)).toNat ≤ remaining.toNat → 128 ≤ mempoolBufSize.toNat →
      ConvertsRecord mem src remaining mempoolBufSize nanosecondTimestamps := by
  intro halways
  obtain ⟨buf, hbuf, -, hlen, -⟩ := halways shortOriginal 0 24 2048 false (by decide) (by decide)
  rw [libmoonReadPcap_of_allocated shortOriginal 0 2048 false (by decide)] at hbuf
  cases hbuf
  exact absurd (hlen (by decide)) (by decide)

/-- The same record of a packet of twelve. -/
def cutOriginal : Memory := fun i =>
  ([1, 0, 0, 0, 2, 0, 0, 0, 8, 0, 0, 0, 12, 0, 0, 0, 10, 20, 30, 40, 50, 60, 70, 80] :
    List UInt8).getD i 0

theorem cutOriginal_converted : 16 + (cutOriginal.word32 8).toNat ≤ (24 : UInt64).toNat ∧
    ConvertsRecord cutOriginal 0 24 2048 false :=
  ⟨by decide, (convertsRecord_iff (by decide) (by decide)).mpr
    fun hunderflows => absurd hunderflows.shorter (by decide)⟩

end Libmoon.Pcap
