import Libmoon.Pcap.Records
import Mathlib.Data.List.Forall2

/-! # What is written is read back

A closed file is the file header followed by the images of the packets in the
order they were written. Reading it record by record returns them, except for
two kinds of packets: a last packet of fewer than 16 bytes is never returned, and
the 16-bit length field of a buffer cannot hold more than 65535 bytes.
-/

namespace Libmoon.Pcap

open Foundation

/-! ## The written bytes -/

/-- The bytes of one record. -/
def recordImage (packet : Packet) : List UInt8 :=
  le32 packet.tsSec ++ le32 packet.tsUsec ++ le32 packet.len ++ le32 packet.orig ++
    packet.data.load 0 packet.len.toNat

/-- The bytes of the file header. -/
def headerImage : List UInt8 :=
  le32 tcpdumpMagic ++ le16 2 ++ le16 4 ++ le32 0 ++ le32 0 ++ le32 0x40000 ++ le32 1

@[simp] theorem length_recordImage (packet : Packet) :
    (recordImage packet).length = 16 + packet.len.toNat := by
  simp only [recordImage, List.length_append, length_le32, Memory.length_load, Nat.reduceAdd]

theorem libmoonWritePcap_eq (mem : Memory) (dst : Nat) (packet : Packet) :
    libmoonWritePcap mem dst packet.data packet.len packet.orig packet.tsSec packet.tsUsec =
      mem.store dst (recordImage packet) := by
  simp only [recordImage, ← Memory.store_append, List.length_append, length_le32,
    ← Nat.add_assoc]
  rfl

theorem writeHeader_eq (mem : Memory) : writeHeader mem = mem.store 0 headerImage := by
  simp only [headerImage, ← Memory.store_append, List.length_append, length_le32, length_le16]
  rfl

/-- A write appends the image of its packet to the file. -/
theorem write_load (writer : Writer) (packet : Packet) :
    (writer.write packet).mem.load 0 (writer.write packet).offset =
      writer.mem.load 0 writer.offset ++ recordImage packet := by
  have hmem : (writer.write packet).mem = writer.mem.store writer.offset (recordImage packet) := by
    simp only [Writer.write, ensureSpace_mem, ensureSpace_offset, libmoonWritePcap_eq]
  have hrecord := writer.mem.load_store writer.offset (recordImage packet)
  rw [length_recordImage] at hrecord
  rw [hmem, write_offset, Nat.add_assoc, Memory.load_add, Nat.zero_add, hrecord,
    Memory.load_store_of_le _ _ (by omega)]

theorem after_load (writer : Writer) (packets : List Packet) :
    (writerMachine.after writer packets).mem.load 0 (writerMachine.after writer packets).offset =
      writer.mem.load 0 writer.offset ++ packets.flatMap recordImage := by
  induction packets generalizing writer with
  | nil => simp
  | cons packet rest ih =>
      have hrest := ih (writer.write packet)
      rw [write_load, List.append_assoc] at hrest
      exact hrest

theorem after_offset (writer : Writer) (packets : List Packet) :
    (writerMachine.after writer packets).offset =
      writer.offset + recordBytes (packets.map Packet.len) := by
  induction packets generalizing writer with
  | nil => rfl
  | cons packet rest ih =>
      have hrest := ih (writer.write packet)
      rw [write_offset] at hrest
      simp only [List.map_cons, recordBytes, ← Nat.add_assoc]
      exact hrest

/-! ## The read bytes -/

/-- The fields of a record, from its image. -/
theorem record_fields {mem : Memory} {start : Nat} {packet : Packet}
    (hload : mem.load start (recordImage packet).length = recordImage packet) :
    mem.word32 start = packet.tsSec ∧ mem.word32 (start + 4) = packet.tsUsec ∧
      mem.word32 (start + 8) = packet.len ∧ mem.word32 (start + 12) = packet.orig ∧
      mem.load (start + 16) packet.len.toNat = packet.data.load 0 packet.len.toNat := by
  obtain ⟨hwords, hdata⟩ := Memory.load_append_inv hload
  obtain ⟨hwords, horig⟩ := Memory.load_append_inv hwords
  obtain ⟨hwords, hlen⟩ := Memory.load_append_inv hwords
  obtain ⟨hsec, husec⟩ := Memory.load_append_inv hwords
  refine ⟨mem.word32_of_load hsec, mem.word32_of_load husec, mem.word32_of_load hlen,
    mem.word32_of_load horig, ?_⟩
  simpa using hdata

theorem readHeader_of_image {mem : Memory}
    (hload : mem.load 0 headerImage.length = headerImage) :
    readHeader mem = .ok (fileHeaderSize, tcpdumpMagic) := by
  obtain ⟨hwords, hnetwork⟩ := Memory.load_append_inv hload
  obtain ⟨hwords, _⟩ := Memory.load_append_inv hwords
  obtain ⟨hwords, _⟩ := Memory.load_append_inv hwords
  obtain ⟨hwords, _⟩ := Memory.load_append_inv hwords
  obtain ⟨hwords, hminor⟩ := Memory.load_append_inv hwords
  obtain ⟨hmagic, hmajor⟩ := Memory.load_append_inv hwords
  have hmagic' : mem.word32 0 = tcpdumpMagic := mem.word32_of_load hmagic
  have hmajor' : mem.word16 4 = 2 := mem.word16_of_load hmajor
  have hminor' : mem.word16 6 = 4 := mem.word16_of_load hminor
  have hnetwork' : mem.word32 20 = 1 := mem.word32_of_load hnetwork
  simp only [readHeader, hmagic', hmajor', hminor', hnetwork']
  decide

/-- From `start` on the file consists of the images of the packets. -/
def PacketsAt (file : PcapFile) : Nat → List Packet → Prop
  | start, [] => start = file.size.toNat
  | start, packet :: rest =>
      file.byte.load start (recordImage packet).length = recordImage packet ∧
        PacketsAt file (start + 16 + packet.len.toNat) rest

theorem packetsAt_of_load {file : PcapFile} {start : Nat} {packets : List Packet}
    (hload : file.byte.load start (packets.flatMap recordImage).length =
      packets.flatMap recordImage)
    (hsize : start + (packets.flatMap recordImage).length = file.size.toNat) :
    PacketsAt file start packets := by
  induction packets generalizing start with
  | nil => simpa [PacketsAt] using hsize
  | cons packet rest ih =>
      rw [List.flatMap_cons] at hload hsize
      obtain ⟨hfirst, hrest⟩ := Memory.load_append_inv hload
      rw [List.length_append, length_recordImage] at hsize
      rw [length_recordImage, ← Nat.add_assoc] at hrest
      exact ⟨hfirst, ih hrest (by omega)⟩

theorem PacketsAt.recordsAt {file : PcapFile} {start : Nat} {packets : List Packet}
    (hpackets : PacketsAt file start packets) :
    RecordsAt file start (packets.map Packet.len) := by
  induction packets generalizing start with
  | nil => exact hpackets
  | cons packet rest ih => exact ⟨(record_fields hpackets.1).2.2.1, ih hpackets.2⟩

/-- A record with room in the buffer: `len <= origLen` and
`len <= mempoolBufSize - 128`. -/
def Fits (mempoolBufSize : UInt32) (packet : Packet) : Prop :=
  packet.len.toNat ≤ packet.orig.toNat ∧ packet.len.toNat + 128 ≤ mempoolBufSize.toNat

instance (mempoolBufSize : UInt32) (packet : Packet) : Decidable (Fits mempoolBufSize packet) :=
  inferInstanceAs (Decidable (_ ∧ _))

/-- The size a packet should have when it is read back. -/
def restoredSize (mempoolBufSize : UInt32) (packet : Packet) : Nat :=
  min packet.orig.toNat (mempoolBufSize.toNat - 128)

/-- A buffer holds a written packet: its bytes, zeros for what was cut off, its size
and its timestamp. -/
structure Restores (mempoolBufSize : UInt32) (packet : Packet) (buf : PktMbuf) : Prop where
  data_eq : buf.data = packet.data.load 0 packet.len.toNat ++
    List.replicate (restoredSize mempoolBufSize packet - packet.len.toNat) 0
  size_eq : buf.pktLen.toNat = restoredSize mempoolBufSize packet
  timestamp_eq : buf.timestamp.toNat =
    packet.tsSec.toNat * 1000000000 + packet.tsUsec.toNat * 1000

section Record

variable {mempoolBufSize : UInt32} {packet : Packet}

theorem Fits.headroom_le (hfits : Fits mempoolBufSize packet) : 128 ≤ mempoolBufSize.toNat :=
  Nat.le_trans (Nat.le_add_left 128 packet.len.toNat) hfits.2

theorem copyLen_eq (hfits : Fits mempoolBufSize packet) :
    copyLen packet.len mempoolBufSize = packet.len := by
  have hroom := hfits.2
  apply UInt32.toNat_inj.mp
  rw [toNat_copyLen hfits.headroom_le]
  omega

theorem toNat_zeroFillLen_of_fits (hfits : Fits mempoolBufSize packet) :
    (zeroFillLen packet.len packet.orig mempoolBufSize).toNat =
      restoredSize mempoolBufSize packet - packet.len.toNat := by
  have horig := hfits.1
  have hroom := hfits.2
  rw [toNat_zeroFillLen hfits.headroom_le, if_neg (by omega), restoredSize]
  omega

/-- The timestamp does not overflow 64 bits. -/
theorem toNat_recordTimestamp (tsSec tsUsec : UInt32) :
    (recordTimestamp false tsSec tsUsec).toNat =
      tsSec.toNat * 1000000000 + tsUsec.toNat * 1000 := by
  have hsec := tsSec.toNat_lt
  have husec := tsUsec.toNat_lt
  have hbillion : (1000000000 : UInt64).toNat = 1000000000 := rfl
  have hthousand : (1000 : UInt64).toNat = 1000 := rfl
  simp only [recordTimestamp, Bool.false_eq_true, if_false, UInt64.toNat_add, UInt64.toNat_mul,
    UInt32.toNat_toUInt64, hbillion, hthousand]
  omega

/-- Reading a written record restores its packet exactly when the size fits into
the 16-bit length field. -/
theorem restores_recordBuf_iff {mem : Memory} {start : Nat} (hfits : Fits mempoolBufSize packet)
    (hload : mem.load start (recordImage packet).length = recordImage packet) :
    Restores mempoolBufSize packet (recordBuf mem start mempoolBufSize false).clip ↔
      restoredSize mempoolBufSize packet < 65536 := by
  obtain ⟨hsec, husec, hlen, horig, hdata⟩ := record_fields hload
  have hsum : (packet.len + zeroFillLen packet.len packet.orig mempoolBufSize).toNat =
      restoredSize mempoolBufSize packet := by
    have hbound := packet.orig.toNat_lt
    have hroom := hfits.2
    rw [UInt32.toNat_add, toNat_zeroFillLen_of_fits hfits, restoredSize]
    have horig := hfits.1
    omega
  have hsize : (recordBuf mem start mempoolBufSize false).clip.pktLen.toNat =
      restoredSize mempoolBufSize packet % 65536 := by
    simp only [PktMbuf.clip, recordBuf, hlen, horig, copyLen_eq hfits, UInt16.toNat_toUInt32,
      UInt32.toNat_toUInt16, hsum]
  constructor
  · intro hrestores
    have heq := hrestores.size_eq
    rw [hsize] at heq
    omega
  · intro hbound
    refine ⟨?_, ?_, ?_⟩
    · simp only [PktMbuf.clip, recordBuf, hlen, horig, copyLen_eq hfits, hdata,
        toNat_zeroFillLen_of_fits hfits]
    · rw [hsize, Nat.mod_eq_of_lt hbound]
    · simp only [PktMbuf.clip, recordBuf, hsec, husec, toNat_recordTimestamp]

end Record

/-- The buffers of a chain restore its packets exactly when every size fits. -/
theorem restores_recordBufs_iff {file : PcapFile} {mempoolBufSize : UInt32} {start : Nat}
    {packets : List Packet} (hfits : ∀ packet ∈ packets, Fits mempoolBufSize packet)
    (hpackets : PacketsAt file start packets) :
    List.Forall₂ (Restores mempoolBufSize) packets
        (recordBufs file.byte mempoolBufSize false start (packets.map Packet.len)) ↔
      ∀ packet ∈ packets, restoredSize mempoolBufSize packet < 65536 := by
  induction packets generalizing start with
  | nil => simp [recordBufs]
  | cons packet rest ih =>
      rw [List.forall_mem_cons] at hfits
      rw [List.map_cons, recordBufs, List.forall₂_cons, List.forall_mem_cons,
        restores_recordBuf_iff hfits.1 hpackets.1, ih hfits.2 hpackets.2]

/-! ## The round trip -/

/-- The mapping holds the next record, and its size is one a file can have. -/
def MappingHolds (writer : Writer) (packet : Packet) : Prop :=
  writer.offset + 16 + packet.len.toNat ≤ (writer.ensureSpace packet.len).size ∧
    (writer.ensureSpace packet.len).size < 2 ^ 63

instance (writer : Writer) (packet : Packet) : Decidable (MappingHolds writer packet) :=
  inferInstanceAs (Decidable (_ ∧ _))

/-- The file that holds some packets after they were written and the writer closed. -/
def writtenFile (initialFileSize : Nat) (packets : List Packet) : PcapFile :=
  (writerMachine.after (newWriter initialFileSize) packets).close

theorem writtenFile_load (initialFileSize : Nat) (packets : List Packet) :
    (writtenFile initialFileSize packets).byte.load 0
        (writerMachine.after (newWriter initialFileSize) packets).offset =
      headerImage ++ packets.flatMap recordImage := by
  have hheader : (newWriter initialFileSize).mem.load 0 (newWriter initialFileSize).offset =
      headerImage := by
    simp only [newWriter, writeHeader_eq]
    exact Memory.load_store _ 0 headerImage
  rw [← hheader, ← after_load]
  apply Memory.load_congr
  intro i _ hi
  rw [Nat.zero_add] at hi
  simp only [writtenFile, Writer.close, if_pos hi]

theorem length_flatMap_recordImage (packets : List Packet) :
    (packets.flatMap recordImage).length = recordBytes (packets.map Packet.len) := by
  induction packets with
  | nil => rfl
  | cons packet rest ih =>
      rw [List.flatMap_cons, List.length_append, ih, length_recordImage]
      rfl

/-- A file that the system could map holds the packets behind its header. -/
theorem writtenFile_packetsAt {initialFileSize : Nat} {packets : List Packet}
    (hmapped : writerMachine.Along MappingHolds (newWriter initialFileSize) packets) :
    PacketsAt (writtenFile initialFileSize packets) fileHeaderSize packets ∧
      readHeader (writtenFile initialFileSize packets).byte =
        .ok (fileHeaderSize, tcpdumpMagic) := by
  have hload := writtenFile_load initialFileSize packets
  have hoffset := after_offset (newWriter initialFileSize) packets
  have hbound : (writerMachine.after (newWriter initialFileSize) packets).offset < 2 ^ 63 := by
    have hstep : ∀ writer packet, writer.offset < 2 ^ 63 → MappingHolds writer packet →
        (writerMachine.step writer packet).2.offset < 2 ^ 63 := by
      intro writer packet _ hholds
      obtain ⟨hroom, hsize⟩ := hholds
      rw [show (writerMachine.step writer packet).2 = writer.write packet from rfl, write_offset]
      omega
    exact writerMachine.invariant_after hstep (show fileHeaderSize < 2 ^ 63 by decide) hmapped
  have hsize : (writtenFile initialFileSize packets).size.toNat =
      fileHeaderSize + (packets.flatMap recordImage).length := by
    have hfile : (writtenFile initialFileSize packets).size = UInt64.ofNat
        (writerMachine.after (newWriter initialFileSize) packets).offset := rfl
    rw [hfile, UInt64.toNat_ofNat', Nat.mod_eq_of_lt (by omega), hoffset,
      length_flatMap_recordImage]
    rfl
  rw [hoffset, ← length_flatMap_recordImage] at hload
  have hlength : (newWriter initialFileSize).offset + (packets.flatMap recordImage).length =
      (headerImage ++ packets.flatMap recordImage).length := by
    rw [List.length_append]
    rfl
  rw [hlength] at hload
  obtain ⟨hheader, hpackets⟩ := Memory.load_append_inv hload
  rw [Nat.zero_add] at hpackets
  exact ⟨packetsAt_of_load hpackets hsize.symm, readHeader_of_image hheader⟩

/-- The reader that a written file is opened with. -/
def writtenReader (initialFileSize : Nat) (packets : List Packet) : Reader :=
  ⟨writtenFile initialFileSize packets, fileHeaderSize, tcpdumpMagic⟩

/-- Reading a written file returns one buffer for each packet, in order, that
restores the packet, and then nothing. -/
def RoundTrips (initialFileSize : Nat) (mempoolBufSize : UInt32) (packets : List Packet) : Prop :=
  ∃ reader, newReader (writtenFile initialFileSize packets) = .ok reader ∧
    ∀ extra, ∃ bufs, readSingles mempoolBufSize (packets.length + extra) reader =
        bufs.map .buf ++ List.replicate extra .nil ∧
      List.Forall₂ (Restores mempoolBufSize) packets bufs

/-- Packets come back exactly when the last one has at least 16 bytes and no
restored size exceeds 65535 bytes. -/
theorem roundTrips_iff (initialFileSize : Nat) (mempoolBufSize : UInt32) (packets : List Packet)
    (hfits : ∀ packet ∈ packets, Fits mempoolBufSize packet)
    (hmapped : writerMachine.Along MappingHolds (newWriter initialFileSize) packets) :
    RoundTrips initialFileSize mempoolBufSize packets ↔
      LastLong (packets.map Packet.len) ∧
        ∀ packet ∈ packets, restoredSize mempoolBufSize packet < 65536 := by
  obtain ⟨hpackets, hheader⟩ := writtenFile_packetsAt hmapped
  have hreader : newReader (writtenFile initialFileSize packets) =
      .ok (writtenReader initialFileSize packets) := by
    simp only [newReader, hheader]
    rfl
  have hrecords : RecordsAt (writtenReader initialFileSize packets).file
      (writtenReader initialFileSize packets).offset (packets.map Packet.len) :=
    hpackets.recordsAt
  have hlength : packets.length = (packets.map Packet.len).length := (List.length_map _).symm
  have hrestores := restores_recordBufs_iff hfits hpackets
  constructor
  · rintro ⟨reader, hreader', hread⟩
    obtain rfl := Except.ok.inj (hreader'.symm.trans hreader)
    obtain ⟨bufs, hbufs, hall⟩ := hread 1
    rw [hlength] at hbufs
    by_cases hlast : LastLong (packets.map Packet.len)
    · rw [readSingles_of_lastLong mempoolBufSize hrecords hlast] at hbufs
      obtain rfl := List.map_injective_iff.mpr (fun _ _ => SingleResult.buf.inj)
        (List.append_cancel_right hbufs)
      exact ⟨hlast, hrestores.mp hall⟩
    · -- one packet too few is returned
      have hreturned := singleRecords_of_not_lastLong mempoolBufSize hrecords hlast 1
      rw [singleRecords, hbufs, List.filterMap_append, filterMap_map_buf, filterMap_replicate_nil,
        List.append_nil] at hreturned
      have hcount := hall.length_eq
      rw [hreturned, List.length_dropLast, Reader.records, length_recordBufs, ← hlength] at hcount
      have hne : packets ≠ [] := by
        rintro rfl
        exact hlast (by simp [LastLong])
      have hpos := List.length_pos_iff.mpr hne
      omega
  · rintro ⟨hlast, hsizes⟩
    refine ⟨_, hreader, fun extra => ⟨_, ?_, hrestores.mpr hsizes⟩⟩
    rw [hlength]
    exact readSingles_of_lastLong mempoolBufSize hrecords hlast extra

/-- A packet cut off at 20 of 40 bytes behind an empty one. -/
theorem roundTrips_cut_packet :
    RoundTrips 100 2048 [⟨5, 6, UInt8.ofNat, 0, none⟩, ⟨5, 7, UInt8.ofNat, 20, some 40⟩] :=
  (roundTrips_iff 100 2048 _ (by decide) (by decide)).mpr (by decide)

/-- A single packet of 10 bytes is written and never read back. -/
theorem not_roundTrips :
    ¬ ∀ (initialFileSize : Nat) (mempoolBufSize : UInt32) (packets : List Packet),
      (∀ packet ∈ packets, Fits mempoolBufSize packet) →
      writerMachine.Along MappingHolds (newWriter initialFileSize) packets →
        RoundTrips initialFileSize mempoolBufSize packets := by
  intro halways
  obtain ⟨reader, hreader, hread⟩ :=
    halways 100 2048 [⟨5, 6, UInt8.ofNat, 10, none⟩] (by decide) (by decide)
  obtain rfl := Except.ok.inj (hreader.symm.trans
    (show newReader _ = .ok (writtenReader 100 [⟨5, 6, UInt8.ofNat, 10, none⟩]) from rfl))
  obtain ⟨bufs, hbufs, hall⟩ := hread 0
  -- the only call returns `nil`
  have hnil : readSingles 2048 1 (writtenReader 100 [⟨5, 6, UInt8.ofNat, 10, none⟩]) = [.nil] :=
    by decide
  cases hall with
  | cons _ _ => simp [hnil] at hbufs

end Libmoon.Pcap
