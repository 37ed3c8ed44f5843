import Libmoon.Foundation.ByteMemory
import Libmoon.Foundation.Machine

/-! # The pcap writer

`pcap.lua` maps the output file and `libmoon_write_pcap` stores one record at a
time into the mapping. The writer knows the mapped size and the offset of the
next record, and it grows the mapping before a record by doubling it once.
Offsets and sizes are Lua numbers, here natural numbers.
-/

namespace Libmoon.Pcap

open Foundation

/-- `TCPDUMP_MAGIC`. -/
def tcpdumpMagic : UInt32 := 0xA1B2C3D4

/-- `TCPDUMP_MAGIC_SWAPPED`. -/
def tcpdumpMagicSwapped : UInt32 := 0xD4C3B2A1

/-- `TCPDUMP_MAGIC_NANO`. -/
def tcpdumpMagicNano : UInt32 := 0xA1B23C4D

/-- `TCPDUMP_MAGIC_NANO_SWAPPED`. -/
def tcpdumpMagicNanoSwapped : UInt32 := 0x4D3CB2A1

/-- `ffi.sizeof(headerType)`. -/
def fileHeaderSize : Nat := 24

/-- `libmoon_write_pcap`. -/
def libmoonWritePcap (mem : Memory) (dst : Nat) (packet : Memory)
    (len origLen tsSec tsUsec : UInt32) : Memory :=
  let mem := mem.store dst (le32 tsSec)
  let mem := mem.store (dst + 4) (le32 tsUsec)
  let mem := mem.store (dst + 8) (le32 len)
  let mem := mem.store (dst + 12) (le32 origLen)
  mem.store (dst + 16) (packet.load 0 len.toNat)

/-- `writeHeader`, which stores the fields of `pcap_hdr_t` one by one. -/
def writeHeader (mem : Memory) : Memory :=
  let mem := mem.store 0 (le32 tcpdumpMagic)
  let mem := mem.store 4 (le16 2)
  let mem := mem.store 6 (le16 4)
  let mem := mem.store 8 (le32 0)
  let mem := mem.store 12 (le32 0)
  let mem := mem.store 16 (le32 0x40000)
  mem.store 20 (le32 1)

/-- A pcap writer: the mapping, its size and the offset of the next record. -/
structure Writer where
  mem : Memory
  size : Nat
  offset : Nat

/-- The arguments of one `writer:write`. The two halves of the timestamp are the
words that the floating-point sum of the start time and the relative timestamp
is converted to. -/
structure Packet where
  tsSec : UInt32
  tsUsec : UInt32
  data : Memory
  len : UInt32
  origLen : Option UInt32

/-- `origLen or len`. -/
def Packet.orig (packet : Packet) : UInt32 := packet.origLen.getD packet.len

/-- `newWriter` with `INITIAL_FILE_SIZE` set to the given size; a fresh file is
filled with zeros. -/
def newWriter (initialFileSize : Nat) : Writer where
  mem := writeHeader fun _ => 0
  size := initialFileSize
  offset := fileHeaderSize

/-- `writer:resize`, which keeps the contents. -/
def Writer.resize (writer : Writer) (size : Nat) : Writer := { writer with size := size }

/-- The first statement of `writer:write`: one doubling when the record does not
fit with a byte to spare. -/
def Writer.ensureSpace (writer : Writer) (len : UInt32) : Writer :=
  if writer.offset + len.toNat + 16 ≥ writer.size then writer.resize (writer.size * 2) else writer

/-- `writer:write`. -/
def Writer.write (writer : Writer) (packet : Packet) : Writer :=
  let writer := writer.ensureSpace packet.len
  { writer with
    mem := libmoonWritePcap writer.mem writer.offset packet.data packet.len packet.orig
      packet.tsSec packet.tsUsec
    offset := writer.offset + packet.len.toNat + 16 }

/-! ## Staying inside the mapping -/

/-- What `libmoon_write_pcap` stores into, and how much is mapped at that time. -/
structure WriteAccess where
  span : Span
  mapped : Nat
deriving DecidableEq, Repr

/-- The record lies completely inside the mapping. -/
def WriteAccess.Inside (access : WriteAccess) : Prop :=
  access.span.start + access.span.length ≤ access.mapped

/-- The next record starts inside the mapping or at its end. -/
def Writer.Mapped (writer : Writer) : Prop := writer.offset ≤ writer.size

/-- The writer as a machine whose answers are its stores. What a store outside
the mapping does to the process is not modelled. -/
def writerMachine : Machine Writer Packet WriteAccess where
  step writer packet :=
    (⟨⟨writer.offset, 16 + packet.len.toNat⟩, (writer.ensureSpace packet.len).size⟩,
      writer.write packet)

/-- One doubling makes room for the record. -/
def DoublingSuffices (writer : Writer) (packet : Packet) : Prop :=
  writer.offset + 16 + packet.len.toNat ≤ 2 * writer.size

instance (writer : Writer) (packet : Packet) : Decidable (DoublingSuffices writer packet) :=
  inferInstanceAs (Decidable (_ ≤ _))

theorem ensureSpace_offset (writer : Writer) (len : UInt32) :
    (writer.ensureSpace len).offset = writer.offset := by
  unfold Writer.ensureSpace
  split <;> rfl

theorem ensureSpace_mem (writer : Writer) (len : UInt32) :
    (writer.ensureSpace len).mem = writer.mem := by
  unfold Writer.ensureSpace
  split <;> rfl

theorem write_offset (writer : Writer) (packet : Packet) :
    (writer.write packet).offset = writer.offset + 16 + packet.len.toNat := by
  simp only [Writer.write, ensureSpace_offset]
  omega

theorem write_size (writer : Writer) (packet : Packet) :
    (writer.write packet).size = (writer.ensureSpace packet.len).size := rfl

/-- The record fits after the growth step exactly when one doubling suffices. -/
theorem fits_ensureSpace_iff (writer : Writer) (packet : Packet) :
    writer.offset + 16 + packet.len.toNat ≤ (writer.ensureSpace packet.len).size ↔
      DoublingSuffices writer packet := by
  unfold Writer.ensureSpace DoublingSuffices
  split
  next =>
    simp only [Writer.resize]
    omega
  next => omega

/-- Every record of the run is stored inside what is mapped at that time, and the
offset stays within the mapping after every call. -/
def StaysMapped (writer : Writer) (packets : List Packet) : Prop :=
  (∀ access ∈ writerMachine.answers writer packets, access.Inside) ∧
    ∀ first, first <+: packets → (writerMachine.after writer first).Mapped

/-- A writer stays inside its mapping exactly when one doubling suffices at every
call. -/
theorem writer_staysMapped_iff (initialFileSize : Nat) (hheader : fileHeaderSize ≤ initialFileSize)
    (packets : List Packet) :
    StaysMapped (newWriter initialFileSize) packets ↔
      writerMachine.Along DoublingSuffices (newWriter initialFileSize) packets := by
  have hstep : ∀ writer packet, writer.Mapped →
      ((writerMachine.step writer packet).1.Inside ∧ (writerMachine.step writer packet).2.Mapped ↔
        DoublingSuffices writer packet) := by
    intro writer packet _
    rw [← fits_ensureSpace_iff]
    simp only [writerMachine, WriteAccess.Inside, Writer.Mapped, write_offset, write_size]
    omega
  have hstart : (newWriter initialFileSize).Mapped := hheader
  exact writerMachine.good_invariant_iff_along hstep hstart packets

/-- Two packets, the second of which makes a file of 100 bytes grow. -/
theorem writer_staysMapped_growing :
    StaysMapped (newWriter 100) [⟨1, 2, fun _ => 7, 50, none⟩, ⟨1, 3, fun _ => 7, 60, some 90⟩] :=
  (writer_staysMapped_iff 100 (by decide) _).mpr (by decide)

/-- A packet of 1000 bytes does not fit into a file of 100 bytes that has been
doubled once. -/
theorem not_writer_staysMapped :
    ¬ ∀ initialFileSize, fileHeaderSize ≤ initialFileSize → ∀ packets : List Packet,
      StaysMapped (newWriter initialFileSize) packets := by
  intro halways
  have hinside := (halways 100 (by decide) [⟨1, 2, fun _ => 7, 1000, none⟩]).1 _
    List.mem_cons_self
  revert hinside
  unfold WriteAccess.Inside
  decide

end Libmoon.Pcap
