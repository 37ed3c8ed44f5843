import Libmoon.Pcap.Writer

/-! # The pcap reader

`newReader` maps a file and checks its header, `readSingle` and `read` hand the
mapping to `libmoon_read_pcap` and `libmoon_read_pcap_batch` and move the offset
of the reader past what they returned. Every read of the mapping is traced. The
bytes behind the end of the file are whatever the mapping shows there.
-/

namespace Libmoon.Pcap

open Foundation

/-- A mapped file. Its size fits into the unsigned 64-bit words of the C code. -/
structure PcapFile where
  byte : Memory
  size : UInt64

/-- `writer:close`, which truncates the file to the records written. The rest of
the last page of a mapping reads as zero. -/
def Writer.close (writer : Writer) : PcapFile where
  byte := fun i => if i < writer.offset then writer.mem i else 0
  size := UInt64.ofNat writer.offset

/-- The fields of a packet buffer that reading a record sets: `data` are the bytes
written to the data area of the buffer. -/
structure PktMbuf where
  pktLen : UInt32
  dataLen : UInt16
  timestamp : UInt64
  data : List UInt8
deriving DecidableEq, Repr

/-- The `log:fatal` exits of `readHeader`. -/
inductive HeaderError where
  | bigEndian
  | notPcap
  | unsupportedVersion
  | unsupportedLinkLayer
deriving DecidableEq, Repr

/-- `readHeader`: the size of the header and the magic number. A time zone other
than zero is only warned about. -/
def readHeader (mem : Memory) : Except HeaderError (Nat × UInt32) :=
  let magicNumber := mem.word32 0
  if magicNumber = tcpdumpMagicSwapped ∨ magicNumber = tcpdumpMagicNanoSwapped then
    .error .bigEndian
  else if magicNumber ≠ tcpdumpMagic ∧ magicNumber ≠ tcpdumpMagicNano then
    .error .notPcap
  else if mem.word16 4 ≠ 2 ∨ mem.word16 6 ≠ 4 then
    .error .unsupportedVersion
  else if mem.word32 20 ≠ 1 then
    .error .unsupportedLinkLayer
  else .ok (fileHeaderSize, magicNumber)

/-- A pcap reader. -/
structure Reader where
  file : PcapFile
  offset : Nat
  magicNumber : UInt32

/-- `newReader`, when the file can be opened and mapped. -/
def newReader (file : PcapFile) : Except HeaderError Reader := do
  let (offset, magicNumber) ← readHeader file.byte
  return { file := file, offset := offset, magicNumber := magicNumber }

/-- `self.magic_number == TCPDUMP_MAGIC_NANO`. -/
def Reader.nanosecondTimestamp (reader : Reader) : Bool := reader.magicNumber == tcpdumpMagicNano

/-- `self.size - self.offset`. -/
def Reader.fileRemaining (reader : Reader) : Int := (reader.file.size.toNat : Int) - reader.offset

/-- The number of bytes `libmoon_read_pcap` copies. -/
def copyLen (inclLen mempoolBufSize : UInt32) : UInt32 :=
  if inclLen > mempoolBufSize - 128 then mempoolBufSize - 128 else inclLen

/-- The number of zeros it appends. -/
def zeroFillLen (inclLen origLen mempoolBufSize : UInt32) : UInt32 :=
  min (mempoolBufSize - copyLen inclLen mempoolBufSize - 128) (origLen - inclLen)

/-- The value for the timestamp field. -/
def recordTimestamp (nanosecondTimestamps : Bool) (tsSec tsUsec : UInt32) : UInt64 :=
  if nanosecondTimestamps then tsSec.toUInt64 * 1000000000 + tsUsec.toUInt64
  else tsSec.toUInt64 * 1000000000 + tsUsec.toUInt64 * 1000

/-- `libmoon_read_pcap`. `allocated` says whether the pool has a buffer left. -/
def libmoonReadPcap (mem : Memory) (src : Nat) (remaining : UInt64) (mempoolBufSize : UInt32)
    (nanosecondTimestamps allocated : Bool) : Traced (Option PktMbuf) := do
  let inclLen ← Traced.word32 mem (src + 8)
  if inclLen.toUInt64 ≥ remaining then
    return none
  else
    let origLen ← Traced.word32 mem (src + 12)
    if allocated then
      let tsSec ← Traced.word32 mem src
      let tsUsec ← Traced.word32 mem (src + 4)
      let data ← Traced.load mem (src + 16) (copyLen inclLen mempoolBufSize).toNat
      return some
        { pktLen := inclLen
          dataLen := (copyLen inclLen mempoolBufSize +
            zeroFillLen inclLen origLen mempoolBufSize).toUInt16
          timestamp := recordTimestamp nanosecondTimestamps tsSec tsUsec
          data := data ++
            List.replicate (zeroFillLen inclLen origLen mempoolBufSize).toNat 0 }
    else return none

/-- The loop of `libmoon_read_pcap_batch` with `left` buffers to go: the buffers
it fills. Allocation number `i` of the call succeeds when `allocated i`. -/
def readPcapBatchLoop (mem : Memory) (pcap : Nat) (mempoolBufSize : UInt32)
    (nanosecondTimestamps : Bool) (allocated : Nat → Bool) :
    Nat → Nat → UInt64 → UInt64 → Traced (List PktMbuf)
  | 0, _, _, _ => return []
  | left + 1, i, offset, remaining => do
      let header := pcap + offset.toNat
      let buf ← libmoonReadPcap mem header remaining mempoolBufSize nanosecondTimestamps
        (allocated i)
      match buf with
      | none => return []
      | some buf =>
          let inclLen ← Traced.word32 mem (header + 8)
          let rest ← readPcapBatchLoop mem pcap mempoolBufSize nanosecondTimestamps allocated left
            (i + 1) (offset + (inclLen.toUInt64 + 16)) (remaining - (inclLen.toUInt64 + 16))
          return buf :: rest

/-- `libmoon_read_pcap_batch`; the return value is the length of the list. -/
def libmoonReadPcapBatch (mem : Memory) (pcap : Nat) (numBufs : UInt32) (remaining : UInt64)
    (mempoolBufSize : UInt32) (nanosecondTimestamps : Bool) (allocated : Nat → Bool) :
    Traced (List PktMbuf) :=
  readPcapBatchLoop mem pcap mempoolBufSize nanosecondTimestamps allocated numBufs.toNat 0 0
    remaining

/-- `buf.pkt_len = buf.data_len`. -/
def PktMbuf.clip (buf : PktMbuf) : PktMbuf := { buf with pktLen := buf.dataLen.toUInt32 }

/-- The offset behind the records of some buffers, before their lengths are
clipped. -/
def advance (offset : Nat) (bufs : List PktMbuf) : Nat :=
  bufs.foldl (fun offset buf => offset + buf.pktLen.toNat + 16) offset

/-- What `readSingle` comes to. -/
inductive SingleResult where
  | nil
  | buf (buf : PktMbuf)
  /-- the process reads `pkt_len` through a null pointer -/
  | nullDereference
deriving DecidableEq, Repr

/-- `reader:readSingle`. A null pointer is true in a Lua condition, so the branch
for a buffer is also taken when there is none. -/
def Reader.readSingle (reader : Reader) (mempoolBufSize : UInt32) (allocated : Bool) :
    Traced (SingleResult × Reader) :=
  if reader.fileRemaining < 32 then
    return (.nil, reader)
  else do
    let buf ← libmoonReadPcap reader.file.byte reader.offset
      (UInt64.ofNat reader.fileRemaining.toNat) mempoolBufSize reader.nanosecondTimestamp allocated
    match buf with
    | none => return (.nullDereference, reader)
    | some buf => return (.buf buf.clip, { reader with offset := advance reader.offset [buf] })

/-- `reader:read` into an array of `numBufs` buffers. -/
def Reader.read (reader : Reader) (numBufs mempoolBufSize : UInt32) (allocated : Nat → Bool) :
    Traced (List PktMbuf × Reader) :=
  if reader.fileRemaining < 32 then
    return ([], reader)
  else do
    let bufs ← libmoonReadPcapBatch reader.file.byte reader.offset numBufs
      (UInt64.ofNat reader.fileRemaining.toNat) mempoolBufSize reader.nanosecondTimestamp allocated
    return (bufs.map PktMbuf.clip, { reader with offset := advance reader.offset bufs })

end Libmoon.Pcap
