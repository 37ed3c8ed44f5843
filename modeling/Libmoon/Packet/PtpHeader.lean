import Libmoon.Packet.StoredFields

/-! # PTP headers

Most fields of the header have accessors like those of other headers. The correction field
and the UUID are tables of two numbers, and the message type is called differently by `get`
and by `fill`.
-/

namespace Libmoon.Packet

open Foundation

namespace PtpHeader

/-- `ptp.TYPE_SYNC`. -/
def typeSync : ℚ := 0

/-- `ptp.CONTROL_SYNC`. -/
def controlSync : ℚ := 0

def setMessageType : Setter := setByte 0 typeSync

def getMessageType : Getter := getByte 0

def setVersion : Setter := setByte 1 0x02

def getVersion : Getter := getByte 1

def setLength : Setter := setHton16 2 (34 + 10 + 0)

def getLength : Getter := getHton16 2

def setDomain : Setter := setByte 4 0

def getDomain : Getter := getByte 4

def setReserved : Setter := setByte 5 0

def getReserved : Getter := getByte 5

def setFlags : Setter := setHton16 6 0

def getFlags : Getter := getHton16 6

/-- A table `{ high, low }`, with the bits of both numbers. -/
def highLow : Option Value → Option (BitVec 32 × BitVec 32)
  | none | some (.flag false) => some (0, 0)
  | some (.words [high, low]) => some (high, low)
  | _ => none

/-- The lower number comes first. -/
def setCorrection : Setter := fun arg mem base => do
  let c ← highLow arg
  let mem := mem.setWord (base + 8) ((bswap c.2).setWidth (8 * 4))
  some (mem.setWord (base + 8 + 4) ((bswap c.1).setWidth (8 * 4)))

def getCorrection : Getter := fun mem base =>
  .words [bswap ((mem.word (base + 8 + 4) 4).setWidth 32),
    bswap ((mem.word (base + 8) 4).setWidth 32)]

def setReserved2 : Setter := setHton 16 0

def getReserved2 : Getter := getHton 16

/-- The same shifts as for the fields of a VXLAN header. -/
def setOui : Setter := VxlanHeader.setTriple 20

def getOui : Getter := VxlanHeader.getTriple 20

def setUuid : Setter := fun arg mem base => do
  let int ← highLow arg
  let mem := mem.setWord (base + 23) (int.1.setWidth (8 * 1))
  let mem := mem.setWord (base + 23 + 1) (((int.2 &&& 0xff000000#32) >>> 24).setWidth (8 * 1))
  let mem := mem.setWord (base + 23 + 2) (((int.2 &&& 0x00ff0000#32) >>> 16).setWidth (8 * 1))
  let mem := mem.setWord (base + 23 + 3) (((int.2 &&& 0x0000ff00#32) >>> 8).setWidth (8 * 1))
  some (mem.setWord (base + 23 + 4) ((int.2 &&& 0x000000ff#32).setWidth (8 * 1)))

def getUuid : Getter := fun mem base =>
  .words [(mem.word (base + 23) 1).setWidth 32,
    ((mem.word (base + 23 + 1) 1).setWidth 32 <<< 24) |||
      (((mem.word (base + 23 + 2) 1).setWidth 32 <<< 16) |||
        (((mem.word (base + 23 + 3) 1).setWidth 32 <<< 8) |||
          (mem.word (base + 23 + 4) 1).setWidth 32))]

def setNodePort : Setter := setHton16 28 1

def getNodePort : Getter := getHton16 28

def setSequenceID : Setter := setHton16 30 0

def getSequenceID : Getter := getHton16 30

def setControl : Setter := setByte 32 controlSync

def getControl : Getter := getByte 32

def setLogMessageInterval : Setter := setByte 33 0x7f

def getLogMessageInterval : Getter := getByte 33

/-- The names in `ptpHeader:get` and in `ptpHeader:fill`, one of which differs. -/
def fields : HeaderFields where
  get := [("MessageTyp", getMessageType), ("Version", getVersion), ("Length", getLength),
    ("Domain", getDomain), ("Reserved", getReserved), ("Flags", getFlags),
    ("Correction", getCorrection), ("Reserved2", getReserved2), ("Oui", getOui),
    ("Uuid", getUuid), ("NodePort", getNodePort), ("SequenceID", getSequenceID),
    ("Control", getControl), ("LogMessageInterval", getLogMessageInterval)]
  fill := [("MessageType", setMessageType), ("Version", setVersion), ("Length", setLength),
    ("Domain", setDomain), ("Reserved", setReserved), ("Flags", setFlags),
    ("Correction", setCorrection), ("Reserved2", setReserved2), ("Oui", setOui),
    ("Uuid", setUuid), ("NodePort", setNodePort), ("SequenceID", setSequenceID),
    ("Control", setControl), ("LogMessageInterval", setLogMessageInterval)]

/-- `ptpHeader:get`. -/
def get (mem : Memory) (base : Nat) (pre : Option String) : NamedArgs :=
  mergeGet mem base (pre.getD "ptp") (fun _ => none) fields.get

/-- `ptpHeader:fill`. -/
def fill (args : NamedArgs) (pre : Option String) (mem : Memory) (base : Nat) : Option Memory :=
  runSetters base (pre.getD "ptp") args fields.fill mem

/-- Filling a header with what has been read from another one copies its 34 bytes. -/
def RoundTrip (pre : Option String) (src dst : Memory) (base : Nat) : Prop :=
  ∃ dst', fill (get src base pre) pre dst base = some dst' ∧
    ∀ i < 34, dst' (base + i) = src (base + i)

end PtpHeader

/-- Values of the fields that have more than one byte. -/
structure PtpValues where
  length : UInt16
  flags : UInt16
  correction : BitVec 32 × BitVec 32
  reserved2 : UInt32
  oui : BitVec 24
  uuid : UInt8 × BitVec 32
  nodePort : UInt16
  sequenceID : UInt16

/-- Setters store these values in network order over the whole field. The two numbers of a
table are the upper and the lower bits of one number. -/
structure StoredBigEndian (values : PtpValues) : Prop where
  length : Stores PtpHeader.setLength (some (.number values.length.toNat))
    ⟨2, bigEndian 2 values.length.toNat⟩
  flags : Stores PtpHeader.setFlags (some (.number values.flags.toNat))
    ⟨6, bigEndian 2 values.flags.toNat⟩
  correction : Stores PtpHeader.setCorrection
    (some (.words [values.correction.1, values.correction.2]))
    ⟨8, bigEndian 8 (values.correction.1.toNat * 2 ^ 32 + values.correction.2.toNat)⟩
  reserved2 : Stores PtpHeader.setReserved2 (some (.number values.reserved2.toNat))
    ⟨16, bigEndian 4 values.reserved2.toNat⟩
  oui : Stores PtpHeader.setOui (some (.number values.oui.toNat))
    ⟨20, bigEndian 3 values.oui.toNat⟩
  uuid : Stores PtpHeader.setUuid
    (some (.words [BitVec.ofNat 32 values.uuid.1.toNat, values.uuid.2]))
    ⟨23, bigEndian 5 (values.uuid.1.toNat * 2 ^ 32 + values.uuid.2.toNat)⟩
  nodePort : Stores PtpHeader.setNodePort (some (.number values.nodePort.toNat))
    ⟨28, bigEndian 2 values.nodePort.toNat⟩
  sequenceID : Stores PtpHeader.setSequenceID (some (.number values.sequenceID.toNat))
    ⟨30, bigEndian 2 values.sequenceID.toNat⟩

/-! ## Stored fields -/

namespace VxlanHeader

variable (offset : Nat)

theorem stores_triple (number : ℚ) :
    Stores (setTriple offset) (some (.number number)) ⟨offset,
      [⟨(tobit number).extractLsb' 16 8⟩, ⟨(tobit number).extractLsb' 8 8⟩,
        ⟨(tobit number).extractLsb' 0 8⟩]⟩ := by
  intro mem base
  obtain ⟨_, hfirst, hsecond, hthird⟩ := masked_bytes (tobit number)
  simp only [setTriple, numberOr, Option.bind_eq_bind, Option.bind_some, hfirst, hsecond, hthird]
  rw [Memory.setWord_one mem (base + offset), Memory.store_setWord_one, Memory.store_setWord_one]
  all_goals rfl

theorem stores_getTriple (src : Memory) (base : Nat) :
    Stores (setTriple offset) (some (getTriple offset src base))
      ⟨offset, src.load (base + offset) 3⟩ := by
  intro mem base'
  rw [getTriple, stores_triple offset, tobit_toInt]
  obtain ⟨_, hfirst, hsecond, hthird⟩ := shifted_bytes (0#(8 * 1)) (src.word (base + offset) 1)
    (src.word (base + offset + 1) 1) (src.word (base + offset + 2) 1) (by simp; rfl)
  rw [hfirst, hsecond, hthird]
  simp only [Memory.ofBitVec_word_one]
  rfl

end VxlanHeader

namespace PtpHeader

theorem stores_correction (high low : BitVec 32) :
    Stores setCorrection (some (.words [high, low]))
      ⟨8, bigEndian 4 low.toNat ++ bigEndian 4 high.toNat⟩ := by
  intro mem base
  have happend := mem.store_append (base + 8) (bigEndian 4 low.toNat) (bigEndian 4 high.toNat)
  rw [length_bigEndian] at happend
  simp only [setCorrection, highLow, Option.bind_eq_bind, Option.bind_some, Memory.setWord_bswap]
  rw [happend]

theorem stores_getCorrection (src : Memory) (base : Nat) :
    Stores setCorrection (some (getCorrection src base)) ⟨8, src.load (base + 8) 8⟩ := by
  intro mem base'
  have happend := mem.store_append (base' + 8) (src.load (base + 8) 4) (src.load (base + 8 + 4) 4)
  rw [Memory.length_load] at happend
  simp only [setCorrection, getCorrection, highLow, Option.bind_eq_bind, Option.bind_some,
    bswap_bswap_setWidth, Memory.setWord_word_eq_store]
  rw [happend, ← Memory.load_add]

theorem stores_uuid (high low : BitVec 32) :
    Stores setUuid (some (.words [high, low]))
      ⟨23, ⟨high.setWidth (8 * 1)⟩ :: bigEndian 4 low.toNat⟩ := by
  intro mem base
  obtain ⟨hfirst, hsecond, hthird, hfourth⟩ := masked_bytes low
  simp only [setUuid, highLow, Option.bind_eq_bind, Option.bind_some, hfirst, hsecond, hthird,
    hfourth]
  rw [Memory.setWord_one mem (base + 23), Memory.store_setWord_one, Memory.store_setWord_one,
    Memory.store_setWord_one, Memory.store_setWord_one, Memory.bigEndian_bits]
  all_goals rfl

theorem stores_getUuid (src : Memory) (base : Nat) :
    Stores setUuid (some (getUuid src base)) ⟨23, src.load (base + 23) 5⟩ := by
  intro mem base'
  obtain ⟨hfirst, hsecond, hthird, hfourth⟩ := shifted_bytes (src.word (base + 23 + 1) 1)
    (src.word (base + 23 + 2) 1) (src.word (base + 23 + 3) 1) (src.word (base + 23 + 4) 1) rfl
  have hhigh : ((src.word (base + 23) 1).setWidth 32).setWidth (8 * 1) = src.word (base + 23) 1 :=
    BitVec.setWidth_setWidth_of_le _ (by decide)
  rw [getUuid, stores_uuid, Memory.bigEndian_bits, hfirst, hsecond, hthird, hfourth, hhigh]
  simp only [Memory.ofBitVec_word_one]
  rfl

/-! ## Round trip -/

/-- No field is called like the one that `fill` looks for first. -/
theorem get_messageType (src : Memory) (base : Nat) (pre : Option String) :
    get src base pre (pre.getD "ptp" ++ "MessageType") = none := by
  rw [get, mergeGet_of_not_mem (by decide)]

/-- The fields of the header after it has been filled with those of another one. -/
def copiedFields (src : Memory) (base : Nat) : List FieldBytes :=
  [⟨0, [0]⟩, ⟨1, src.load (base + 1) 1⟩, ⟨2, src.load (base + 2) 2⟩, ⟨4, src.load (base + 4) 1⟩,
    ⟨5, src.load (base + 5) 1⟩, ⟨6, src.load (base + 6) 2⟩, ⟨8, src.load (base + 8) 8⟩,
    ⟨16, src.load (base + 16) 4⟩, ⟨20, src.load (base + 20) 3⟩, ⟨23, src.load (base + 23) 5⟩,
    ⟨28, src.load (base + 28) 2⟩, ⟨30, src.load (base + 30) 2⟩, ⟨32, src.load (base + 32) 1⟩,
    ⟨33, src.load (base + 33) 1⟩]

theorem stores_fields (src : Memory) (base : Nat) (pre : Option String) :
    List.Forall₂
      (fun step field => Stores step.2 (get src base pre (pre.getD "ptp" ++ step.1)) field)
      fields.fill (copiedFields src base) := by
  have hargs : ∀ field ∈ fields.get,
      get src base pre (pre.getD "ptp" ++ field.1) = some (field.2 src base) :=
    fun field hfield => mergeGet_of_mem (by decide) hfield
  simp only [fields, List.forall_mem_cons] at hargs
  obtain ⟨_, hversion, hlength, hdomain, hreserved, hflags, hcorrection, hreserved2, houi, huuid,
    hnodePort, hsequenceID, hcontrol, hlogMessageInterval, _⟩ := hargs
  have htype := get_messageType src base pre
  simp only [fields, copiedFields, List.forall₂_cons, htype, hversion, hlength, hdomain, hreserved,
    hflags, hcorrection, hreserved2, houi, huuid, hnodePort, hsequenceID, hcontrol,
    hlogMessageInterval]
  exact ⟨stores_byte 0 0 0, stores_getByte src base 1 _, stores_getHton16 src base 2 _,
    stores_getByte src base 4 _, stores_getByte src base 5 _, stores_getHton16 src base 6 _,
    stores_getCorrection src base, stores_getHton src base 16 _,
    VxlanHeader.stores_getTriple 20 src base, stores_getUuid src base,
    stores_getHton16 src base 28 _, stores_getHton16 src base 30 _, stores_getByte src base 32 _,
    stores_getByte src base 33 _, .nil⟩

/-- A header comes back exactly if it is a sync message. -/
theorem roundTrip_iff_sync (pre : Option String) (src dst : Memory) (base : Nat) :
    RoundTrip pre src dst base ↔ src base = 0 := by
  have hslots : (copiedFields src base).map FieldBytes.slot = [(0, 1), (1, 1), (2, 2), (4, 1),
      (5, 1), (6, 2), (8, 8), (16, 4), (20, 3), (23, 5), (28, 2), (30, 2), (32, 1), (33, 1)] := rfl
  have hempty : Holds dst base [] := nofun
  obtain ⟨dst', hfill, hholds⟩ := runSetters_holds (stores_fields src base pre)
    (by rw [hslots]; decide) (by simp) hempty
  have hfills : Fills ((copiedFields src base).map FieldBytes.slot) 34 := by
    rw [hslots]
    decide
  rw [RoundTrip, fill, hholds.copies_iff hfill hfills]
  simp only [copiedFields, List.nil_append, Holds, List.forall_mem_cons, holdsField_load]
  simp [HoldsField, Memory.load]

/-! ## Network order -/

theorem stores_unique {setter : Setter} {arg : Option Value} {offset : Nat}
    {first second : List UInt8} (hfirst : Stores setter arg ⟨offset, first⟩)
    (hsecond : Stores setter arg ⟨offset, second⟩) (hlength : first.length = second.length) :
    first = second := by
  have hstore := Option.some.inj ((hfirst (fun _ => 0) 0).symm.trans (hsecond (fun _ => 0) 0))
  have hload := congrArg (fun mem => Memory.load mem (0 + offset) first.length) hstore
  simp only at hload
  rw [Memory.load_store, hlength, Memory.load_store] at hload
  exact hload

theorem stores_oui (oui : BitVec 24) :
    Stores setOui (some (.number oui.toNat)) ⟨20, bigEndian 3 oui.toNat⟩ := by
  have houi := VxlanHeader.stores_triple 20 oui.toNat
  have hbytes : bigEndian 4 oui.toNat = 0 :: bigEndian 3 oui.toNat := by
    rw [bigEndian, Nat.div_eq_of_lt oui.isLt]
    rfl
  have hbits := Memory.bigEndian_bits (tobit oui.toNat)
  have hnumber : (tobit oui.toNat).toNat = oui.toNat := by
    rw [tobit_natCast, BitVec.toNat_ofNat, Nat.mod_eq_of_lt (oui.isLt.trans (by decide))]
  rw [hnumber, hbytes] at hbits
  rw [← (List.cons.inj hbits).2] at houi
  exact houi

theorem stores_uuid_number (high : UInt8) (low : BitVec 32) :
    Stores setUuid (some (.words [BitVec.ofNat 32 high.toNat, low]))
      ⟨23, bigEndian 5 (high.toNat * 2 ^ 32 + low.toNat)⟩ := by
  have huuid := stores_uuid (BitVec.ofNat 32 high.toNat) low
  have hhigh : (⟨(BitVec.ofNat 32 high.toNat).setWidth (8 * 1)⟩ : UInt8) = high := by
    apply UInt8.toNat_inj.mp
    have hlt := high.toNat_lt
    rw [UInt8.toNat, BitVec.toNat_setWidth, BitVec.toNat_ofNat]
    omega
  have happend := bigEndian_append high.toNat low.toNat 1 4 low.isLt
  rw [bigEndian_one, UInt8.ofNat_toNat, List.singleton_append] at happend
  rw [hhigh, happend] at huuid
  exact huuid

/-- Every field is in network order, but the correction field has its two halves the wrong way
around. -/
theorem storedBigEndian_iff (values : PtpValues) :
    StoredBigEndian values ↔ values.correction.1 = values.correction.2 := by
  have hhigh := values.correction.1.isLt
  have hlow := values.correction.2.isLt
  have hactual := stores_correction values.correction.1 values.correction.2
  rw [bigEndian_append values.correction.2.toNat values.correction.1.toNat 4 4 hhigh] at hactual
  constructor
  · intro hstored
    have hbytes := stores_unique hactual hstored.correction (by simp)
    have hnumbers := bigEndian_inj (by omega) (by omega) hbytes
    apply BitVec.eq_of_toNat_eq
    omega
  · intro hequal
    have hreserved2 := stores_hton 16 0 values.reserved2.toNat
    rw [tobit_natCast, BitVec.toNat_ofNat, Nat.mod_eq_of_lt values.reserved2.toNat_lt] at hreserved2
    refine ⟨stores_hton16 2 _ values.length.toNat_lt, stores_hton16 6 _ values.flags.toNat_lt, ?_,
      hreserved2, stores_oui values.oui, stores_uuid_number values.uuid.1 values.uuid.2,
      stores_hton16 28 _ values.nodePort.toNat_lt, stores_hton16 30 _ values.sequenceID.toNat_lt⟩
    rw [← hequal] at hactual ⊢
    exact hactual

/-- For all headers and all values: the message type 0 is the only one that comes back, and
the correction fields with equal halves are the only ones in network order. -/
theorem roundTrip_and_bigEndian_iff (pre : Option String) (src dst : Memory) (base : Nat)
    (values : PtpValues) :
    (RoundTrip pre src dst base ↔ src base = 0) ∧
      (StoredBigEndian values ↔ values.correction.1 = values.correction.2) :=
  ⟨roundTrip_iff_sync pre src dst base, storedBigEndian_iff values⟩

/-- A delay response, and a correction by 1. -/
theorem delayResp_not_roundTrip :
    ¬ RoundTrip none (fun i => if i = 0 then 9 else 0) (fun _ => 0) 0 ∧
      ¬ StoredBigEndian ⟨44, 0, (0, 1), 0, 0, (0, 0), 1, 0⟩ := by
  rw [roundTrip_iff_sync, storedBigEndian_iff]
  decide

end PtpHeader

end Libmoon.Packet
