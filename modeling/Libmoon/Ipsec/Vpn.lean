import Libmoon.Packet.StoredFields

/-! # ESP in tunnel mode

An inner packet is put behind an Ethernet, an IPv4 and an ESP header. It is followed by
padding up to a multiple of four bytes, the ESP trailer and the integrity check value. What
arrives is taken apart by the length in the IPv4 header and by the pad length in the
trailer, neither of which is checked. Encryption in between does not change the bytes here.
-/

namespace Libmoon.Ipsec

open Foundation Libmoon.Packet

universe u

/-- Where the payload of `getEthPacket` begins. -/
def ethPayload : ℕ := headerSize .ethernet (some .default)

/-- Where the payload of `getIPPacket` begins. -/
def ipPayload : ℕ := ethPayload + headerSize .ip4 none

/-- Where the payload of `getEspPacket` begins. -/
def espPayload : ℕ := ipPayload + headerSize .esp none

/-- A message buffer. What is neither a byte nor a length is metadata. -/
structure Mbuf (Metadata : Type u) where
  /-- The bytes in front of the packet, the nearest one first. -/
  headroom : Memory
  /-- The bytes from `getData` on. -/
  data : Memory
  pktLen : BitVec 32
  dataLen : BitVec 16
  metadata : Metadata

/-- `ffi.copy`. The length becomes a `size_t`. -/
def copy (dst : Memory) (start : ℕ) (src : Memory) (origin : ℕ) (len : ℤ) : Memory :=
  dst.store start (src.load origin (BitVec.ofInt 64 len).toNat)

variable {Metadata : Type u}

namespace Mbuf

/-- The byte at a distance from the beginning of the packet. -/
def byte (buf : Mbuf Metadata) : ℤ → UInt8
  | .ofNat i => buf.data i
  | .negSucc i => buf.headroom i

/-- `mem:alloc(l)`, where the pool hands out this buffer. -/
def alloc (fresh : Mbuf Metadata) (l : ℤ) : Mbuf Metadata :=
  { fresh with pktLen := BitVec.ofInt 32 l, dataLen := BitVec.ofInt 16 l }

/-- `pkt.ip4:getLength()`. -/
def ip4Length (buf : Mbuf Metadata) : ℤ := getLength (buf.data.word (ethPayload + 2) 2)

end Mbuf

/-- `pkt.ip4:setLength(int)`. -/
def setIp4Length (data : Memory) (int : ℕ) : Memory :=
  let len : BitVec (8 * 2) := storeLength int
  data.setWord (ethPayload + 2) len

/-- The number of extra padding bytes for a 4 byte alignment. -/
def calcExtraPad (payloadLen : ℕ) : ℕ :=
  let idx := ⌈(payloadLen : ℚ) / 4⌉₊
  let idx8 := idx * 4
  idx8 - payloadLen

/-- Where `get_extra_pad` looks for the pad length, counted from the beginning of the packet. -/
def padLengthIndex (buf : Mbuf Metadata) : ℤ :=
  let payloadLen := buf.ip4Length - 20
  ipPayload + (payloadLen - 16 - 1 - 1)

/-- The number of extra padding bytes included in a packet. -/
def getExtraPad (buf : Mbuf Metadata) : ℤ :=
  let espPaddingLen := (buf.byte (padLengthIndex buf)).toNat
  espPaddingLen - 2

section Encapsulation

variable (setESPTrailerLength : ℕ → Metadata → Metadata)

/-- Append an ESP trailer and an empty check value, and tell the hardware about it. -/
def addEspTrailer (buf : Mbuf Metadata) (payloadLen nextHdr : ℕ) : Mbuf Metadata :=
  let idx := ⌈(payloadLen : ℚ) / 4⌉₊
  let idx8 := idx * 4
  let extraPad := idx8 - payloadLen
  let padLen := 2 + extraPad
  let espTrailerLen := 20 + extraPad
  let data := buf.data.setWord (espPayload + (idx8 + 0)) (BitVec.ofNat (8 * 1) 0x00)
  let data := data.setWord (espPayload + (idx8 + 1)) (BitVec.ofNat (8 * 1) 0x00)
  let data := data.setWord (espPayload + (idx8 + 2)) (BitVec.ofNat (8 * 1) padLen)
  let data := data.setWord (espPayload + (idx8 + 3)) (BitVec.ofNat (8 * 1) nextHdr)
  let data := data.setWord (espPayload + 4 * (idx + 1)) (BitVec.ofNat (8 * 4) 0x00)
  let data := data.setWord (espPayload + 4 * (idx + 2)) (BitVec.ofNat (8 * 4) 0x00)
  let data := data.setWord (espPayload + 4 * (idx + 3)) (BitVec.ofNat (8 * 4) 0x00)
  let data := data.setWord (espPayload + 4 * (idx + 4)) (BitVec.ofNat (8 * 4) 0x00)
  { buf with data := data, metadata := setESPTrailerLength espTrailerLen buf.metadata }

/-- Put an IP packet into a fresh buffer, behind new headers. -/
def espVpnEncapsulate (buf : Mbuf Metadata) (len : ℕ) (fresh : Mbuf Metadata) : Mbuf Metadata :=
  let extraPad := calcExtraPad len
  let newLen : ℕ := 14 + 20 + 16 + len + extraPad + 20
  let mybuf := fresh.alloc newLen
  let data := setIp4Length mybuf.data (newLen - 14)
  let data := copy data espPayload buf.data ethPayload len
  addEspTrailer setESPTrailerLength { mybuf with data := data } len 0x4

end Encapsulation

/-- The length of a packet that is decapsulated. -/
def decapsulatedLength (buf : Mbuf Metadata) (len : ℤ) : ℤ :=
  let extraPad := getExtraPad buf
  14 + len - extraPad - 20 - 16 - 20

/-- Put the inner packet into a fresh buffer. There is a result for every packet. -/
def espVpnDecapsulate (buf : Mbuf Metadata) (len : ℤ) (fresh : Mbuf Metadata) : Mbuf Metadata :=
  let newLen := decapsulatedLength buf len
  let mybuf := fresh.alloc newLen
  { mybuf with data := copy mybuf.data ethPayload buf.data espPayload (newLen - 14) }

/-- A buffer carries an inner packet with some bytes of extra padding. -/
structure Carries (esp : Mbuf Metadata) (inner : List UInt8) (extraPad : ℕ) : Prop where
  extraPad_lt : extraPad < 4
  aligned : 4 ∣ inner.length + extraPad + 4
  pktLen : esp.pktLen.toNat = espPayload + (inner.length + extraPad + 4) + 16
  ip4Length : esp.ip4Length = (esp.pktLen.toNat - ethPayload : ℕ)
  payload : esp.data.load espPayload inner.length = inner
  trailer : esp.data.load (espPayload + (inner.length + extraPad)) 20 =
    [0, 0, UInt8.ofNat (2 + extraPad), 4] ++ List.replicate 16 0

/-! ## Encapsulation -/

theorem ceil_div_four (number : ℕ) : ⌈(number : ℚ) / 4⌉₊ = (number + 3) / 4 := by
  have hceil := Rat.ceil_natCast_div_natCast number 4
  rw [Nat.cast_ofNat] at hceil
  rw [← Int.ceil_toNat, hceil]
  omega

theorem calcExtraPad_eq (payloadLen : ℕ) :
    calcExtraPad payloadLen = (payloadLen + 3) / 4 * 4 - payloadLen := by
  rw [calcExtraPad, ceil_div_four]

theorem calcExtraPad_spec (payloadLen : ℕ) :
    calcExtraPad payloadLen < 4 ∧ 4 ∣ payloadLen + calcExtraPad payloadLen := by
  rw [calcExtraPad_eq]
  omega

theorem getLength_setIp4Length (data : Memory) {int : ℕ} (hint : int < 2 ^ 16) :
    getLength ((setIp4Length data int).word (ethPayload + 2) 2) = int := by
  rw [setIp4Length, Memory.word_setWord]
  exact getLength_storeLength hint

theorem copy_natCast (dst : Memory) (start : ℕ) (src : Memory) (origin : ℕ) {len : ℕ}
    (hlen : len < 2 ^ 64) :
    copy dst start src origin len = dst.store start (src.load origin len) := by
  rw [copy, BitVec.ofInt_natCast, BitVec.toNat_ofNat, Nat.mod_eq_of_lt hlen]

section Encapsulation

variable (setESPTrailerLength : ℕ → Metadata → Metadata)

/-- The trailer and the check value are adjacent. -/
theorem data_addEspTrailer (buf : Mbuf Metadata) (payloadLen nextHdr : ℕ) :
    (addEspTrailer setESPTrailerLength buf payloadLen nextHdr).data =
      buf.data.store (espPayload + (payloadLen + calcExtraPad payloadLen))
        ([0, 0, UInt8.ofNat (2 + calcExtraPad payloadLen), UInt8.ofNat nextHdr] ++
          List.replicate 16 0) := by
  have hbase : payloadLen + calcExtraPad payloadLen = ⌈(payloadLen : ℚ) / 4⌉₊ * 4 := by
    rw [calcExtraPad_eq, ceil_div_four]
    omega
  have hzero (mem : Memory) (start : ℕ) :
      mem.setWord start (BitVec.ofNat (8 * 4) 0) = mem.store start [0, 0, 0, 0] := by
    rw [Memory.setWord_eq_store]
    rfl
  have hjoin (mem : Memory) (first second : List UInt8) {start : ℕ}
      (hstart : start = espPayload + (payloadLen + calcExtraPad payloadLen) + first.length) :
      (mem.store (espPayload + (payloadLen + calcExtraPad payloadLen)) first).store start second =
        mem.store (espPayload + (payloadLen + calcExtraPad payloadLen)) (first ++ second) := by
    rw [hstart, Memory.store_append]
  have hbegin : espPayload + (⌈(payloadLen : ℚ) / 4⌉₊ * 4 + 0) =
      espPayload + (payloadLen + calcExtraPad payloadLen) := by
    omega
  simp only [addEspTrailer, Memory.setWord_byte, hzero, hbegin]
  rw [hjoin _ _ _ (by simp; omega), hjoin _ _ _ (by simp; omega), hjoin _ _ _ (by simp; omega),
    hjoin _ _ _ (by simp; omega), hjoin _ _ _ (by simp; omega), hjoin _ _ _ (by simp; omega),
    hjoin _ _ _ (by simp; omega)]
  rfl

theorem data_espVpnEncapsulate (buf : Mbuf Metadata) {len : ℕ} (fresh : Mbuf Metadata)
    (hlen : len < 2 ^ 64) :
    (espVpnEncapsulate setESPTrailerLength buf len fresh).data =
      ((setIp4Length fresh.data (56 + len + calcExtraPad len)).store espPayload
        (buf.data.load ethPayload len)).store (espPayload + (len + calcExtraPad len))
          ([0, 0, UInt8.ofNat (2 + calcExtraPad len), 4] ++ List.replicate 16 0) := by
  have hnumber : 14 + 20 + 16 + len + calcExtraPad len + 20 - 14 = 56 + len + calcExtraPad len := by
    omega
  rw [espVpnEncapsulate, data_addEspTrailer]
  simp only [copy_natCast _ _ _ _ hlen, hnumber]
  rfl

/-- What is encapsulated is carried. -/
theorem carries_espVpnEncapsulate (buf : Mbuf Metadata) {len : ℕ} (fresh : Mbuf Metadata)
    (hlen : len + calcExtraPad len + 56 ≤ 65535) :
    Carries (espVpnEncapsulate setESPTrailerLength buf len fresh) (buf.data.load ethPayload len)
      (calcExtraPad len) := by
  obtain ⟨hlt, hdvd⟩ := calcExtraPad_spec len
  have hdata := data_espVpnEncapsulate setESPTrailerLength buf fresh
    (Nat.lt_of_le_of_lt (show len ≤ 65535 by omega) (by decide))
  have hpktLen : (espVpnEncapsulate setESPTrailerLength buf len fresh).pktLen.toNat =
      14 + 20 + 16 + len + calcExtraPad len + 20 := by
    change (BitVec.ofInt 32 (14 + 20 + 16 + len + calcExtraPad len + 20 : ℕ)).toNat = _
    rw [BitVec.ofInt_natCast, BitVec.toNat_ofNat, Nat.mod_eq_of_lt (by omega)]
  have hpayload : espPayload = 50 := rfl
  have hethPayload : ethPayload = 14 := rfl
  refine ⟨hlt, ?_, ?_, ?_, ?_, ?_⟩
  · rw [Memory.length_load]
    omega
  · rw [hpktLen, Memory.length_load]
    omega
  · -- the length is in front of what is copied
    have hword :
        (espVpnEncapsulate setESPTrailerLength buf len fresh).data.word (ethPayload + 2) 2 =
          (setIp4Length fresh.data (56 + len + calcExtraPad len)).word (ethPayload + 2) 2 := by
      rw [hdata]
      apply Memory.word_congr
      intro j hj
      rw [Memory.store_of_lt _ _ (by omega), Memory.store_of_lt _ _ (by omega)]
    rw [Mbuf.ip4Length, hword, getLength_setIp4Length _ (by omega), hpktLen]
    omega
  · rw [hdata, Memory.length_load, Memory.load_store_of_le _ _ (by omega)]
    have hload := (setIp4Length fresh.data (56 + len + calcExtraPad len)).load_store espPayload
      (buf.data.load ethPayload len)
    rwa [Memory.length_load] at hload
  · rw [hdata, Memory.length_load]
    exact Memory.load_store _ _ _

end Encapsulation

/-! ## Decapsulation -/

namespace Carries

variable {esp : Mbuf Metadata} {inner : List UInt8} {extraPad : ℕ}

/-- The pad length is where it is looked for. -/
theorem padLengthIndex_eq (hcarries : Carries esp inner extraPad) :
    padLengthIndex esp = (espPayload + (inner.length + extraPad) + 2 : ℕ) := by
  have hlength := hcarries.ip4Length
  have hpktLen := hcarries.pktLen
  have hethPayload : ethPayload = 14 := rfl
  have hipPayload : ipPayload = 34 := rfl
  have hespPayload : espPayload = 50 := rfl
  simp only [padLengthIndex]
  omega

theorem getExtraPad_eq (hcarries : Carries esp inner extraPad) : getExtraPad esp = extraPad := by
  have hbyte : esp.byte (padLengthIndex esp) = UInt8.ofNat (2 + extraPad) := by
    have hget := Memory.getD_load esp.data (espPayload + (inner.length + extraPad))
      (show 2 < 20 by decide)
    rw [hcarries.trailer] at hget
    rw [hcarries.padLengthIndex_eq]
    exact hget.symm
  have hlt := hcarries.extraPad_lt
  rw [getExtraPad, hbyte, UInt8.toNat_ofNat', Nat.mod_eq_of_lt (by omega)]
  omega

theorem decapsulatedLength_eq (hcarries : Carries esp inner extraPad) :
    decapsulatedLength esp esp.ip4Length = (ethPayload + inner.length : ℕ) := by
  have hlength := hcarries.ip4Length
  have hpktLen := hcarries.pktLen
  have hethPayload : ethPayload = 14 := rfl
  have hespPayload : espPayload = 50 := rfl
  rw [decapsulatedLength, hcarries.getExtraPad_eq]
  omega

/-- What is carried is decapsulated. -/
theorem espVpnDecapsulate_eq (hcarries : Carries esp inner extraPad) (fresh : Mbuf Metadata) :
    espVpnDecapsulate esp esp.ip4Length fresh =
      { fresh.alloc (ethPayload + inner.length : ℕ) with
        data := fresh.data.store ethPayload inner } := by
  have hlt : inner.length < 2 ^ 64 := by
    have hpktLen := hcarries.pktLen
    have hwidth := esp.pktLen.isLt
    omega
  have hcount : ((ethPayload + inner.length : ℕ) : ℤ) - 14 = inner.length := by
    rw [Nat.cast_add]
    exact add_sub_cancel_left _ _
  simp only [espVpnDecapsulate, hcarries.decapsulatedLength_eq, hcount, copy_natCast _ _ _ _ hlt,
    hcarries.payload]
  rfl

end Carries

/-- Decapsulation undoes encapsulation, and the trailer of what is in between is aligned. -/
theorem espVpnDecapsulate_encapsulate (setESPTrailerLength : ℕ → Metadata → Metadata)
    (buf freshEsp freshEth : Mbuf Metadata) {len : ℕ} (hlen : len + calcExtraPad len + 56 ≤ 65535) :
    let esp := espVpnEncapsulate setESPTrailerLength buf len freshEsp
    let eth := espVpnDecapsulate esp esp.ip4Length freshEth
    eth.data.load ethPayload len = buf.data.load ethPayload len ∧
      eth.pktLen.toNat = 14 + len ∧ eth.dataLen.toNat = 14 + len ∧
      Carries esp (buf.data.load ethPayload len) (calcExtraPad len) := by
  intro esp eth
  have hcarries : Carries esp (buf.data.load ethPayload len) (calcExtraPad len) :=
    carries_espVpnEncapsulate setESPTrailerLength buf freshEsp hlen
  have heth : eth = { freshEth.alloc (ethPayload + len : ℕ) with
      data := freshEth.data.store ethPayload (buf.data.load ethPayload len) } := by
    have heq := hcarries.espVpnDecapsulate_eq freshEth
    rwa [Memory.length_load] at heq
  have hethPayload : ethPayload = 14 := rfl
  refine ⟨?_, ?_, ?_, hcarries⟩
  · have hload := freshEth.data.load_store ethPayload (buf.data.load ethPayload len)
    rw [Memory.length_load] at hload
    rw [heth]
    exact hload
  · rw [heth]
    change (BitVec.ofInt 32 (ethPayload + len : ℕ)).toNat = _
    rw [BitVec.ofInt_natCast, BitVec.toNat_ofNat, Nat.mod_eq_of_lt (by omega), hethPayload]
  · rw [heth]
    change (BitVec.ofInt 16 (ethPayload + len : ℕ)).toNat = _
    rw [BitVec.ofInt_natCast, BitVec.toNat_ofNat, Nat.mod_eq_of_lt (by omega), hethPayload]

/-- A buffer that has not been used. -/
def blankBuffer : Mbuf Unit := ⟨fun _ => 0, fun _ => 0, 0, 0, ()⟩

theorem espVpnDecapsulate_encapsulate_five :
    let esp := espVpnEncapsulate (fun _ metadata => metadata)
      { blankBuffer with data := fun i => UInt8.ofNat i } 5 blankBuffer
    let eth := espVpnDecapsulate esp esp.ip4Length blankBuffer
    eth.data.load ethPayload 5 = [14, 15, 16, 17, 18] ∧ eth.pktLen.toNat = 19 ∧
      eth.dataLen.toNat = 19 ∧ Carries esp [14, 15, 16, 17, 18] (calcExtraPad 5) :=
  espVpnDecapsulate_encapsulate (fun _ metadata => metadata)
    { blankBuffer with data := fun i => UInt8.ofNat i } blankBuffer blankBuffer (by
      rw [calcExtraPad_eq]
      decide)

/-! ## What is trusted -/

/-- The pad length is read inside of the packet, and what is copied is a part of it that
leaves room for the headers, the default padding and the check value. -/
structure Safe (buf : Mbuf Metadata) (len : ℤ) : Prop where
  index_nonneg : 0 ≤ padLengthIndex buf
  index_lt : padLengthIndex buf < ethPayload + len
  copied_nonneg : 0 ≤ decapsulatedLength buf len - 14
  copied_le : decapsulatedLength buf len - 14 ≤ len - 56
  copied_inside : espPayload + (decapsulatedLength buf len - 14) ≤ ethPayload + len

/-- The two fields that decapsulation trusts have sensible values. -/
structure WellPadded (buf : Mbuf Metadata) (len : ℤ) : Prop where
  ip4Length_ge : 4 ≤ buf.ip4Length
  ip4Length_lt : buf.ip4Length < len + 18
  padLength_ge : 2 ≤ (buf.byte (buf.ip4Length - 4)).toNat
  padLength_le : (buf.byte (buf.ip4Length - 4)).toNat + 54 ≤ len

section Trust

variable {buf : Mbuf Metadata} {len : ℤ}

theorem padLengthIndex_eq (buf : Mbuf Metadata) : padLengthIndex buf = buf.ip4Length - 4 := by
  have hipPayload : ipPayload = 34 := rfl
  simp only [padLengthIndex]
  omega

theorem safe_iff_wellPadded : Safe buf len ↔ WellPadded buf len := by
  have hindex := padLengthIndex_eq buf
  have hcopied : decapsulatedLength buf len =
      len - (buf.byte (buf.ip4Length - 4)).toNat - 40 := by
    rw [decapsulatedLength, getExtraPad, hindex]
    omega
  have hethPayload : ethPayload = 14 := rfl
  have hespPayload : espPayload = 50 := rfl
  constructor
  · rintro ⟨hnonneg, hlt, hcopiedNonneg, hcopiedLe, -⟩
    exact ⟨by omega, by omega, by omega, by omega⟩
  · rintro ⟨hge, hlt, hpadGe, hpadLe⟩
    exact ⟨by omega, by omega, by omega, by omega, by omega⟩

/-- A safe decapsulation does not depend on anything outside of the packet. -/
theorem Safe.espVpnDecapsulate_congr (hsafe : Safe buf len) {buf' : Mbuf Metadata}
    (hagree : ∀ i : ℕ, i < ethPayload + len → buf'.data i = buf.data i) (fresh : Mbuf Metadata) :
    espVpnDecapsulate buf' len fresh = espVpnDecapsulate buf len fresh := by
  obtain ⟨hnonneg, hlt, hcopiedNonneg, hcopiedLe, hinside⟩ := hsafe
  have hethPayload : ethPayload = 14 := rfl
  have hespPayload : espPayload = 50 := rfl
  have hlength : buf'.ip4Length = buf.ip4Length := by
    refine congrArg getLength (Memory.word_congr fun j hj => hagree _ ?_)
    omega
  have hindex : padLengthIndex buf' = padLengthIndex buf := by
    rw [padLengthIndex_eq, padLengthIndex_eq, hlength]
  have hbyte : buf'.byte (padLengthIndex buf) = buf.byte (padLengthIndex buf) := by
    obtain ⟨index, hnat⟩ := Int.eq_ofNat_of_zero_le hnonneg
    rw [hnat] at hlt ⊢
    exact hagree index hlt
  have hnewLen : decapsulatedLength buf' len = decapsulatedLength buf len := by
    rw [decapsulatedLength, decapsulatedLength, getExtraPad, getExtraPad, hindex, hbyte]
  obtain ⟨count, hcount⟩ := Int.eq_ofNat_of_zero_le hcopiedNonneg
  have hcopy (dst : Memory) :
      copy dst ethPayload buf'.data espPayload (decapsulatedLength buf len - 14) =
        copy dst ethPayload buf.data espPayload (decapsulatedLength buf len - 14) := by
    rw [hcount, copy, copy, Memory.load_congr]
    intro i _ hi
    have hle : (BitVec.ofInt 64 (count : ℤ)).toNat ≤ count := by
      rw [BitVec.ofInt_natCast, BitVec.toNat_ofNat]
      exact Nat.mod_le _ _
    exact hagree i (by omega)
  simp only [espVpnDecapsulate, hnewLen, hcopy]

/-- What is carried is decapsulated safely. -/
theorem Carries.safe {esp : Mbuf Metadata} {inner : List UInt8} {extraPad : ℕ}
    (hcarries : Carries esp inner extraPad) : Safe esp esp.ip4Length := by
  have hindex := hcarries.padLengthIndex_eq
  have hnewLen := hcarries.decapsulatedLength_eq
  have hlength := hcarries.ip4Length
  have hpktLen := hcarries.pktLen
  have hethPayload : ethPayload = 14 := rfl
  have hespPayload : espPayload = 50 := rfl
  exact ⟨by omega, by omega, by omega, by omega, by omega⟩

/-- No packet is rejected. The accesses are inside exactly for sensible fields, and then
nothing outside matters. -/
theorem espVpnDecapsulate_safe_iff (buf : Mbuf Metadata) (len : ℤ) :
    (Safe buf len ↔ WellPadded buf len) ∧
      (WellPadded buf len → ∀ buf' : Mbuf Metadata,
        (∀ i : ℕ, i < ethPayload + len → buf'.data i = buf.data i) → ∀ fresh,
          espVpnDecapsulate buf' len fresh = espVpnDecapsulate buf len fresh) := by
  refine ⟨safe_iff_wellPadded, fun hpadded buf' hagree fresh => ?_⟩
  exact (safe_iff_wellPadded.mpr hpadded).espVpnDecapsulate_congr hagree fresh

/-- A packet of 84 bytes with a pad length of 255. -/
def overPadded : Mbuf Unit where
  headroom _ := 0
  data i := if i = 17 then 84 else if i = 80 then 255 else 0
  pktLen := 98
  dataLen := 98
  metadata := ()

theorem overPadded_not_safe : ¬ ∀ (buf : Mbuf Unit) (len : ℤ), Safe buf len := by
  intro hall
  have hnonneg := (hall overPadded 84).copied_nonneg
  have hlength : decapsulatedLength overPadded 84 = -211 := by decide
  rw [hlength] at hnonneg
  omega

end Trust

end Libmoon.Ipsec
