import Libmoon.Packet.InternetChecksum
import Libmoon.Packet.PseudoHeaderSums

/-! # TCP checksum in software

`tcpHeader:calculateChecksum` has the sum of the pseudo header written into the packet by a
C function and adds up the segment with it. For IPv4 that sum is written into the checksum
field, for IPv6 it is written where the checksum of a UDP header would be, which is in the
sequence number. Words are added in host order throughout; what a correct checksum is, is
said in network order.
-/

namespace Libmoon.Packet

open Foundation

/-- `tcpHeader:calculateChecksum`. -/
def TcpHeader.calculateChecksum (mem : Memory) (self data len : Nat) (ipv4 : Bool) :
    Option Memory :=
  if ipv4 then
    let mem := calcIpv4PseudoHeaderChecksum mem data 25
    setChecksum (some (.number (bswap16 (checksum mem self (len - (14 + 20)))).toInt)) mem self
  else
    let mem := calcIpv6PseudoHeaderChecksum mem data 30
    setChecksum (some (.number (bswap16 (checksum mem self (len - (14 + 40)))).toInt)) mem self

/-! ## What a checksum is for -/

/-- An Ethernet packet of `len` bytes with a TCP segment directly behind an IP header. -/
inductive TcpPacket (mem : Memory) (data len : Nat) : Bool → Prop where
  | ip4 (hversion : mem (data + 14) = 0x45) (hproto : mem (data + 23) = 6)
      (hlen : len = 14 + netWord mem (data + 16)) (hsegment : 14 + 20 + 20 ≤ len) :
      TcpPacket mem data len true
  | ip6 (hversion : mem (data + 14) >>> 4 = 6) (hproto : mem (data + 20) = 6)
      (hlen : len = 14 + 40 + netWord mem (data + 18)) (hsegment : 14 + 40 + 20 ≤ len) :
      TcpPacket mem data len false

/-- The length of the headers in front of the segment. -/
def headersLength : Bool → Nat
  | true => 14 + 20
  | false => 14 + 40

/-- The pseudo header of a segment. -/
def pseudoHeader (mem : Memory) (data length : Nat) : Bool → List UInt8
  | true => mem.load (data + 26) 8 ++ ([0, 6] ++ be16 length)
  | false => mem.load (data + 22) 32 ++ ([0, 0] ++ be16 length ++ [0, 0, 0, 6])

/-- The checksum of a packet is right. -/
def Verifies (mem : Memory) (data len : Nat) (ipv4 : Bool) : Prop :=
  onesSum (networkWords (pseudoHeader mem data (len - headersLength ipv4) ipv4 ++
    mem.load (data + headersLength ipv4) (len - headersLength ipv4))) = 0xFFFF

/-- `calculateChecksum` makes the checksum of a packet right and leaves the rest of it as
it is. -/
def SetsChecksum (mem : Memory) (data len : Nat) (ipv4 : Bool) : Prop :=
  ∃ mem', TcpHeader.calculateChecksum mem (data + headersLength ipv4) data len ipv4 = some mem' ∧
    Verifies mem' data len ipv4 ∧
    ∀ i, data ≤ i → i < data + len →
      ¬ (data + headersLength ipv4 + 16 ≤ i ∧ i < data + headersLength ipv4 + 18) → mem' i = mem i

/-- The sum of the pseudo header is in the sequence number already, and in the checksum field. -/
structure HoldsSum (mem : Memory) (data len : Nat) : Prop where
  sequence : netWord mem (data + 60) =
    onesSum (networkWords (pseudoHeader mem data (len - headersLength false) false))
  checksum : netWord mem (data + 70) % 0xFFFF =
    onesSum (networkWords (pseudoHeader mem data (len - headersLength false) false)) % 0xFFFF

/-! ## The pseudo header -/

theorem pseudoHeader_ip4 {mem : Memory} {data : Nat} (hproto : mem (data + 23) = 6) :
    pseudoHeader mem data (netWord mem (data + 16) - 20) true = ipv4Psd mem (data + 14) := by
  have hid : mem (data + 14 + 9) = 6 := hproto
  rw [ipv4Psd, hid]
  rfl

theorem pseudoHeader_ip6 {mem : Memory} {data : Nat} (hproto : mem (data + 20) = 6) :
    pseudoHeader mem data (netWord mem (data + 18)) false = ipv6Psd mem (data + 14) := by
  have hid : mem (data + 14 + 6) = 6 := hproto
  rw [pseudoHeader, be16_netWord, ipv6Psd, hid]

/-! ## The checksum of the packet -/

/-- The segment begins a word of its own behind the pseudo header. -/
theorem pseudoHeader_even (mem : Memory) (data length : Nat) (ipv4 : Bool) :
    (pseudoHeader mem data length ipv4).length % 2 = 0 := by
  cases ipv4 <;> simp [pseudoHeader, be16]

/-- The protocol makes it positive. -/
theorem hostSum_pseudoHeader_pos (mem : Memory) (data length : Nat) (ipv4 : Bool) :
    0 < hostSum (pseudoHeader mem data length ipv4) := by
  cases ipv4 with
  | false =>
      have hproto : hostSum [0, 0, 0, (6 : UInt8)] = 1536 := rfl
      rw [pseudoHeader, hostSum_append (by simp),
        hostSum_append (by simp [be16]), hproto]
      omega
  | true =>
      have hproto : hostSum [0, (6 : UInt8)] = 1536 := rfl
      rw [pseudoHeader, hostSum_append (by simp), hostSum_append (by simp), hproto]
      omega

theorem pseudoHeader_congr {mem mem' : Memory} {data : Nat} (length : Nat) {ipv4 : Bool}
    (hagree : ∀ i, data ≤ i → i < data + headersLength ipv4 → mem' i = mem i) :
    pseudoHeader mem' data length ipv4 = pseudoHeader mem data length ipv4 := by
  cases ipv4 with
  | false =>
      have hload : mem'.load (data + 22) 32 = mem.load (data + 22) 32 :=
        Memory.load_congr fun i hle hi => hagree i (by omega) (by rw [headersLength]; omega)
      rw [pseudoHeader, hload, pseudoHeader]
  | true =>
      have hload : mem'.load (data + 26) 8 = mem.load (data + 26) 8 :=
        Memory.load_congr fun i hle hi => hagree i (by omega) (by rw [headersLength]; omega)
      rw [pseudoHeader, hload, pseudoHeader]

/-- The checksum that is written is right exactly if the field held the sum of the pseudo
header before, as a number in one's complement. -/
theorem verifies_setChecksum_iff {mem : Memory} {data len : Nat} {ipv4 : Bool}
    (hlen : headersLength ipv4 + 20 ≤ len) :
    Verifies (mem.setWord (data + headersLength ipv4 + 16)
      (complement (hostSum (mem.load (data + headersLength ipv4) (len - headersLength ipv4)))))
        data len ipv4 ↔
      (mem.word (data + headersLength ipv4 + 16) 2).toNat % 0xFFFF =
        hostSum (pseudoHeader mem data (len - headersLength ipv4) ipv4) % 0xFFFF := by
  generalize hself : data + headersLength ipv4 = self
  generalize hlength : len - headersLength ipv4 = length
  generalize hsegment : hostSum (mem.load self length) = segment
  have hpsd : pseudoHeader (mem.setWord (self + 16) (complement segment)) data length ipv4 =
      pseudoHeader mem data length ipv4 := by
    apply pseudoHeader_congr
    intro i _ hi
    exact Memory.setWord_of_not_mem _ (by omega)
  have hexchange : hostSum ((mem.setWord (self + 16) (complement segment)).load self length) +
      (mem.word (self + 16) 2).toNat = segment + (0xFFFF - foldOnes segment) := by
    rw [← toNat_complement, ← hsegment]
    exact Memory.hostSum_load_setWord mem self (show 2 * 8 + 2 ≤ length by omega) _
  have hpos := hostSum_pseudoHeader_pos mem data length ipv4
  have hmod := foldOnes_mod segment
  have hlt := foldOnes_lt segment
  rw [Verifies, onesSum_eq_max_iff, hlength, hself, hostSum_append (pseudoHeader_even _ _ _ _),
    hpsd]
  constructor
  · rintro ⟨-, hdvd⟩
    omega
  · intro hheld
    omega

/-- The packet with the sum of the pseudo header where the C function has written it. -/
def withPsdSum (mem : Memory) (data : Nat) : Bool → Memory
  | true => calcIpv4PseudoHeaderChecksum mem data 25
  | false => calcIpv6PseudoHeaderChecksum mem data 30

theorem calculateChecksum_eq (mem : Memory) (data len : Nat) (ipv4 : Bool) :
    TcpHeader.calculateChecksum mem (data + headersLength ipv4) data len ipv4 =
      some ((withPsdSum mem data ipv4).setWord (data + headersLength ipv4 + 16)
        (complement (hostSum ((withPsdSum mem data ipv4).load (data + headersLength ipv4)
          (len - headersLength ipv4))))) := by
  cases ipv4 with
  | false => exact setHton16_checksum _ _ _ _ _
  | true => exact setHton16_checksum _ _ _ _ _

/-- Neither sum is written into the headers in front of the segment. -/
theorem pseudoHeader_withPsdSum (mem : Memory) (data length : Nat) (ipv4 : Bool) :
    pseudoHeader (withPsdSum mem data ipv4) data length ipv4 =
      pseudoHeader mem data length ipv4 := by
  apply pseudoHeader_congr
  intro i _ hi
  cases ipv4 with
  | false =>
      rw [headersLength] at hi
      exact Memory.setWord_of_not_mem _ (by omega)
  | true =>
      rw [headersLength] at hi
      exact Memory.setWord_of_not_mem _ (by omega)

/-- What has to hold of the packet with the sum of the pseudo header in it. -/
theorem setsChecksum_iff {mem : Memory} {data len : Nat} {ipv4 : Bool}
    (hlen : headersLength ipv4 + 20 ≤ len) :
    SetsChecksum mem data len ipv4 ↔
      ((withPsdSum mem data ipv4).word (data + headersLength ipv4 + 16) 2).toNat % 0xFFFF =
        hostSum (pseudoHeader mem data (len - headersLength ipv4) ipv4) % 0xFFFF ∧
      ∀ i, data ≤ i → i < data + len →
        ¬ (data + headersLength ipv4 + 16 ≤ i ∧ i < data + headersLength ipv4 + 18) →
          withPsdSum mem data ipv4 i = mem i := by
  rw [SetsChecksum, calculateChecksum_eq]
  simp only [Option.some.injEq, exists_eq_left']
  rw [verifies_setChecksum_iff hlen, pseudoHeader_withPsdSum]
  apply and_congr_right'
  constructor
  · intro hframe i hle hi hout
    rw [← hframe i hle hi hout, Memory.setWord_of_not_mem _ hout]
  · intro hframe i hle hi hout
    rw [Memory.setWord_of_not_mem _ hout]
    exact hframe i hle hi hout

theorem setsChecksum_ip4 {mem : Memory} {data len : Nat} (hproto : mem (data + 23) = 6)
    (hlen : len = 14 + netWord mem (data + 16)) (hsegment : 14 + 20 + 20 ≤ len) :
    SetsChecksum mem data len true := by
  have hpsd : len - headersLength true = netWord mem (data + 16) - 20 := by
    rw [headersLength]
    omega
  have hwritten : (withPsdSum mem data true).word (data + headersLength true + 16) 2 =
      getIpv4PsdSum mem (data + 14) := Memory.word_setWord mem (data + 50) _
  have hsmall : (mem (data + 14 + 9)).toNat < 2 ^ 7 := by
    have hid : mem (data + 14 + 9) = 6 := hproto
    rw [hid]
    decide
  have hlength : 20 ≤ netWord mem (data + 14 + 2) := by
    have hsame : data + 14 + 2 = data + 16 := rfl
    rw [hsame]
    omega
  rw [setsChecksum_iff (by rw [headersLength]; omega)]
  refine ⟨?_, ?_⟩
  · rw [hwritten, hpsd, pseudoHeader_ip4 hproto, toNat_getIpv4PsdSum hsmall hlength, foldOnes_mod]
  · intro i _ _ hout
    exact Memory.setWord_of_not_mem _ hout

/-- For IPv6 the sum replaces a part of the sequence number. -/
theorem withPsdSum_ip6_unchanged_iff {mem : Memory} {data len : Nat} (hlen : 14 + 40 + 20 ≤ len) :
    (∀ i, data ≤ i → i < data + len →
      ¬ (data + headersLength false + 16 ≤ i ∧ i < data + headersLength false + 18) →
        withPsdSum mem data false i = mem i) ↔
      mem.word (data + 60) 2 = getIpv6PsdSum mem (data + 14) := by
  let csum : BitVec (8 * 2) := getIpv6PsdSum mem (data + 14)
  have hwritten : withPsdSum mem data false = mem.setWord (data + 60) csum := rfl
  rw [hwritten, headersLength]
  constructor
  · intro hframe
    have hword : mem.word (data + 60) 2 = (mem.setWord (data + 60) csum).word (data + 60) 2 := by
      apply Memory.word_congr
      intro j hj
      exact (hframe (data + 60 + j) (by omega) (by omega) (by omega)).symm
    rw [hword, Memory.word_setWord]
  · intro hword i _ _ _
    have hcsum : csum = mem.word (data + 60) 2 := hword.symm
    rw [hcsum, Memory.setWord_word]

theorem setsChecksum_ip6_iff {mem : Memory} {data len : Nat} (hproto : mem (data + 20) = 6)
    (hlen : len = 14 + 40 + netWord mem (data + 18)) (hsegment : 14 + 40 + 20 ≤ len) :
    SetsChecksum mem data len false ↔ HoldsSum mem data len := by
  have hpsd : len - headersLength false = netWord mem (data + 18) := by
    rw [headersLength]
    omega
  have hfield : (withPsdSum mem data false).word (data + headersLength false + 16) 2 =
      mem.word (data + 70) 2 :=
    Memory.word_setWord_of_disjoint _ (.inr (by rw [headersLength]; omega))
  have hsum := toNat_getIpv6PsdSum mem (data + 14)
  rw [← pseudoHeader_ip6 hproto] at hsum
  have hnetwork := onesSum_networkWords (pseudoHeader mem data (netWord mem (data + 18)) false)
  rw [setsChecksum_iff (by rw [headersLength]; omega), withPsdSum_ip6_unchanged_iff hsegment,
    hfield, hpsd, ← BitVec.toNat_inj, hsum]
  have hmod := foldOnes_mod (hostSum (pseudoHeader mem data (netWord mem (data + 18)) false))
  have hswap := swap16_mod
    (foldOnes (hostSum (pseudoHeader mem data (netWord mem (data + 18)) false)))
  have hfieldSwap := swap16_mod (mem.word (data + 70) 2).toNat
  constructor
  · rintro ⟨hchecksum, hsequence⟩
    refine ⟨?_, ?_⟩
    · rw [netWord_eq, hpsd, hnetwork, hsequence]
    · rw [netWord_eq, hpsd, hnetwork]
      omega
  · rintro ⟨hsequence, hchecksum⟩
    rw [netWord_eq, hpsd, hnetwork] at hsequence hchecksum
    refine ⟨?_, swap16_inj (BitVec.isLt _) (foldOnes_lt _) hsequence⟩
    omega

/-- The checksum of every IPv4 packet is set; that of an IPv6 packet only if the packet
holds the sum of the pseudo header already. -/
theorem setsChecksum_iff_ipv4_or_holdsSum {mem : Memory} {data len : Nat} {ipv4 : Bool}
    (hpacket : TcpPacket mem data len ipv4) :
    SetsChecksum mem data len ipv4 ↔ ipv4 = true ∨ HoldsSum mem data len := by
  cases hpacket with
  | ip4 _ hproto hlen hsegment =>
      exact ⟨fun _ => .inl rfl, fun _ => setsChecksum_ip4 hproto hlen hsegment⟩
  | ip6 _ hproto hlen hsegment =>
      rw [setsChecksum_ip6_iff hproto hlen hsegment]
      simp

/-- A SYN with one byte of data from 10.0.0.1 to 10.0.0.2. -/
def synOverIp4 : Memory := fun i =>
  ([0x02, 0, 0, 0, 0, 2, 0x02, 0, 0, 0, 0, 1, 0x08, 0x00,
    0x45, 0, 0, 41, 0, 0, 0, 0, 64, 6, 0, 0, 10, 0, 0, 1, 10, 0, 0, 2,
    0x04, 0xD2, 0, 80, 0, 0, 0, 1, 0, 0, 0, 0, 0x50, 0x02, 0x72, 0x10, 0, 0, 0, 0,
    0x61] : List UInt8).getD i 0

theorem setsChecksum_synOverIp4 :
    TcpPacket synOverIp4 0 55 true ∧ SetsChecksum synOverIp4 0 55 true := by
  have hpacket : TcpPacket synOverIp4 0 55 true :=
    .ip4 (by decide) (by decide) (by decide) (by decide)
  exact ⟨hpacket, (setsChecksum_iff_ipv4_or_holdsSum hpacket).mpr (.inl rfl)⟩

/-- A SYN from fe80::1 to fe80::2. -/
def synOverIp6 : Memory := fun i =>
  ([0x02, 0, 0, 0, 0, 2, 0x02, 0, 0, 0, 0, 1, 0x86, 0xDD,
    0x60, 0, 0, 0, 0, 20, 6, 64, 0xFE, 0x80, 0, 0, 0, 0, 0, 0, 0, 0, 0, 0, 0, 0, 0, 1,
    0xFE, 0x80, 0, 0, 0, 0, 0, 0, 0, 0, 0, 0, 0, 0, 0, 2,
    0x04, 0xD2, 0, 80, 0, 0, 0, 1, 0, 0, 0, 0, 0x50, 0x02, 0x72, 0x10, 0, 0, 0, 0] :
    List UInt8).getD i 0

/-- The sequence number of that SYN is overwritten. -/
theorem synOverIp6_not_set : ¬ ∀ (mem : Memory) (data len : Nat) (ipv4 : Bool),
    TcpPacket mem data len ipv4 → SetsChecksum mem data len ipv4 := by
  intro halways
  have hsets := halways synOverIp6 0 74 false
    (.ip6 (by decide) (by decide) (by decide) (by decide))
  have hholds := (setsChecksum_ip6_iff (by decide) (by decide) (by decide)).mp hsets
  exact absurd hholds.sequence (by decide)

end Libmoon.Packet
