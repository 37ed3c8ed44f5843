import Libmoon.Packet.InternetChecksum
import Libmoon.Packet.PseudoHeaderSums

/-! # The ICMP responder

`handleIcmpPacket` turns a packet into a reply in place: it swaps the addresses, resets the
TTL and the type, and computes both checksums. It sees a packet as a struct of an Ethernet
header, an IPv4 header without options and an ICMP header; which message it is, it does not
look at.
-/

namespace Libmoon.Icmp

open Foundation Packet

/-! ## The handler -/

/-- An entry of the task: the addresses to answer for, and the address of the device as
`getMacString` returns it. -/
structure Nic where
  ips : List String
  mac : String

/-- What becomes of a packet. -/
inductive Handled where
  | freed
  | raised
  | sent (mem : Memory)

/-- `ip4Header:getLength`, as an integer. -/
def ip4Length (mem : Memory) (self : Nat) : ℤ :=
  (bswap16 ((mem.word (self + 2) 2).setWidth 32)).toInt

/-- `ip4Header:getHeaderLength`, as an integer. -/
def ip4HeaderLength (mem : Memory) (self : Nat) : ℤ :=
  ((mem.word (self + 0) 1).setWidth 32 &&& 0x0f#32).toInt

theorem getLength_eq (mem : Memory) (self : Nat) :
    Ip4Header.getLength mem self = .number (ip4Length mem self) := rfl

theorem getHeaderLength_eq (mem : Memory) (self : Nat) :
    Ip4Header.getHeaderLength mem self = .number (ip4HeaderLength mem self) := rfl

/-- The addresses, the TTL and the type of the reply. -/
def readdress (mem : Memory) (data : Nat) (nic : Nic) : Option Memory :=
  let mem := MacAddr.set mem data (some (MacAddr.get mem (data + 6)))
  let mem := MacAddr.set mem (data + 6) (parseMacAddress nic.mac)
  let tmp := Ip4Addr.get mem (data + 26)
  let mem := Ip4Addr.set mem (data + 26) (Ip4Addr.get mem (data + 30))
  let mem := Ip4Addr.set mem (data + 30) tmp
  let mem := mem.setWord (data + 22) (64 : BitVec (8 * 1))
  IcmpHeader.setType (some (.number 0)) mem (data + 34)

/-- What `handleIcmpPacket` does to a packet that it answers. -/
def reply (mem : Memory) (data : Nat) (nic : Nic) : Option Memory := do
  let mem ← readdress mem data nic
  let mem ← Ip4Header.calculateChecksum mem (data + 14)
  IcmpHeader.calculateChecksum mem (data + 34)
    (some (ip4Length mem (data + 14) - ip4HeaderLength mem (data + 14) * 4))

/-- `handleIcmpPacket`. -/
def handleIcmpPacket (mem : Memory) (data : Nat) (nic : Nic) : Handled :=
  if EtherHeader.getType mem data ≠ .number 0x0800 ∨
      Ip4Header.getProtocol mem (data + 14) ≠ .number 0x01 then
    .freed
  else
    let dstIp := Ip4Addr.getString mem (data + 30)
    let ipOk := nic.ips.any fun v => v == dstIp
    if !ipOk then .freed
    else
      match reply mem data nic with
      | some mem => .sent mem
      | none => .raised

/-! ## Requests and replies -/

/-- A packet of `len` bytes is an ICMP echo request over IPv4. -/
structure EchoRequest (mem : Memory) (data len : Nat) : Prop where
  etherType : netWord mem (data + 12) = 0x0800
  version : (mem (data + 14)).toNat / 16 = 4
  headerLength : 5 ≤ ihl mem (data + 14)
  protocol : mem (data + 23) = 1
  message : 4 * ihl mem (data + 14) + 8 ≤ netWord mem (data + 16)
  inside : 14 + netWord mem (data + 16) ≤ len
  type : mem (data + 14 + 4 * ihl mem (data + 14)) = 8

/-- A packet goes to an address of the device. -/
def AddressedTo (nic : Nic) (mem : Memory) (data : Nat) : Prop :=
  Ip4Addr.getString mem (data + 30) ∈ nic.ips

instance (nic : Nic) (mem : Memory) (data : Nat) : Decidable (AddressedTo nic mem data) :=
  inferInstanceAs (Decidable (_ ∈ _))

/-- The reply to an echo request: `mem` with the request has become `mem'`. -/
structure EchoReply (mem mem' : Memory) (data : Nat) : Prop where
  src : mem'.load (data + 26) 4 = mem.load (data + 30) 4
  dst : mem'.load (data + 30) 4 = mem.load (data + 26) 4
  ethDst : mem'.load data 6 = mem.load (data + 6) 6
  ttl : mem' (data + 22) = 64
  type : mem' (data + 14 + 4 * ihl mem (data + 14)) = 0
  /-- identifier, sequence number and payload -/
  body : mem'.load (data + 14 + 4 * ihl mem (data + 14) + 4)
      (netWord mem (data + 16) - (4 * ihl mem (data + 14) + 4)) =
    mem.load (data + 14 + 4 * ihl mem (data + 14) + 4)
      (netWord mem (data + 16) - (4 * ihl mem (data + 14) + 4))
  headerLength : mem' (data + 14) = mem (data + 14)
  length : mem'.load (data + 16) 2 = mem.load (data + 16) 2
  headerChecksum : HeaderVerifies mem' (data + 14)
  checksum : onesSum (networkWords (mem'.load (data + 14 + 4 * ihl mem (data + 14))
    (netWord mem (data + 16) - 4 * ihl mem (data + 14)))) = 0xFFFF

/-- The packet is answered with its reply. -/
def AnswersWell (mem : Memory) (data : Nat) (nic : Nic) : Prop :=
  ∃ mem', handleIcmpPacket mem data nic = .sent mem' ∧ EchoReply mem mem' data

/-! ## What the handler reads -/

theorem toNat_bswap16 (word : BitVec 16) :
    (bswap16 (word.setWidth 32)).toNat = swap16 word.toNat := by
  have hword := word.isLt
  have hmask : (word.setWidth 32 &&& 0xff#32).toNat = word.toNat % 2 ^ 8 := by
    rw [BitVec.toNat_and, BitVec.toNat_setWidth_of_le (by decide)]
    exact Nat.and_two_pow_sub_one_eq_mod _ 8
  have hhigh : word.toNat / 2 ^ 8 < 2 ^ 8 := by omega
  rw [bswap16, BitVec.toNat_or, BitVec.toNat_ushiftRight, BitVec.toNat_shiftLeft, hmask,
    BitVec.toNat_setWidth_of_le (by decide), Nat.shiftRight_eq_div_pow,
    Nat.mod_eq_of_lt (by rw [Nat.shiftLeft_eq]; omega), Nat.or_comm,
    ← Nat.shiftLeft_add_eq_or_of_lt hhigh, Nat.shiftLeft_eq, swap16]
  omega

/-- A field in network order is read as the number it stands for. -/
theorem toInt_bswap16_word (mem : Memory) (start : Nat) :
    (bswap16 ((mem.word start 2).setWidth 32)).toInt = netWord mem start := by
  have hlt := netWord_lt mem start
  have hnat : (bswap16 ((mem.word start 2).setWidth 32)).toNat = netWord mem start := by
    rw [netWord_eq]
    exact toNat_bswap16 _
  rw [BitVec.toInt_eq_toNat_of_lt (by omega), hnat]

theorem ip4Length_eq (mem : Memory) (self : Nat) :
    ip4Length mem self = netWord mem (self + 2) := toInt_bswap16_word mem (self + 2)

theorem ip4HeaderLength_eq (mem : Memory) (self : Nat) : ip4HeaderLength mem self = ihl mem self := by
  have hbyte : (mem.word (self + 0) 1).toNat = (mem self).toNat := Memory.toNat_word_one mem self
  have hnat : ((mem.word (self + 0) 1).setWidth 32 &&& 0x0f#32).toNat = ihl mem self := by
    rw [BitVec.toNat_and, BitVec.toNat_setWidth_of_le (by decide), hbyte]
    exact Nat.and_two_pow_sub_one_eq_mod _ 4
  have hlt : ihl mem self < 16 := Nat.mod_lt _ (by decide)
  rw [ip4HeaderLength, BitVec.toInt_eq_toNat_of_lt (by omega), hnat]

theorem getType_eq_iff (mem : Memory) (data : Nat) :
    EtherHeader.getType mem data = .number 0x0800 ↔ netWord mem (data + 12) = 0x0800 := by
  have hvalue : EtherHeader.getType mem data = .number ((netWord mem (data + 12) : ℤ) : ℚ) := by
    rw [← toInt_bswap16_word]
    rfl
  rw [hvalue, Value.number.injEq]
  norm_cast

theorem getProtocol_eq_iff (mem : Memory) (self : Nat) :
    Ip4Header.getProtocol mem self = .number 0x01 ↔ mem (self + 9) = 1 := by
  have hvalue : Ip4Header.getProtocol mem self = .number ((mem (self + 9)).toNat : ℚ) := by
    rw [← Memory.toNat_word_one]
    rfl
  rw [hvalue, Value.number.injEq, ← UInt8.toNat_inj]
  norm_cast

/-! ## What the handler writes -/

/-- The packet with the addresses, the TTL and the type of the reply. -/
structure Readdressed (mem mem' : Memory) (data : Nat) : Prop where
  ethDst : ∀ j < 6, mem' (data + j) = mem (data + 6 + j)
  src : ∀ j < 4, mem' (data + 26 + j) = mem (data + 30 + j)
  dst : ∀ j < 4, mem' (data + 30 + j) = mem (data + 26 + j)
  ttl : mem' (data + 22) = 64
  type : mem' (data + 34) = 0
  kept : ∀ i, ¬ (data ≤ i ∧ i < data + 12) → i ≠ data + 22 →
    ¬ (data + 26 ≤ i ∧ i < data + 35) → mem' i = mem i

theorem readdress_spec (mem : Memory) (data : Nat) (nic : Nic) :
    ∃ mem', readdress mem data nic = some mem' ∧ Readdressed mem mem' data := by
  let first := MacAddr.set mem data (some (MacAddr.get mem (data + 6)))
  let second := MacAddr.set first (data + 6) (parseMacAddress nic.mac)
  let third := second.setWord (data + 26) (second.word (data + 30) 4)
  let fourth := third.setWord (data + 30) (second.word (data + 26) 4)
  let fifth := fourth.setWord (data + 22) (64 : BitVec (8 * 1))
  let sixth := fifth.setWord (data + 34) (0 : BitVec (8 * 1))
  have hreaddress : readdress mem data nic = some sixth := by
    have hbyte : BitVec.ofInt (8 * 1) (truncate 0) = 0 := by
      have hzero : truncate 0 = 0 := truncate_natCast 0
      rw [hzero]
      rfl
    simp only [readdress, Ip4Addr.set_get, IcmpHeader.setType, setByte, numberOr,
      Option.bind_eq_bind, Option.bind_some, hbyte]
    rfl
  -- behind the Ethernet addresses, the packet is the one that was received
  have hbehind : ∀ i, ¬ (data ≤ i ∧ i < data + 12) → second i = mem i := by
    intro i hout
    exact (MacAddr.set_of_not_mem _ (by omega)).trans (MacAddr.set_of_not_mem _ (by omega))
  have hlater : ∀ i, i ≠ data + 22 → i ≠ data + 34 → sixth i = fourth i := by
    intro i httl htype
    exact (Memory.setWord_of_not_mem _ (by omega)).trans (Memory.setWord_of_not_mem _ (by omega))
  have hkept : ∀ i, i ≠ data + 22 → ¬ (data + 26 ≤ i ∧ i < data + 35) → sixth i = second i := by
    intro i httl hout
    exact (hlater i httl (by omega)).trans ((Memory.setWord_of_not_mem _ (by omega)).trans
      (Memory.setWord_of_not_mem _ (by omega)))
  refine ⟨sixth, hreaddress, ?_, ?_, ?_, ?_, ?_, ?_⟩
  · intro j hj
    rw [hkept _ (by omega) (by omega)]
    exact (MacAddr.set_of_not_mem _ (by omega)).trans (MacAddr.set_get_apply _ _ _ _ hj)
  · intro j hj
    rw [hlater _ (by omega) (by omega), ← hbehind _ (by omega)]
    exact (Memory.setWord_of_not_mem _ (by omega)).trans (Memory.setWord_word_apply _ _ hj)
  · intro j hj
    rw [hlater _ (by omega) (by omega), ← hbehind _ (by omega)]
    exact Memory.setWord_word_apply _ _ hj
  · exact (Memory.setWord_of_not_mem _ (by omega)).trans (by simp [fifth, Memory.setWord])
  · simp [sixth, Memory.setWord]
  · intro i haddresses httl hout
    rw [hkept i httl hout, hbehind i haddresses]

/-- Every packet can be turned into a reply. Besides what is readdressed, only the fields of
both checksums change. -/
theorem reply_spec (mem : Memory) (data : Nat) (nic : Nic) :
    ∃ between mem', reply mem data nic = some mem' ∧ Readdressed mem between data ∧
      (∀ i, ¬ (data + 24 ≤ i ∧ i < data + 26) → ¬ (data + 36 ≤ i ∧ i < data + 38) →
        mem' i = between i) ∧
      (4 * ihl mem (data + 14) ≤ netWord mem (data + 16) →
        mem' = withChecksum 2 (withChecksum 10 between (data + 14) 20) (data + 34)
          (netWord mem (data + 16) - 4 * ihl mem (data + 14))) := by
  obtain ⟨between, hreaddress, hreaddressed⟩ := readdress_spec mem data nic
  let summed := withChecksum 10 between (data + 14) 20
  have hsummed : ∀ i, ¬ (data + 24 ≤ i ∧ i < data + 26) → summed i = between i :=
    fun i hout => withChecksum_of_not_mem (by omega)
  have hlength : ip4Length summed (data + 14) = netWord mem (data + 16) := by
    have hhigh : summed (data + 16) = mem (data + 16) :=
      (hsummed _ (by omega)).trans (hreaddressed.kept _ (by omega) (by omega) (by omega))
    have hlow : summed (data + 16 + 1) = mem (data + 16 + 1) :=
      (hsummed _ (by omega)).trans (hreaddressed.kept _ (by omega) (by omega) (by omega))
    rw [ip4Length_eq, netWord, netWord, ← hhigh, ← hlow]
  have hheader : ip4HeaderLength summed (data + 14) = ihl mem (data + 14) := by
    have hbyte : summed (data + 14) = mem (data + 14) :=
      (hsummed _ (by omega)).trans (hreaddressed.kept _ (by omega) (by omega) (by omega))
    rw [ip4HeaderLength_eq, ihl, hbyte, ihl]
  obtain ⟨mem', hchecksum, hframe⟩ := IcmpHeader.calculateChecksum_frame summed (data + 34)
    (some (ip4Length summed (data + 14) - ip4HeaderLength summed (data + 14) * 4))
  have hreply : reply mem data nic = some mem' := by
    rw [reply, hreaddress, Option.bind_eq_bind, Option.bind_some, Ip4Header.calculateChecksum_eq,
      Option.bind_some]
    exact hchecksum
  refine ⟨between, mem', hreply, hreaddressed, ?_, ?_⟩
  · intro i hheaderSum hmessageSum
    exact (hframe i (by omega)).trans (hsummed i hheaderSum)
  · intro hle
    have hlen : ip4Length summed (data + 14) - ip4HeaderLength summed (data + 14) * 4 =
        (netWord mem (data + 16) - 4 * ihl mem (data + 14) : ℕ) := by
      rw [hlength, hheader]
      omega
    rw [hlen, IcmpHeader.calculateChecksum_eq] at hchecksum
    exact (Option.some.inj hchecksum).symm

/-- The filter of the handler. -/
structure Passes (nic : Nic) (mem : Memory) (data : Nat) : Prop where
  etherType : netWord mem (data + 12) = 0x0800
  protocol : mem (data + 23) = 1
  addressed : AddressedTo nic mem data

/-- What passes the filter is answered, everything else is freed. -/
theorem handleIcmpPacket_eq_sent_iff (mem : Memory) (data : Nat) (nic : Nic) (mem' : Memory) :
    handleIcmpPacket mem data nic = .sent mem' ↔
      Passes nic mem data ∧ reply mem data nic = some mem' := by
  obtain ⟨between, replied, hreply, -⟩ := reply_spec mem data nic
  have hany : (nic.ips.any fun v => v == Ip4Addr.getString mem (data + 30)) = true ↔
      AddressedTo nic mem data := by
    simp [AddressedTo]
  unfold handleIcmpPacket
  rw [hreply]
  split
  next hother =>
    constructor
    · intro hsent
      cases hsent
    · rintro ⟨hpasses, -⟩
      rcases hother with hother | hother
      · exact absurd ((getType_eq_iff mem data).mpr hpasses.etherType) hother
      · exact absurd ((getProtocol_eq_iff mem (data + 14)).mpr hpasses.protocol) hother
  next hicmp =>
    obtain ⟨htype, hprotocol⟩ := not_or.mp hicmp
    rw [not_not] at htype hprotocol
    have hpasses : Passes nic mem data ↔ AddressedTo nic mem data :=
      ⟨Passes.addressed, fun haddressed => ⟨(getType_eq_iff mem data).mp htype,
        (getProtocol_eq_iff mem (data + 14)).mp hprotocol, haddressed⟩⟩
    rw [hpasses, ← hany]
    dsimp only
    cases hips : nic.ips.any fun v => v == Ip4Addr.getString mem (data + 30) with
    | false => simp
    | true => simp

theorem exists_sent_iff (mem : Memory) (data : Nat) (nic : Nic) :
    (∃ mem', handleIcmpPacket mem data nic = .sent mem') ↔ Passes nic mem data := by
  obtain ⟨between, replied, hreply, -⟩ := reply_spec mem data nic
  simp only [handleIcmpPacket_eq_sent_iff, hreply, Option.some.injEq]
  exact ⟨fun ⟨_, hpasses, _⟩ => hpasses, fun hpasses => ⟨_, hpasses, rfl⟩⟩

/-! ## Replies -/

/-- Behind options, the type of the message is not where the handler writes it. -/
theorem EchoRequest.type_kept {mem mem' : Memory} {data len : Nat} {nic : Nic}
    (hrequest : EchoRequest mem data len) (hoptions : ihl mem (data + 14) ≠ 5)
    (hreply : reply mem data nic = some mem') :
    mem' (data + 14 + 4 * ihl mem (data + 14)) = 8 := by
  obtain ⟨between, replied, hreplied, hreaddressed, hframe, -⟩ := reply_spec mem data nic
  have hihl := hrequest.headerLength
  have hmem : replied = mem' := Option.some.inj (hreplied.symm.trans hreply)
  rw [← hmem, hframe _ (by omega) (by omega),
    hreaddressed.kept _ (by omega) (by omega) (by omega)]
  exact hrequest.type

/-- Without options, the reply is what it should be. -/
theorem echoReply_of_ihl_eq {mem mem' : Memory} {data len : Nat} {nic : Nic}
    (hrequest : EchoRequest mem data len) (hihl : ihl mem (data + 14) = 5)
    (hreply : reply mem data nic = some mem') : EchoReply mem mem' data := by
  obtain ⟨between, replied, hreplied, hreaddressed, hframe, hsums⟩ := reply_spec mem data nic
  obtain rfl : replied = mem' := Option.some.inj (hreplied.symm.trans hreply)
  have hmessage := hrequest.message
  rw [hihl] at hmessage hsums
  have hmem := hsums (by omega)
  -- neither the exchange of addresses nor a checksum is written here
  have hkept : ∀ i, data + 12 ≤ i → i ≠ data + 22 → ¬ (data + 24 ≤ i ∧ i < data + 35) →
      ¬ (data + 36 ≤ i ∧ i < data + 38) → replied i = mem i := by
    intro i hle httl hheader hmessageSum
    rw [hframe i (by omega) hmessageSum, hreaddressed.kept i (by omega) httl (by omega)]
  have hsame : ihl replied (data + 14) = 5 := by
    rw [ihl, hkept _ (by omega) (by omega) (by omega) (by omega)]
    exact hihl
  have hheaderLoad : replied.load (data + 14) 20 =
      (withChecksum 10 between (data + 14) 20).load (data + 14) 20 := by
    rw [hmem]
    exact Memory.load_congr fun i _ _ => withChecksum_of_not_mem (by omega)
  exact {
    src := Memory.load_eq_load fun j hj => by
      rw [hframe _ (by omega) (by omega), hreaddressed.src j hj]
    dst := Memory.load_eq_load fun j hj => by
      rw [hframe _ (by omega) (by omega), hreaddressed.dst j hj]
    ethDst := Memory.load_eq_load fun j hj => by
      rw [hframe _ (by omega) (by omega), hreaddressed.ethDst j hj]
    ttl := by rw [hframe _ (by omega) (by omega), hreaddressed.ttl]
    type := by
      rw [hihl, hframe _ (by omega) (by omega)]
      exact hreaddressed.type
    body := by
      rw [hihl]
      exact Memory.load_congr fun i _ _ => hkept i (by omega) (by omega) (by omega) (by omega)
    headerLength := hkept _ (by omega) (by omega) (by omega) (by omega)
    length := Memory.load_congr fun i _ _ => hkept i (by omega) (by omega) (by omega) (by omega)
    headerChecksum := by
      rw [HeaderVerifies, hsame, hheaderLoad, onesSum_eq_max_iff, ← foldOnes_eq_max_iff]
      exact foldOnes_withChecksum (by decide : 2 * 5 + 2 ≤ 20) between (data + 14)
    checksum := by
      rw [hihl, onesSum_eq_max_iff, ← foldOnes_eq_max_iff, hmem]
      exact foldOnes_withChecksum (by omega : 2 * 1 + 2 ≤ netWord mem (data + 16) - 4 * 5) _ _ }

theorem EchoRequest.passes {mem : Memory} {data len : Nat} {nic : Nic}
    (hrequest : EchoRequest mem data len) (haddressed : AddressedTo nic mem data) :
    Passes nic mem data := ⟨hrequest.etherType, hrequest.protocol, haddressed⟩

/-- An echo request gets its reply exactly if its header has no options. -/
theorem answersWell_iff {mem : Memory} {data len : Nat} {nic : Nic}
    (hrequest : EchoRequest mem data len) (haddressed : AddressedTo nic mem data) :
    AnswersWell mem data nic ↔ ihl mem (data + 14) = 5 := by
  constructor
  · rintro ⟨mem', hsent, hechoReply⟩
    by_contra hoptions
    have hreply := ((handleIcmpPacket_eq_sent_iff mem data nic mem').mp hsent).2
    have htype := hrequest.type_kept hoptions hreply
    rw [hechoReply.type] at htype
    cases htype
  · intro hihl
    obtain ⟨between, mem', hreply, -⟩ := reply_spec mem data nic
    exact ⟨mem', (handleIcmpPacket_eq_sent_iff mem data nic mem').mpr
      ⟨hrequest.passes haddressed, hreply⟩, echoReply_of_ihl_eq hrequest hihl hreply⟩

/-- A device with one address. -/
def tenTwo : Nic := ⟨["10.0.0.2"], "02:00:00:00:00:02"⟩

/-- An echo request from 10.0.0.1 to 10.0.0.2 with one byte of payload. -/
def ping : Memory := fun i =>
  ([0x02, 0, 0, 0, 0, 2, 0x02, 0, 0, 0, 0, 1, 0x08, 0x00,
    0x45, 0, 0, 29, 0, 0, 0, 0, 5, 1, 0xA1, 0xDE, 10, 0, 0, 1, 10, 0, 0, 2,
    8, 0, 0x84, 0xCA, 0x12, 0x34, 0, 1, 0x61] : List UInt8).getD i 0

theorem ping_addressed : AddressedTo tenTwo ping 0 := by decide

theorem ping_request : EchoRequest ping 0 43 where
  etherType := by decide
  version := by decide
  headerLength := by decide
  protocol := by decide
  message := by decide
  inside := by decide
  type := by decide

theorem ping_answered : EchoRequest ping 0 43 ∧ AddressedTo tenTwo ping 0 ∧
    AnswersWell ping 0 tenTwo :=
  ⟨ping_request, ping_addressed, (answersWell_iff ping_request ping_addressed).mpr (by decide)⟩

/-- The same request with a record of its route. -/
def recordRoute : Memory := fun i =>
  ([0x02, 0, 0, 0, 0, 2, 0x02, 0, 0, 0, 0, 1, 0x08, 0x00,
    0x47, 0, 0, 37, 0, 0, 0, 0, 5, 1, 0x94, 0xCF, 10, 0, 0, 1, 10, 0, 0, 2,
    7, 7, 4, 0, 0, 0, 0, 0, 8, 0, 0x84, 0xCA, 0x12, 0x34, 0, 1, 0x61] : List UInt8).getD i 0

theorem recordRoute_not_answered : ¬ ∀ (mem : Memory) (data len : Nat) (nic : Nic),
    EchoRequest mem data len → AddressedTo nic mem data → AnswersWell mem data nic := by
  intro halways
  have hrequest : EchoRequest recordRoute 0 51 :=
    ⟨by decide, by decide, by decide, by decide, by decide, by decide, by decide⟩
  obtain ⟨mem', hsent, hechoReply⟩ := halways recordRoute 0 51 tenTwo hrequest (by decide)
  have hreply := ((handleIcmpPacket_eq_sent_iff recordRoute 0 tenTwo mem').mp hsent).2
  have htype := hrequest.type_kept (by decide) hreply
  rw [hechoReply.type] at htype
  cases htype

end Libmoon.Icmp
