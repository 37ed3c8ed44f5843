import Libmoon.Packet.Fields

/-! # What is read can be written

Setting a field to the value that was read from another packet takes the bits of the field
over from there. Together the fields of a header cover all of its bits.
-/

namespace Libmoon.Packet

open Foundation

/-- The setter takes the bits over that the getter has read. -/
def Restores (getter : Getter) (setter : Setter) (parts : List Part) : Prop :=
  ∀ src dst base, ∃ dst', setter (some (getter src base)) dst base = some dst' ∧
    Restored src base parts dst dst'

/-! ## Families of accessors -/

theorem restores_byte (offset : Nat) (default : ℚ) :
    Restores (getByte offset) (setByte offset default) (wholeBytes offset 1) := by
  intro src dst base
  refine ⟨_, rfl, Restored.whole _ ?_⟩
  rw [truncate_natCast, BitVec.ofInt_natCast, BitVec.ofNat_toNat, BitVec.setWidth_eq]

/-- A field that is put together with bit operations takes over what a mask says. -/
theorem restores_bits {offset size : Nat} {default : ℚ}
    {update : BitVec 32 → BitVec 32 → BitVec 32} {read : BitVec 32 → BitVec 32}
    (mask : BitVec (8 * size))
    (hupdate : ∀ old new : BitVec (8 * size), ∀ i < 8 * size,
      ((update (old.setWidth 32) (read (new.setWidth 32))).setWidth (8 * size)).getLsbD i =
        (merge mask old new).getLsbD i) :
    Restores (getBits offset size read) (setBits offset size default update)
      (wordParts offset mask) := by
  intro src dst base
  refine ⟨_, rfl, ?_⟩
  rw [tobit_toInt]
  exact Restored.setWord mask _ (BitVec.eq_of_getLsbD_eq (hupdate _ _))

theorem restores_hton16 (offset : Nat) (default : ℚ) :
    Restores (getHton16 offset) (setHton16 offset default) (wholeBytes offset 2) := by
  rw [← wordParts_allOnes]
  apply restores_bits
  intro old new i _
  rw [merge_allOnes]
  exact congrArg (BitVec.getLsbD · i) (bswap16_bswap16 new)

theorem restores_hton (offset : Nat) (default : ℚ) :
    Restores (getHton offset) (setHton offset default) (wholeBytes offset 4) := by
  rw [← wordParts_allOnes]
  apply restores_bits
  intro old new i _
  rw [merge_allOnes, bswap_bswap_setWidth]

theorem restores_unsigned (offset : Nat) (default : ℚ) :
    Restores (TcpHeader.getUnsigned offset) (setHton offset default) (wholeBytes offset 4) := by
  intro src dst base
  refine ⟨_, rfl, Restored.whole _ ?_⟩
  rw [tobit_toNat, bswap_bswap_setWidth]

/-! ## Fields inside a word -/

/-- The upper half of a byte, as in `setVersion` of IPv4 and `setDataOffset` of TCP. -/
theorem restores_upper (offset : Nat) (default : ℚ) :
    Restores (getBits offset 1 fun byte => (byte >>> 4) &&& 0x0f#32)
      (setBits offset 1 default fun old int => (old &&& 0x0f#32) ||| ((int <<< 4) &&& 0xf0#32))
      (wordParts offset (0xf0#(8 * 1))) := by
  apply restores_bits
  intro old new i hi
  unfold merge
  interval_cases i <;> simp

theorem Ip4Header.restores_headerLength :
    Restores getHeaderLength setHeaderLength (wordParts 0 (0x0f#(8 * 1))) := by
  apply restores_bits
  intro old new i hi
  unfold merge
  interval_cases i <;> simp

theorem Ip4Header.restores_flags :
    Restores getFlags setFlags (wordParts 6 (0x00e0#(8 * 2))) := by
  apply restores_bits
  intro old new i hi
  unfold merge bswap16
  interval_cases i <;> simp

theorem Ip4Header.restores_fragment :
    Restores getFragment setFragment (wordParts 6 (0xff1f#(8 * 2))) := by
  apply restores_bits
  intro old new i hi
  unfold merge bswap16
  interval_cases i <;> simp

/-- A swapped word that takes bits over has them at the swapped places. -/
theorem bswap_merge (mask old new : BitVec 32) :
    bswap (merge mask (bswap old) (bswap new)) = merge (bswap mask) old new := by
  apply BitVec.eq_of_getLsbD_eq
  intro i hi
  have hplace : 8 * (3 - i / 8) + i % 8 < 32 := by omega
  have hback : 8 * (3 - (8 * (3 - i / 8) + i % 8) / 8) + (8 * (3 - i / 8) + i % 8) % 8 = i := by
    omega
  rw [getLsbD_merge _ _ _ hi, getLsbD_bswap _ hi, getLsbD_merge _ _ _ hplace,
    getLsbD_bswap mask hi, getLsbD_bswap old hplace, getLsbD_bswap new hplace, hback]

/-- The fields in the first word of IPv6. -/
theorem Ip6Header.restores_swapped {default : ℚ} {mask keep low : BitVec 32} {place : Nat}
    (hkeep : keep = ~~~mask) (hlow : (low <<< place) &&& mask = mask) :
    Restores (getBits 0 4 fun vtf => (bswap vtf >>> place) &&& low)
      (setBits 0 4 default fun old int =>
        bswap ((bswap old &&& keep) ||| ((int <<< place) &&& mask)))
      (wordParts 0 ((bswap mask).setWidth (8 * 4))) := by
  apply restores_bits
  intro old new i hi
  rw [merge_shifted hkeep hlow, bswap_merge]
  rfl

theorem Ip6Header.restores_version :
    Restores getVersion setVersion (wordParts 0 (0x000000f0#(8 * 4))) :=
  restores_swapped (by decide) (by decide)

theorem Ip6Header.restores_trafficClass :
    Restores getTrafficClass setTrafficClass (wordParts 0 (0x0000f00f#(8 * 4))) :=
  restores_swapped (by decide) (by decide)

theorem Ip6Header.restores_flowLabel :
    Restores getFlowLabel setFlowLabel (wordParts 0 (0xffff0f00#(8 * 4))) := by
  have hlowest : Restores (getBits 0 4 fun vtf => (bswap vtf >>> 0) &&& 0x000fffff#32)
      (setBits 0 4 0 fun old int =>
        bswap ((bswap old &&& 0xfff00000#32) ||| ((int <<< 0) &&& 0x000fffff#32)))
      (wordParts 0 (0xffff0f00#(8 * 4))) :=
    restores_swapped (by decide) (by decide)
  simp only [BitVec.ushiftRight_zero, BitVec.shiftLeft_zero] at hlowest
  exact hlowest

theorem TcpHeader.restores_flags :
    Restores getFlags setFlags (wordParts 13 (0x3f#(8 * 1))) := by
  apply restores_bits
  intro old new i hi
  unfold merge
  interval_cases i <;> simp

theorem TcpHeader.restores_reserved :
    Restores getReserved setReserved
      (wordParts 12 (0x0f#(8 * 1)) ++ wordParts 13 (0xc0#(8 * 1))) := by
  intro src dst base
  refine ⟨_, rfl, ?_⟩
  simp only [tobit_toInt]
  refine Restored.trans (Restored.setWord _ _ ?_) (Restored.setWord _ _ ?_)
  · apply BitVec.eq_of_getLsbD_eq
    intro i hi
    unfold merge
    interval_cases i <;> simp
  · apply BitVec.eq_of_getLsbD_eq
    intro i hi
    unfold merge
    interval_cases i <;> simp

/-- A flag is only set, which is right if it is set in the other packet. -/
theorem TcpHeader.restores_flag {flag : BitVec 32} {place : Nat} (hplace : place < 8)
    (hflag : flag = BitVec.twoPow 32 place) : Restores (getFlag flag place) (setFlag flag) [] := by
  intro src dst base
  subst hflag
  unfold getFlag setFlag
  by_cases hset : ((((src.word (base + 13) 1).setWidth 32 &&& BitVec.twoPow 32 place) >>> place) ==
    1#32) = true
  · rw [hset]
    refine ⟨_, rfl, ?_⟩
    have hbit : (src.word (base + 13) 1).getLsbD place = true := by
      have hlow := congrArg (BitVec.getLsbD · 0) (beq_iff_eq.mp hset)
      have hone : (1#32).getLsbD 0 = true := rfl
      simp only [BitVec.getLsbD_ushiftRight, BitVec.getLsbD_and, BitVec.getLsbD_setWidth,
        Nat.add_zero, hone, Bool.and_eq_true] at hlow
      exact hlow.1.2
    refine (Restored.setWord ((BitVec.twoPow 32 place).setWidth (8 * 1)) _ ?_).mono
      (List.nil_subset _)
    apply BitVec.eq_of_getLsbD_eq
    intro i hi
    have hi' : i < 32 := by omega
    have hplace' : place < 32 := by omega
    rw [getLsbD_merge _ _ _ hi]
    simp only [BitVec.getLsbD_setWidth, BitVec.getLsbD_or, BitVec.getLsbD_twoPow, hi, hi', hplace',
      decide_true, Bool.true_and]
    by_cases heq : place = i
    · subst heq
      simp [hbit]
    · simp [heq]
  · rw [Bool.not_eq_true] at hset
    rw [hset]
    exact ⟨dst, rfl, Restored.refl src dst base⟩

theorem VxlanHeader.restores_triple (offset : Nat) :
    Restores (getTriple offset) (setTriple offset) (wholeBytes offset 3) := by
  intro src dst base
  refine ⟨_, rfl, ?_⟩
  simp only [tobit_toInt]
  obtain ⟨_, hfirst, hsecond, hthird⟩ := shifted_bytes (0#(8 * 1)) (src.word (base + offset) 1)
    (src.word (base + offset + 1) 1) (src.word (base + offset + 2) 1) (by simp; rfl)
  obtain ⟨_, hfirst', hsecond', hthird'⟩ := masked_bytes
    ((src.word (base + offset) 1).setWidth 32 <<< 16 |||
      ((src.word (base + offset + 1) 1).setWidth 32 <<< 8 |||
        (src.word (base + offset + 2) 1).setWidth 32))
  have hnone := Restored.none src dst base offset
  have hall := ((hnone.setWhole _ (hfirst'.trans hfirst)).setWhole _
    (hsecond'.trans hsecond)).setWhole _ (hthird'.trans hthird)
  exact hall

theorem EspHeader.restores_iv (env : Environment) :
    Restores getIV (setIV env) (wholeBytes 8 8) := by
  intro src dst base
  refine ⟨_, rfl, ?_⟩
  have hnone := Restored.none src dst base 8
  have hall := (hnone.setWhole _ (bswap_bswap_setWidth _)).setWhole _ (bswap_bswap_setWidth _)
  exact hall

theorem IcmpHeader.restores_messageBody : Restores getMessageBody setMessageBody [] :=
  fun src dst base => ⟨dst, rfl, Restored.refl src dst base⟩

/-! ## Addresses -/

theorem EtherHeader.restores_address (offset : Nat) :
    Restores (getAddress offset) (setAddress offset) (wholeBytes offset 6) :=
  fun _ _ _ => ⟨_, rfl, MacAddr.restored_string⟩

theorem ArpHeader.restores_hardware (offset : Nat) :
    Restores (getHardware offset) (setHardware offset) (wholeBytes offset 6) :=
  fun _ _ _ => ⟨_, rfl, MacAddr.restored_number⟩

theorem ArpHeader.restores_proto (offset : Nat) :
    Restores (getProto offset) (setProto offset) (wholeBytes offset 4) :=
  fun _ _ _ => ⟨_, rfl, Ip4Addr.restored_number⟩

theorem Ip4Header.restores_address (offset : Nat) :
    Restores (getAddress offset) (setAddress offset) (wholeBytes offset 4) :=
  fun _ _ _ => Ip4Addr.restored_string

theorem Ip6Header.restores_address {env : Environment} (hpton : ParsesPreferredForm env.inetPton)
    (offset : Nat) :
    Restores (getAddress offset) (setAddress env offset) (wholeBytes offset 16) := by
  intro src dst base
  refine ⟨_, ?_, Ip6Addr.restored_set⟩
  rw [getAddress, setAddress, Ip6Addr.parseIP6Address_getString hpton, Option.map_some]

end Libmoon.Packet
