import Libmoon.Packet.FieldLaws

/-! # Whole headers

For each of the headers: every argument that `fill` looks at is one that `get` has put into
the table, and the fields that are set cover the header.
-/

namespace Libmoon.Packet

open Foundation

/-- Every bit of the bytes from 0 on is in some part. -/
def Covers (parts : List Part) (size : Nat) : Prop :=
  ∀ offset < size, ∀ k < 8, ∃ part ∈ parts, part.offset = offset ∧ part.mask.getLsbD k = true

instance (parts : List Part) (size : Nat) : Decidable (Covers parts size) :=
  inferInstanceAs (Decidable (∀ offset < size, ∀ k < 8, ∃ part ∈ parts, _ ∧ _))

/-- The bits of a byte that are in some part. -/
def maskAt (offset : Nat) : List Part → BitVec 8
  | [] => 0#8
  | part :: rest => (if part.offset = offset then part.mask else 0#8) ||| maskAt offset rest

theorem exists_of_maskAt {offset k : Nat} {parts : List Part}
    (hbit : (maskAt offset parts).getLsbD k = true) :
    ∃ part ∈ parts, part.offset = offset ∧ part.mask.getLsbD k = true := by
  induction parts with
  | nil => simp [maskAt] at hbit
  | cons part rest ih =>
      rw [maskAt, BitVec.getLsbD_or, Bool.or_eq_true] at hbit
      rcases hbit with hfirst | hrest
      · split at hfirst
        next heq => exact ⟨part, List.mem_cons_self, heq, hfirst⟩
        next => simp at hfirst
      · obtain ⟨other, hmem, hother⟩ := ih hrest
        exact ⟨other, List.mem_cons_of_mem _ hmem, hother⟩

/-- It is enough to look at whole bytes. -/
theorem covers_of_maskAt {parts : List Part} {size : Nat}
    (hbytes : ∀ offset < size, maskAt offset parts = BitVec.allOnes 8) : Covers parts size := by
  intro offset hoffset k hk
  apply exists_of_maskAt
  rw [hbytes offset hoffset, BitVec.getLsbD_allOnes, decide_eq_true hk]

/-- The name begins with a capital letter. -/
def Capital (field : String) : Prop :=
  ∃ first rest, field.toList = first :: rest ∧ first.isUpper

/-- The setter of a field is called with what a getter has read. -/
def HeaderFields.Reads (fields : HeaderFields) (step : String × Setter) (parts : List Part) : Prop :=
  ∃ getter, (step.1, getter) ∈ fields.get ∧ Restores getter step.2 parts

/-- Filling a header with what has been read from another one makes it the same. -/
structure HeaderFields.RoundTrip (fields : HeaderFields) (size : Nat) : Prop where
  names : (fields.get.map Prod.fst).Nodup
  capital : ∀ field ∈ fields.get, Capital field.1
  fill : ∃ parts, List.Forall₂ fields.Reads fields.fill parts ∧ Covers parts.flatten size

theorem EtherHeader.roundTrip : fields.RoundTrip 14 where
  names := by decide
  capital := by simp [fields, Capital]
  fill := by
    refine ⟨[wholeBytes 6 6, wholeBytes 0 6, wholeBytes 12 2], ?_, covers_of_maskAt (by decide)⟩
    refine .cons ⟨getAddress 6, by simp [fields], restores_address 6⟩ ?_
    refine .cons ⟨getAddress 0, by simp [fields], restores_address 0⟩ ?_
    refine .cons ⟨getType, by simp [fields], restores_hton16 12 _⟩ ?_
    exact .nil

theorem Ip4Header.roundTrip : fields.RoundTrip 20 where
  names := by decide
  capital := by simp [fields, Capital]
  fill := by
    refine ⟨[wordParts 0 (0xf0#(8 * 1)), wordParts 0 (0x0f#(8 * 1)), wholeBytes 1 1,
      wholeBytes 2 2, wholeBytes 4 2, wordParts 6 (0x00e0#(8 * 2)), wordParts 6 (0xff1f#(8 * 2)),
      wholeBytes 8 1, wholeBytes 9 1, wholeBytes 10 2, wholeBytes 12 4,
      wholeBytes 16 4], ?_, covers_of_maskAt (by decide)⟩
    refine .cons ⟨getVersion, by simp [fields], restores_upper 0 _⟩ ?_
    refine .cons ⟨getHeaderLength, by simp [fields], restores_headerLength⟩ ?_
    refine .cons ⟨getTOS, by simp [fields], restores_byte 1 _⟩ ?_
    refine .cons ⟨getLength, by simp [fields], restores_hton16 2 _⟩ ?_
    refine .cons ⟨getID, by simp [fields], restores_hton16 4 _⟩ ?_
    refine .cons ⟨getFlags, by simp [fields], restores_flags⟩ ?_
    refine .cons ⟨getFragment, by simp [fields], restores_fragment⟩ ?_
    refine .cons ⟨getTTL, by simp [fields], restores_byte 8 _⟩ ?_
    refine .cons ⟨getProtocol, by simp [fields], restores_byte 9 _⟩ ?_
    refine .cons ⟨getChecksum, by simp [fields], restores_hton16 10 _⟩ ?_
    refine .cons ⟨getAddress 12, by simp [fields], restores_address 12⟩ ?_
    refine .cons ⟨getAddress 16, by simp [fields], restores_address 16⟩ ?_
    exact .nil

theorem Ip6Header.roundTrip {env : Environment} (hpton : ParsesPreferredForm env.inetPton) :
    (fields env).RoundTrip 40 where
  names := by simp [fields]
  capital := by simp [fields, Capital]
  fill := by
    refine ⟨[wordParts 0 (0x000000f0#(8 * 4)), wordParts 0 (0x0000f00f#(8 * 4)),
      wordParts 0 (0xffff0f00#(8 * 4)), wholeBytes 4 2, wholeBytes 6 1, wholeBytes 7 1,
      wholeBytes 8 16, wholeBytes 24 16], ?_, covers_of_maskAt (by decide)⟩
    refine .cons ⟨getVersion, by simp [fields], restores_version⟩ ?_
    refine .cons ⟨getTrafficClass, by simp [fields], restores_trafficClass⟩ ?_
    refine .cons ⟨getFlowLabel, by simp [fields], restores_flowLabel⟩ ?_
    refine .cons ⟨getLength, by simp [fields], restores_hton16 4 _⟩ ?_
    refine .cons ⟨getNextHeader, by simp [fields], restores_byte 6 _⟩ ?_
    refine .cons ⟨getTTL, by simp [fields], restores_byte 7 _⟩ ?_
    refine .cons ⟨getAddress 8, by simp [fields], restores_address hpton 8⟩ ?_
    refine .cons ⟨getAddress 24, by simp [fields], restores_address hpton 24⟩ ?_
    exact .nil

theorem UdpHeader.roundTrip : fields.RoundTrip 8 where
  names := by decide
  capital := by simp [fields, Capital]
  fill := by
    refine ⟨[wholeBytes 0 2, wholeBytes 2 2, wholeBytes 4 2,
      wholeBytes 6 2], ?_, covers_of_maskAt (by decide)⟩
    refine .cons ⟨getSrcPort, by simp [fields], restores_hton16 0 _⟩ ?_
    refine .cons ⟨getDstPort, by simp [fields], restores_hton16 2 _⟩ ?_
    refine .cons ⟨getLength, by simp [fields], restores_hton16 4 _⟩ ?_
    refine .cons ⟨getChecksum, by simp [fields], restores_hton16 6 _⟩ ?_
    exact .nil

theorem TcpHeader.roundTrip : fields.RoundTrip 20 where
  names := by decide
  capital := by simp [fields, Capital]
  fill := by
    refine ⟨[wholeBytes 0 2, wholeBytes 2 2, wholeBytes 4 4, wholeBytes 8 4,
      wordParts 12 (0xf0#(8 * 1)), wordParts 12 (0x0f#(8 * 1)) ++ wordParts 13 (0xc0#(8 * 1)),
      wordParts 13 (0x3f#(8 * 1)), [], [], [], [], [], [], wholeBytes 14 2, wholeBytes 16 2,
      wholeBytes 18 2], ?_, covers_of_maskAt (by decide)⟩
    refine .cons ⟨getSrcPort, by simp [fields], restores_hton16 0 _⟩ ?_
    refine .cons ⟨getDstPort, by simp [fields], restores_hton16 2 _⟩ ?_
    refine .cons ⟨getSeqNumber, by simp [fields], restores_unsigned 4 _⟩ ?_
    refine .cons ⟨getAckNumber, by simp [fields], restores_unsigned 8 _⟩ ?_
    refine .cons ⟨getDataOffset, by simp [fields], restores_upper 12 _⟩ ?_
    refine .cons ⟨getReserved, by simp [fields], restores_reserved⟩ ?_
    refine .cons ⟨getFlags, by simp [fields], restores_flags⟩ ?_
    refine .cons ⟨getFlag 0x20#32 5, by simp [fields], restores_flag (by decide) rfl⟩ ?_
    refine .cons ⟨getFlag 0x10#32 4, by simp [fields], restores_flag (by decide) rfl⟩ ?_
    refine .cons ⟨getFlag 0x08#32 3, by simp [fields], restores_flag (by decide) rfl⟩ ?_
    refine .cons ⟨getFlag 0x04#32 2, by simp [fields], restores_flag (by decide) rfl⟩ ?_
    refine .cons ⟨getFlag 0x02#32 1, by simp [fields], restores_flag (by decide) rfl⟩ ?_
    refine .cons ⟨getFlag 0x01#32 0, by simp [fields], restores_flag (by decide) rfl⟩ ?_
    refine .cons ⟨getWindow, by simp [fields], restores_hton16 14 _⟩ ?_
    refine .cons ⟨getChecksum, by simp [fields], restores_hton16 16 _⟩ ?_
    refine .cons ⟨getUrgentPointer, by simp [fields], restores_hton16 18 _⟩ ?_
    exact .nil

theorem ArpHeader.roundTrip : fields.RoundTrip 28 where
  names := by decide
  capital := by simp [fields, Capital]
  fill := by
    refine ⟨[wholeBytes 0 2, wholeBytes 2 2, wholeBytes 4 1, wholeBytes 5 1, wholeBytes 6 2,
      wholeBytes 8 6, wholeBytes 18 6, wholeBytes 14 4, wholeBytes 24 4], ?_,
      covers_of_maskAt (by decide)⟩
    refine .cons ⟨getHardwareAddressType, by simp [fields], restores_hton16 0 _⟩ ?_
    refine .cons ⟨getProtoAddressType, by simp [fields], restores_hton16 2 _⟩ ?_
    refine .cons ⟨getHardwareAddressLength, by simp [fields], restores_byte 4 _⟩ ?_
    refine .cons ⟨getProtoAddressLength, by simp [fields], restores_byte 5 _⟩ ?_
    refine .cons ⟨getOperation, by simp [fields], restores_hton16 6 _⟩ ?_
    refine .cons ⟨getHardware 8, by simp [fields], restores_hardware 8⟩ ?_
    refine .cons ⟨getHardware 18, by simp [fields], restores_hardware 18⟩ ?_
    refine .cons ⟨getProto 14, by simp [fields], restores_proto 14⟩ ?_
    refine .cons ⟨getProto 24, by simp [fields], restores_proto 24⟩ ?_
    exact .nil

theorem IcmpHeader.roundTrip : fields.RoundTrip 4 where
  names := by decide
  capital := by simp [fields, Capital]
  fill := by
    refine ⟨[wholeBytes 0 1, wholeBytes 1 1, wholeBytes 2 2, []], ?_, covers_of_maskAt (by decide)⟩
    refine .cons ⟨getType, by simp [fields], restores_byte 0 _⟩ ?_
    refine .cons ⟨getCode, by simp [fields], restores_byte 1 _⟩ ?_
    refine .cons ⟨getChecksum, by simp [fields], restores_hton16 2 _⟩ ?_
    refine .cons ⟨getMessageBody, by simp [fields], restores_messageBody⟩ ?_
    exact .nil

theorem VxlanHeader.roundTrip : fields.RoundTrip 8 where
  names := by decide
  capital := by simp [fields, Capital]
  fill := by
    refine ⟨[wholeBytes 0 1, wholeBytes 1 3, wholeBytes 4 3,
      wholeBytes 7 1], ?_, covers_of_maskAt (by decide)⟩
    refine .cons ⟨getFlags, by simp [fields], restores_byte 0 _⟩ ?_
    refine .cons ⟨getReserved, by simp [fields], restores_triple 1⟩ ?_
    refine .cons ⟨getVNI, by simp [fields], restores_triple 4⟩ ?_
    refine .cons ⟨getReserved2, by simp [fields], restores_byte 7 _⟩ ?_
    exact .nil

theorem GreHeader.roundTrip : fields.RoundTrip 4 where
  names := by decide
  capital := by simp [fields, Capital]
  fill := by
    refine ⟨[wholeBytes 2 2, wholeBytes 0 2], ?_, covers_of_maskAt (by decide)⟩
    refine .cons ⟨getProtoType, by simp [fields], restores_hton16 2 _⟩ ?_
    refine .cons ⟨getFlagsAndVersion, by simp [fields], restores_hton16 0 _⟩ ?_
    exact .nil

theorem EspHeader.roundTrip (env : Environment) :
    (fields env).RoundTrip 16 where
  names := by simp [fields]
  capital := by simp [fields, Capital]
  fill := by
    refine ⟨[wholeBytes 0 4, wholeBytes 4 4, wholeBytes 8 8], ?_, covers_of_maskAt (by decide)⟩
    refine .cons ⟨getSPI, by simp [fields], restores_hton 0 _⟩ ?_
    refine .cons ⟨getSQN, by simp [fields], restores_hton 4 _⟩ ?_
    refine .cons ⟨getIV, by simp [fields], restores_iv env⟩ ?_
    exact .nil

theorem IpfixHeader.roundTrip : fields.RoundTrip 16 where
  names := by decide
  capital := by simp [fields, Capital]
  fill := by
    refine ⟨[wholeBytes 0 2, wholeBytes 2 2, wholeBytes 4 4, wholeBytes 8 4,
      wholeBytes 12 4], ?_, covers_of_maskAt (by decide)⟩
    refine .cons ⟨getVersion, by simp [fields], restores_hton16 0 _⟩ ?_
    refine .cons ⟨getLength, by simp [fields], restores_hton16 2 _⟩ ?_
    refine .cons ⟨getExportTime, by simp [fields], restores_hton 4 _⟩ ?_
    refine .cons ⟨getSeq, by simp [fields], restores_hton 8 _⟩ ?_
    refine .cons ⟨getObservationDomain, by simp [fields], restores_hton 12 _⟩ ?_
    exact .nil

end Libmoon.Packet
