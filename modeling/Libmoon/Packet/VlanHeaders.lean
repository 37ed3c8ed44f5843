import Libmoon.Packet.StoredFields

/-! # VLAN and QinQ headers

Two kinds of Ethernet headers with tags. Setters of tags take all 16 bits and getters return
the lower twelve of them, and the getter of the outer VLAN identifier reads the outer tag.
`get` has a default for the prefix of arguments, which `fill` has only for those of the
Ethernet header.
-/

namespace Libmoon.Packet

open Foundation

namespace EtherHeader

/-- The fields of `etherHeader:get` and `etherHeader:fill`, with the offset of the type. -/
def fieldsAt (typeOffset : Nat) : HeaderFields where
  get := [("Src", getAddress 6), ("Dst", getAddress 0), ("Type", getHton16 typeOffset)]
  fill := [("Src", setAddress 6), ("Dst", setAddress 0), ("Type", setHton16 typeOffset 0x0800)]

/-- In a header without tags, the type is behind the addresses. -/
theorem fieldsAt_twelve : fieldsAt 12 = fields := rfl

/-- `etherHeader:get`. -/
def get (typeOffset : Nat) (mem : Memory) (base : Nat) (pre : Option String) : NamedArgs :=
  mergeGet mem base (pre.getD "eth") (fun _ => none) (fieldsAt typeOffset).get

/-- `etherHeader:fill`. -/
def fill (typeOffset : Nat) (args : NamedArgs) (pre : Option String) (mem : Memory) (base : Nat) :
    Option Memory :=
  let pre := pre.getD "eth"
  let args := args.setDefault (pre ++ "Src") (.text "02:03:04:05:06:07")
  let args := args.setDefault (pre ++ "Dst") (.text "08:09:0a:0b:0c:0d")
  runSetters base pre args (fieldsAt typeOffset).fill mem

end EtherHeader

/-- The lower twelve bits of a tag. -/
def getTag (offset : Nat) : Getter :=
  getBits offset 2 fun tag => bswap16 tag &&& 0xfff#32

namespace VlanHeader

def setVlanTag : Setter := setHton16 14 1

def getVlanTag : Getter := getTag 14

/-- `etherVlanHeader:get`. -/
def get (mem : Memory) (base : Nat) (pre : Option String) : NamedArgs :=
  let args := EtherHeader.get 16 mem base pre
  args.set (pre.getD "eth" ++ "Vlan") (getVlanTag mem base)

/-- `etherVlanHeader:fill`. Without a prefix, `pre .. "Vlan"` raises an error. -/
def fill (args : NamedArgs) (pre : Option String) (mem : Memory) (base : Nat) : Option Memory := do
  let mem := mem.setWord (base + 12) (0x0081#(8 * 2))
  let key := (← pre) ++ "Vlan"
  let mem ← setVlanTag (args key) mem base
  EtherHeader.fill 16 args pre mem base

/-- Filling a header with what has been read from another one copies its 18 bytes. -/
def RoundTrip (pre : Option String) (src dst : Memory) (base : Nat) : Prop :=
  ∃ dst', fill (get src base pre) pre dst base = some dst' ∧
    ∀ i < 18, dst' (base + i) = src (base + i)

end VlanHeader

namespace QinQHeader

def setInnerVlanTag : Setter := setHton16 18 0

def getInnerVlanTag : Getter := getTag 18

def setOuterVlanTag : Setter := setHton16 14 0

def getOuterVlanTag : Getter := getTag 14

/-- The member that is read is the tag. -/
def getOuterVlanId : Getter := getHton16 14

def setOuterVlanId : Setter := setHton16 12 0x8100

/-- `etherQinQHeader:get`. -/
def get (mem : Memory) (base : Nat) (pre : Option String) : NamedArgs :=
  let args := EtherHeader.get 20 mem base pre
  let args := args.set (pre.getD "eth" ++ "outerVlanId") (getOuterVlanId mem base)
  let args := args.set (pre.getD "eth" ++ "outerVlanTag") (getOuterVlanTag mem base)
  args.set (pre.getD "eth" ++ "innerVlanTag") (getInnerVlanTag mem base)

/-- `etherQinQHeader:fill`, with the same error. -/
def fill (args : NamedArgs) (pre : Option String) (mem : Memory) (base : Nat) : Option Memory := do
  let innerKey := (← pre) ++ "innerVlanTag"
  let outerIdKey := (← pre) ++ "outerVlanId"
  let outerTagKey := (← pre) ++ "outerVlanTag"
  let mem := mem.setWord (base + 16) ((bswap16 (tobit 0x8100)).setWidth (8 * 2))
  let mem ← setInnerVlanTag (args innerKey) mem base
  let mem ← setOuterVlanId (args outerIdKey) mem base
  let mem ← setOuterVlanTag (args outerTagKey) mem base
  EtherHeader.fill 20 args pre mem base

/-- Filling a header with what has been read from another one copies its 22 bytes. -/
def RoundTrip (pre : Option String) (src dst : Memory) (base : Nat) : Prop :=
  ∃ dst', fill (get src base pre) pre dst base = some dst' ∧
    ∀ i < 22, dst' (base + i) = src (base + i)

end QinQHeader

/-! ## Ethernet part -/

section Ether

variable {typeOffset : Nat} {args : NamedArgs} {pre : String} {base : Nat}

/-- Addresses that are in the table are not replaced by the defaults. -/
theorem EtherHeader.fill_eq (mem : Memory) (hsrc : truthy (args (pre ++ "Src")) = true)
    (hdst : truthy (args (pre ++ "Dst")) = true) :
    EtherHeader.fill typeOffset args (some pre) mem base =
      runSetters base pre args (fieldsAt typeOffset).fill mem := by
  simp only [EtherHeader.fill, Option.getD_some]
  rw [NamedArgs.setDefault_of_truthy hsrc, NamedArgs.setDefault_of_truthy hdst]

/-- What the setters of the Ethernet part store. -/
theorem EtherHeader.stores_fields {src : Memory}
    (hargs : ∀ field ∈ (fieldsAt typeOffset).get, args (pre ++ field.1) = some (field.2 src base)) :
    List.Forall₂ (fun step field => Stores step.2 (args (pre ++ step.1)) field)
      (fieldsAt typeOffset).fill
      [⟨6, src.load (base + 6) 6⟩, ⟨0, src.load (base + 0) 6⟩,
        ⟨typeOffset, src.load (base + typeOffset) 2⟩] := by
  simp only [fieldsAt, List.forall_mem_cons] at hargs ⊢
  obtain ⟨hsrc, hdst, htype, _⟩ := hargs
  refine .cons ?_ (.cons ?_ (.cons ?_ .nil))
  · rw [hsrc]
    exact stores_getAddress src base 6
  · rw [hdst]
    exact stores_getAddress src base 0
  · rw [htype]
    exact stores_getHton16 src base typeOffset _

end Ether

theorem stores_getTag (src : Memory) (base offset target : Nat) (default : ℚ) :
    Stores (setHton16 target default) (some (getTag offset src base))
      ⟨target, bigEndian 2 (netShort src (base + offset) % 2 ^ 12)⟩ := by
  have htag : getTag offset src base = .number (netShort src (base + offset) % 2 ^ 12 : Nat) :=
    getBits_low src base offset 12 (by decide)
  rw [htag]
  exact stores_hton16 target default
    ((Nat.mod_le _ _).trans_lt (netShort_lt src (base + offset)))

/-- What is stored first holds. -/
theorem holds_store (mem : Memory) (base : Nat) (field : FieldBytes) :
    Holds (mem.store (base + field.offset) field.bytes) base [field] := by
  intro other hother
  rw [List.mem_singleton.mp hother]
  exact holdsField_store mem base field

/-! ## Round trips -/

namespace VlanHeader

variable {src dst : Memory} {base : Nat}

/-- The fields that `get` reads. -/
def getters : List (String × Getter) := (EtherHeader.fieldsAt 16).get ++ [("Vlan", getVlanTag)]

theorem get_eq (mem : Memory) (base : Nat) (pre : Option String) :
    get mem base pre = mergeGet mem base (pre.getD "eth") (fun _ => none) getters := rfl

theorem fill_eq {args : NamedArgs} {pre : String} (mem : Memory)
    (hsrc : truthy (args (pre ++ "Src")) = true) (hdst : truthy (args (pre ++ "Dst")) = true) :
    fill args (some pre) mem base =
      runSetters base pre args (("Vlan", setVlanTag) :: (EtherHeader.fieldsAt 16).fill)
        (mem.store (base + 12) (bigEndian 2 0x8100)) := by
  have hid : mem.setWord (base + 12) (0x0081#(8 * 2)) =
      mem.store (base + 12) (bigEndian 2 0x8100) := by
    rw [Memory.setWord_eq_store]
    rfl
  rw [fill, runSetters, hid]
  simp only [Option.bind_eq_bind, Option.bind_some]
  exact congrArg _ (funext fun mem => EtherHeader.fill_eq mem hsrc hdst)

/-- With a prefix, the header holds these fields in the end. -/
theorem fill_get_holds (pre : String) (src dst : Memory) (base : Nat) :
    ∃ dst', fill (get src base (some pre)) (some pre) dst base = some dst' ∧
      Holds dst' base [⟨12, bigEndian 2 0x8100⟩,
        ⟨14, bigEndian 2 (netShort src (base + 14) % 2 ^ 12)⟩, ⟨6, src.load (base + 6) 6⟩,
        ⟨0, src.load (base + 0) 6⟩, ⟨16, src.load (base + 16) 2⟩] := by
  have hargs : ∀ field ∈ getters,
      get src base (some pre) (pre ++ field.1) = some (field.2 src base) := by
    intro field hfield
    rw [get_eq]
    exact mergeGet_of_mem (by decide) hfield
  have hether := fun field hfield => hargs field (List.mem_append_left _ hfield)
  have htag := hargs ("Vlan", getVlanTag) (by simp [getters])
  have hsrc := hargs ("Src", EtherHeader.getAddress 6) (by simp [getters, EtherHeader.fieldsAt])
  have hdst := hargs ("Dst", EtherHeader.getAddress 0) (by simp [getters, EtherHeader.fieldsAt])
  rw [fill_eq dst (truthy_of_eq hsrc rfl) (truthy_of_eq hdst rfl)]
  refine runSetters_holds (.cons ?_ (EtherHeader.stores_fields hether)) ?_ ?_
    (holds_store dst base ⟨12, bigEndian 2 0x8100⟩)
  · rw [htag]
    exact stores_getTag src base 14 14 1
  · simp [FieldBytes.slot, Apart]
  · simp [FieldBytes.slot, Apart]

/-- A header with the usual TPID comes back exactly if the prefix is given and the tag has no
upper bits. -/
theorem roundTrip_iff_of_tpid (pre : Option String) (src dst : Memory) (base : Nat)
    (htpid : netShort src (base + 12) = 0x8100) :
    RoundTrip pre src dst base ↔ pre.isSome ∧ netShort src (base + 14) < 2 ^ 12 := by
  cases pre with
  | none => simp [RoundTrip, fill]
  | some pre =>
      obtain ⟨dst', hfill, hholds⟩ := fill_get_holds pre src dst base
      have hfills : Fills [(12, 2), (14, 2), (6, 6), (0, 6), (16, 2)] 18 := by decide
      rw [RoundTrip, hholds.copies_iff hfill hfills]
      simp only [Holds, List.forall_mem_cons, holdsField_load, holdsField_low_iff,
        holdsField_short_iff (show 0x8100 < 2 ^ 16 by decide), htpid]
      simp

end VlanHeader

namespace QinQHeader

/-- The fields that `get` reads. -/
def getters : List (String × Getter) :=
  (EtherHeader.fieldsAt 20).get ++ [("outerVlanId", getOuterVlanId),
    ("outerVlanTag", getOuterVlanTag), ("innerVlanTag", getInnerVlanTag)]

theorem get_eq (mem : Memory) (base : Nat) (pre : Option String) :
    get mem base pre = mergeGet mem base (pre.getD "eth") (fun _ => none) getters := rfl

theorem fill_eq {args : NamedArgs} {pre : String} {base : Nat} (mem : Memory)
    (hsrc : truthy (args (pre ++ "Src")) = true) (hdst : truthy (args (pre ++ "Dst")) = true) :
    fill args (some pre) mem base =
      runSetters base pre args (("innerVlanTag", setInnerVlanTag) ::
        ("outerVlanId", setOuterVlanId) :: ("outerVlanTag", setOuterVlanTag) ::
          (EtherHeader.fieldsAt 20).fill) (mem.store (base + 16) (bigEndian 2 0x8100)) := by
  have hid : mem.setWord (base + 16) ((bswap16 (tobit 0x8100)).setWidth (8 * 2)) =
      mem.store (base + 16) (bigEndian 2 0x8100) := by
    have htpid : tobit 0x8100 = BitVec.ofNat 32 0x8100 := tobit_natCast 0x8100
    rw [htpid, Memory.setWord_bswap16 _ _ (by decide)]
  rw [fill, runSetters, hid]
  simp only [Option.bind_eq_bind, Option.bind_some]
  refine congrArg _ (funext fun mem => ?_)
  rw [runSetters, Option.bind_eq_bind]
  refine congrArg _ (funext fun mem => ?_)
  rw [runSetters, Option.bind_eq_bind]
  exact congrArg _ (funext fun mem => EtherHeader.fill_eq mem hsrc hdst)

/-- With a prefix, the header holds these fields in the end. -/
theorem fill_get_holds (pre : String) (src dst : Memory) (base : Nat) :
    ∃ dst', fill (get src base (some pre)) (some pre) dst base = some dst' ∧
      Holds dst' base [⟨16, bigEndian 2 0x8100⟩,
        ⟨18, bigEndian 2 (netShort src (base + 18) % 2 ^ 12)⟩,
        ⟨12, bigEndian 2 (netShort src (base + 14))⟩,
        ⟨14, bigEndian 2 (netShort src (base + 14) % 2 ^ 12)⟩, ⟨6, src.load (base + 6) 6⟩,
        ⟨0, src.load (base + 0) 6⟩, ⟨20, src.load (base + 20) 2⟩] := by
  have hargs : ∀ field ∈ getters,
      get src base (some pre) (pre ++ field.1) = some (field.2 src base) := by
    intro field hfield
    rw [get_eq]
    exact mergeGet_of_mem (by decide) hfield
  have hether := fun field hfield => hargs field (List.mem_append_left _ hfield)
  have hinner := hargs ("innerVlanTag", getInnerVlanTag) (by simp [getters])
  have houterId := hargs ("outerVlanId", getOuterVlanId) (by simp [getters])
  have houterTag := hargs ("outerVlanTag", getOuterVlanTag) (by simp [getters])
  have hsrc := hargs ("Src", EtherHeader.getAddress 6) (by simp [getters, EtherHeader.fieldsAt])
  have hdst := hargs ("Dst", EtherHeader.getAddress 0) (by simp [getters, EtherHeader.fieldsAt])
  rw [fill_eq dst (truthy_of_eq hsrc rfl) (truthy_of_eq hdst rfl)]
  refine runSetters_holds
    (.cons ?_ (.cons ?_ (.cons ?_ (EtherHeader.stores_fields hether)))) ?_ ?_
    (holds_store dst base ⟨16, bigEndian 2 0x8100⟩)
  · rw [hinner]
    exact stores_getTag src base 18 18 0
  · rw [houterId]
    exact stores_getHton16_at src base 14 12 _
  · rw [houterTag]
    exact stores_getTag src base 14 14 0
  · simp [FieldBytes.slot, Apart]
  · simp [FieldBytes.slot, Apart]

/-- A header with the usual inner TPID comes back exactly if the prefix is given, the outer
TPID is equal to the outer tag, and the tags have no upper bits. -/
theorem roundTrip_iff_of_tpid (pre : Option String) (src dst : Memory) (base : Nat)
    (htpid : netShort src (base + 16) = 0x8100) :
    RoundTrip pre src dst base ↔ pre.isSome ∧ netShort src (base + 12) = netShort src (base + 14) ∧
      netShort src (base + 14) < 2 ^ 12 ∧ netShort src (base + 18) < 2 ^ 12 := by
  cases pre with
  | none => simp [RoundTrip, fill]
  | some pre =>
      obtain ⟨dst', hfill, hholds⟩ := fill_get_holds pre src dst base
      have hfills : Fills [(16, 2), (18, 2), (12, 2), (14, 2), (6, 6), (0, 6), (20, 2)] 22 := by
        decide
      rw [RoundTrip, hholds.copies_iff hfill hfills]
      simp only [Holds, List.forall_mem_cons, holdsField_load, holdsField_low_iff,
        holdsField_short_iff (show 0x8100 < 2 ^ 16 by decide),
        holdsField_short_iff (netShort_lt src (base + 14)), htpid]
      simp
      tauto

end QinQHeader

/-- For every prefix, every content of both headers and every address: both kinds of headers
come back under these conditions only. -/
theorem vlanHeaders_roundTrip_iff (pre : Option String) (src dst : Memory) (base : Nat) :
    (netShort src (base + 12) = 0x8100 →
      (VlanHeader.RoundTrip pre src dst base ↔
        pre.isSome ∧ netShort src (base + 14) < 2 ^ 12)) ∧
    (netShort src (base + 16) = 0x8100 →
      (QinQHeader.RoundTrip pre src dst base ↔
        pre.isSome ∧ netShort src (base + 12) = netShort src (base + 14) ∧
          netShort src (base + 14) < 2 ^ 12 ∧ netShort src (base + 18) < 2 ^ 12)) :=
  ⟨VlanHeader.roundTrip_iff_of_tpid pre src dst base,
    QinQHeader.roundTrip_iff_of_tpid pre src dst base⟩

/-- A header with the TPIDs of both kinds. -/
def taggedHeader : Memory := fun i => if i = 12 ∨ i = 16 then 0x81 else 0

theorem vlanHeaders_roundTrip_taggedHeader :
    netShort taggedHeader (0 + 12) = 0x8100 ∧ netShort taggedHeader (0 + 16) = 0x8100 ∧
      (VlanHeader.RoundTrip (some "eth") taggedHeader (fun _ => 0xff) 0 ↔
        (some "eth").isSome ∧ netShort taggedHeader (0 + 14) < 2 ^ 12) ∧
      (QinQHeader.RoundTrip (some "eth") taggedHeader (fun _ => 0xff) 0 ↔
        (some "eth").isSome ∧ netShort taggedHeader (0 + 12) = netShort taggedHeader (0 + 14) ∧
          netShort taggedHeader (0 + 14) < 2 ^ 12 ∧ netShort taggedHeader (0 + 18) < 2 ^ 12) :=
  ⟨by decide, by decide,
    (vlanHeaders_roundTrip_iff (some "eth") taggedHeader (fun _ => 0xff) 0).1 (by decide),
    (vlanHeaders_roundTrip_iff (some "eth") taggedHeader (fun _ => 0xff) 0).2 (by decide)⟩

/-- The same with priority bits in the tag. -/
def priorityHeader : Memory := fun i => if i = 14 then 0x20 else taggedHeader i

/-- Without a prefix nothing comes back; with one, priority bits are lost, and the outer TPID
0x8100 is replaced by the outer tag. -/
theorem taggedHeader_not_roundTrip :
    ¬ VlanHeader.RoundTrip none taggedHeader (fun _ => 0xff) 0 ∧
      ¬ VlanHeader.RoundTrip (some "eth") priorityHeader (fun _ => 0xff) 0 ∧
      ¬ QinQHeader.RoundTrip none taggedHeader (fun _ => 0xff) 0 ∧
      ¬ QinQHeader.RoundTrip (some "eth") taggedHeader (fun _ => 0xff) 0 := by
  rw [VlanHeader.roundTrip_iff_of_tpid _ _ _ _ (by decide),
    VlanHeader.roundTrip_iff_of_tpid _ _ _ _ (by decide),
    QinQHeader.roundTrip_iff_of_tpid _ _ _ _ (by decide),
    QinQHeader.roundTrip_iff_of_tpid _ _ _ _ (by decide)]
  decide

end Libmoon.Packet
