import Libmoon.Packet.StoredFields

/-! # sFlow headers

The numbers of the header have accessors that are made by two functions. `get` writes the
version under the names of all six fields, so that filling another header with its result
repeats this one number.
-/

namespace Libmoon.Packet

open Foundation

namespace SflowHeader

/-- A function that `genIntSetter` returns. -/
def genIntSetter (field : Nat) : Setter := setHton field 0

/-- A function that `genIntGetter` returns. -/
def genIntGetter (field : Nat) : Getter := fun mem base =>
  let num : ℤ := (bswap ((mem.word (base + field) 4).setWidth 32)).toInt
  let num : ℤ := if num < 0 then 0x100000000 + num else num
  .number num

def setVersion : Setter := genIntSetter 0

def getVersion : Getter := genIntGetter 0

/-- The address follows its type, which is set, too. -/
def setAgentIp : Setter := fun arg mem base => do
  let ip ← numberOr 0 arg
  let mem := mem.setWord (base + 4) ((bswap (tobit 1)).setWidth (8 * 4))
  some (Ip4Addr.set mem (base + 8) ip)

/-- `getAgentIp`; the assertion fails for other types. -/
def getAgentIp (mem : Memory) (base : Nat) : Option ℚ :=
  if ((mem.word (base + 4) 4).toNat : ℤ) = (bswap (tobit 1)).toInt then
    some (Ip4Addr.get mem (base + 8))
  else none

def setSubAgentId : Setter := genIntSetter 12

def getSubAgentId : Getter := genIntGetter 12

def setSeq : Setter := genIntSetter 16

def getSeq : Getter := genIntGetter 16

def setUptime : Setter := genIntSetter 20

def getUptime : Getter := genIntGetter 20

def setNumSamples : Setter := genIntSetter 24

def getNumSamples : Getter := genIntGetter 24

/-- What `sflowHeader:get` and `sflowHeader:fill` call for each name. -/
def fields : HeaderFields where
  get := [("Version", getVersion), ("AgentIp", getVersion), ("SubAgentId", getVersion),
    ("Seq", getVersion), ("Uptime", getVersion), ("NumSamples", getVersion)]
  fill := [("Version", setVersion), ("AgentIp", setAgentIp), ("SubAgentId", setSubAgentId),
    ("Seq", setSeq), ("Uptime", setUptime), ("NumSamples", setNumSamples)]

/-- `sflowHeader:get`. -/
def get (mem : Memory) (base : Nat) (pre : Option String) : NamedArgs :=
  mergeGet mem base (pre.getD "sflow") (fun _ => none) fields.get

/-- `sflowHeader:fill`. -/
def fill (args : NamedArgs) (pre : Option String) (mem : Memory) (base : Nat) : Option Memory :=
  runSetters base (pre.getD "sflow") args fields.fill mem

/-- Two headers have the same values in all fields. -/
structure SameFields (first second : Memory) (base : Nat) : Prop where
  version : getVersion first base = getVersion second base
  agentIp : getAgentIp first base = getAgentIp second base
  subAgentId : getSubAgentId first base = getSubAgentId second base
  seq : getSeq first base = getSeq second base
  uptime : getUptime first base = getUptime second base
  numSamples : getNumSamples first base = getNumSamples second base

/-- Filling a header with what has been read from another one copies its fields. -/
def RoundTrip (pre : Option String) (src dst : Memory) (base : Nat) : Prop :=
  ∃ dst', fill (get src base pre) pre dst base = some dst' ∧ SameFields dst' src base

/-! ## Accessors -/

theorem fromBigEndian_load_lt (mem : Memory) (start : Nat) :
    fromBigEndian (mem.load start 4) < 2 ^ 32 := by
  have hlt := fromBigEndian_lt (mem.load start 4)
  rwa [Memory.length_load] at hlt

theorem fromBigEndian_load_inj {first second : Memory} {start start' : Nat}
    (heq : fromBigEndian (first.load start 4) = fromBigEndian (second.load start' 4)) :
    first.load start 4 = second.load start' 4 := by
  have hfirst := bigEndian_fromBigEndian (first.load start 4)
  have hsecond := bigEndian_fromBigEndian (second.load start' 4)
  rw [Memory.length_load] at hfirst hsecond
  rw [← hfirst, heq, hsecond]

/-- The correction makes the number unsigned. -/
theorem genIntGetter_eq (field : Nat) (mem : Memory) (base : Nat) :
    genIntGetter field mem base = .number (fromBigEndian (mem.load (base + field) 4) : ℕ) := by
  have hlt := fromBigEndian_load_lt mem (base + field)
  have hnum : (if (bswap ((mem.word (base + field) 4).setWidth 32)).toInt < 0 then
      0x100000000 + (bswap ((mem.word (base + field) 4).setWidth 32)).toInt
      else (bswap ((mem.word (base + field) 4).setWidth 32)).toInt) =
      (fromBigEndian (mem.load (base + field) 4) : ℤ) := by
    rw [BitVec.toInt_eq_toNat_cond, Memory.toNat_bswap_word]
    split_ifs <;> omega
  rw [genIntGetter, hnum, Int.cast_natCast]

theorem genIntGetter_eq_iff {field : Nat} {first second : Memory} {base : Nat} :
    genIntGetter field first base = genIntGetter field second base ↔
      first.load (base + field) 4 = second.load (base + field) 4 := by
  rw [genIntGetter_eq, genIntGetter_eq, Value.number.injEq, Nat.cast_inj]
  exact ⟨fromBigEndian_load_inj, congrArg fromBigEndian⟩

/-- The bytes of the type of an IPv4 address. -/
def ip4Type : List UInt8 := [0, 0, 0, 1]

theorem tobit_one : tobit 1 = 1#32 := by
  rw [← Nat.cast_one, tobit_natCast]

theorem getAgentIp_of_ip4 {mem : Memory} {base : Nat} (htype : mem.load (base + 4) 4 = ip4Type) :
    getAgentIp mem base = some (Ip4Addr.get mem (base + 8)) := by
  rw [getAgentIp, Memory.toNat_word, htype, tobit_one]
  exact if_pos (by simp [ip4Type, Nat.ofDigits_cons, bswap])

theorem ip4Get_eq_iff {first second : Memory} {start : Nat} :
    Ip4Addr.get first start = Ip4Addr.get second start ↔
      first.load start 4 = second.load start 4 := by
  rw [Ip4Addr.get, Ip4Addr.get, Int.cast_inj, BitVec.toInt_inj, ← BitVec.toNat_inj,
    Memory.toNat_bswap_word, Memory.toNat_bswap_word]
  exact ⟨fromBigEndian_load_inj, congrArg fromBigEndian⟩

/-! ## Round trip -/

/-- Any field can be set to the number of another one. -/
theorem stores_number (target field : Nat) (src : Memory) (base : Nat) :
    Stores (genIntSetter target) (some (genIntGetter field src base))
      ⟨target, src.load (base + field) 4⟩ := by
  have hstores := stores_hton target 0 (fromBigEndian (src.load (base + field) 4) : ℕ)
  have hbytes := bigEndian_fromBigEndian (src.load (base + field) 4)
  rw [Memory.length_load] at hbytes
  rw [tobit_natCast, BitVec.toNat_ofNat, Nat.mod_eq_of_lt (fromBigEndian_load_lt src _),
    hbytes] at hstores
  rw [genIntGetter_eq]
  exact hstores

theorem stores_agentIp (field : Nat) (src : Memory) (base : Nat) :
    Stores setAgentIp (some (genIntGetter field src base))
      ⟨4, ip4Type ++ src.load (base + field) 4⟩ := by
  intro mem base'
  have hbytes := bigEndian_fromBigEndian (src.load (base + field) 4)
  rw [Memory.length_load] at hbytes
  have htype : bigEndian 4 (tobit 1).toNat = ip4Type := by
    rw [tobit_one]
    rfl
  have happend := mem.store_append (base' + 4) ip4Type (src.load (base + field) 4)
  simp only [genIntGetter_eq, setAgentIp, numberOr, Option.bind_eq_bind, Option.bind_some,
    Ip4Addr.set, Memory.setWord_bswap, htype, tobit_natCast, BitVec.toNat_ofNat,
    Nat.mod_eq_of_lt (fromBigEndian_load_lt src _), hbytes]
  exact congrArg some happend

/-- All fields get the bytes of the version. -/
def copiedFields (src : Memory) (base : Nat) : List FieldBytes :=
  [⟨0, src.load (base + 0) 4⟩, ⟨4, ip4Type ++ src.load (base + 0) 4⟩, ⟨12, src.load (base + 0) 4⟩,
    ⟨16, src.load (base + 0) 4⟩, ⟨20, src.load (base + 0) 4⟩, ⟨24, src.load (base + 0) 4⟩]

theorem stores_fields (src : Memory) (base : Nat) (pre : Option String) :
    List.Forall₂
      (fun step field => Stores step.2 (get src base pre (pre.getD "sflow" ++ step.1)) field)
      fields.fill (copiedFields src base) := by
  have hargs : ∀ field ∈ fields.get,
      get src base pre (pre.getD "sflow" ++ field.1) = some (field.2 src base) :=
    fun field hfield => mergeGet_of_mem (by decide) hfield
  simp only [fields, List.forall_mem_cons] at hargs
  obtain ⟨hversion, hagentIp, hsubAgentId, hseq, huptime, hnumSamples, _⟩ := hargs
  simp only [fields, copiedFields, List.forall₂_cons, hversion, hagentIp, hsubAgentId, hseq,
    huptime, hnumSamples]
  exact ⟨stores_number 0 0 src base, stores_agentIp 0 src base, stores_number 12 0 src base,
    stores_number 16 0 src base, stores_number 20 0 src base, stores_number 24 0 src base, .nil⟩

/-- The other fields whose four bytes have to be those of the version. -/
def repeatedFields : List Nat := [8, 12, 16, 20, 24]

/-- Fields of headers with IPv4 addresses are the same if their bytes are. -/
theorem sameFields_iff {first second : Memory} {base : Nat}
    (hfirst : first.load (base + 4) 4 = ip4Type) (hsecond : second.load (base + 4) 4 = ip4Type) :
    SameFields first second base ↔ ∀ field ∈ 0 :: repeatedFields,
      first.load (base + field) 4 = second.load (base + field) 4 := by
  have hagentIp : getAgentIp first base = getAgentIp second base ↔
      first.load (base + 8) 4 = second.load (base + 8) 4 := by
    rw [getAgentIp_of_ip4 hfirst, getAgentIp_of_ip4 hsecond, Option.some.injEq, ip4Get_eq_iff]
  simp only [repeatedFields, List.forall_mem_cons, List.not_mem_nil, false_implies, implies_true,
    and_true]
  constructor
  · intro hsame
    exact ⟨genIntGetter_eq_iff.mp hsame.version, hagentIp.mp hsame.agentIp,
      genIntGetter_eq_iff.mp hsame.subAgentId, genIntGetter_eq_iff.mp hsame.seq,
      genIntGetter_eq_iff.mp hsame.uptime, genIntGetter_eq_iff.mp hsame.numSamples⟩
  · rintro ⟨hversion, hip, hsubAgentId, hseq, huptime, hnumSamples⟩
    exact ⟨genIntGetter_eq_iff.mpr hversion, hagentIp.mpr hip,
      genIntGetter_eq_iff.mpr hsubAgentId, genIntGetter_eq_iff.mpr hseq,
      genIntGetter_eq_iff.mpr huptime, genIntGetter_eq_iff.mpr hnumSamples⟩

/-- A header comes back exactly if all its fields have the value of the version. -/
theorem roundTrip_iff_repeats (pre : Option String) (src dst : Memory) (base : Nat)
    (htype : src.load (base + 4) 4 = ip4Type) :
    RoundTrip pre src dst base ↔
      ∀ field ∈ repeatedFields, src.load (base + field) 4 = src.load (base + 0) 4 := by
  have hslots : (copiedFields src base).map FieldBytes.slot =
      [(0, 4), (4, 8), (12, 4), (16, 4), (20, 4), (24, 4)] := rfl
  have hempty : Holds dst base [] := List.forall_mem_nil _
  obtain ⟨dst', hfill, hholds⟩ := runSetters_holds (stores_fields src base pre)
    (by rw [hslots]; decide) (by simp) hempty
  simp only [List.nil_append, copiedFields, Holds, List.forall_mem_cons, HoldsField,
    List.length_append, Memory.length_load] at hholds
  obtain ⟨hversion, hagentIp, hsubAgentId, hseq, huptime, hnumSamples, -⟩ := hholds
  obtain ⟨hdstType, hdstIp⟩ : dst'.load (base + 4) 4 = ip4Type ∧
      dst'.load (base + 8) 4 = src.load (base + 0) 4 := by
    change dst'.load (base + 4) (4 + 4) = _ at hagentIp
    rw [Memory.load_add] at hagentIp
    exact List.append_inj hagentIp (Memory.length_load ..)
  have hsame : SameFields dst' src base ↔
      ∀ field ∈ repeatedFields, src.load (base + field) 4 = src.load (base + 0) 4 := by
    rw [sameFields_iff hdstType htype]
    rw [List.forall_mem_cons, and_iff_right hversion]
    have hrepeated : ∀ field ∈ repeatedFields,
        dst'.load (base + field) 4 = src.load (base + 0) 4 := by
      simp only [repeatedFields, List.forall_mem_cons]
      exact ⟨hdstIp, hsubAgentId, hseq, huptime, hnumSamples, List.forall_mem_nil _⟩
    refine forall₂_congr fun field hfield => ?_
    rw [hrepeated field hfield, eq_comm]
  rw [RoundTrip, ← hsame, fill, hfill]
  simp

/-- All words of the header but the type of the address are 5. -/
theorem roundTrip_repeating :
    RoundTrip none (fun i => if i = 7 then 1 else if i % 4 = 3 then 5 else 0) (fun _ => 0) 0 :=
  (roundTrip_iff_repeats none _ _ 0 rfl).mpr (by decide)

/-- A header of version 5 with one sample gets five of them. -/
theorem oneSample_not_roundTrip :
    ¬ RoundTrip none (fun i => if i = 3 then 5 else if i = 7 ∨ i = 27 then 1 else 0)
      (fun _ => 0) 0 := by
  rw [roundTrip_iff_repeats none _ _ 0 rfl]
  decide

end SflowHeader

end Libmoon.Packet
