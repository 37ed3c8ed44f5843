import Libmoon.Packet.StoredFields

/-! # DNS headers

The flags, the kind of a query and the response code share one 16-bit word. Its bits are set
in the order of the host, `fill` swaps the word in the end, and the getters read it as it is.
`dnsHeader:get` puts its values in a global variable `args` instead of a table of its own.
-/

namespace Libmoon.Packet

open Foundation

namespace DnsHeader

/-- Without an argument, the id is a random number. -/
def setId (randomId : UInt16) : Setter := setHton16 0 randomId.toNat

def getId : Getter := getHton16 0

/-- `self.hdrflags = bor(self.hdrflags, bits)`. -/
def orFlags (bits : BitVec 32) (mem : Memory) (base : Nat) : Memory :=
  mem.setWord (base + 2) (((mem.word (base + 2) 2).setWidth 32 ||| bits).setWidth (8 * 2))

/-- An argument is there, and neither false nor 0. -/
def isSet (arg : Option Value) : Bool := truthy arg && arg != some (.number 0)

/-- `setQR` and the like, which `fill` calls if the argument is set. -/
def setFlag (flag : BitVec 32) : Setter := fun arg mem base =>
  if isSet arg then some (orFlags flag mem base) else some mem

/-- `getQR` and the like. All of them shift by one place. -/
def getFlag (flag : BitVec 32) : Getter :=
  getBits 2 2 fun hdrflags => (hdrflags &&& flag) >>> 1

/-- A code of four bits. Other numbers are ignored. -/
def setCode (place : Nat) : Setter := fun arg mem base => do
  let int ← numberOr 0 arg
  if 0 ≤ int ∧ int ≤ 15 then some (orFlags (tobit int <<< place) mem base) else some mem

def setQR : Setter := setFlag 0x8000#32

def getQR : Getter := getFlag 0x8000#32

def setOPCode : Setter := setCode 11

def getOPCode : Getter := getBits 2 2 fun hdrflags => (hdrflags &&& 0x7800#32) >>> 11

def setAA : Setter := setFlag 0x0400#32

def getAA : Getter := getFlag 0x0400#32

def setTC : Setter := setFlag 0x0200#32

def getTC : Getter := getFlag 0x0200#32

def setRD : Setter := setFlag 0x0100#32

def getRD : Getter := getFlag 0x0100#32

def setRA : Setter := setFlag 0x0080#32

def getRA : Getter := getFlag 0x0080#32

def setRCode : Setter := setCode 0

def getRCode : Getter := getBits 2 2 fun hdrflags => hdrflags &&& 0x000f#32

def setQDCount : Setter := setHton16 4 0

def getQDCount : Getter := getHton16 4

def setANCount : Setter := setHton16 6 0

def getANCount : Getter := getHton16 6

def setNSCount : Setter := setHton16 8 0

def getNSCount : Getter := getHton16 8

def setARCount : Setter := setHton16 10 0

def getARCount : Getter := getHton16 10

/-- A table of numbers is copied behind the header. -/
def setMessageContent : Setter := fun arg mem base =>
  match arg with
  | some (.words content) =>
      some (mem.store (base + 12) (content.map fun word => ⟨word.setWidth 8⟩))
  | _ => some mem

/-- The body itself, which is not a table. -/
def getMessageContent : Getter := fun _ _ => .number 0

/-- What `dnsHeader:fill` calls in front of the swap. -/
def flagSetters (randomId : UInt16) : List (String × Setter) :=
  [("Id", setId randomId), ("Resp", setQR), ("QueryType", setOPCode), ("AuthAnswer", setAA),
    ("Truncated", setTC), ("RecDesired", setRD), ("RecAvailable", setRA), ("RCode", setRCode)]

/-- `self.hdrflags = hton16(self.hdrflags)`. -/
def swapFlags (mem : Memory) (base : Nat) : Memory :=
  mem.setWord (base + 2) ((bswap16 ((mem.word (base + 2) 2).setWidth 32)).setWidth (8 * 2))

/-- What `dnsHeader:fill` calls behind it. -/
def countSetters : List (String × Setter) :=
  [("QDCount", setQDCount), ("ANCount", setANCount), ("NSCount", setNSCount),
    ("ARCount", setARCount), ("MessageContent", setMessageContent)]

/-- `dnsHeader:fill`. -/
def fill (randomId : UInt16) (args : NamedArgs) (pre : Option String) (mem : Memory)
    (base : Nat) : Option Memory := do
  let mem ← runSetters base (pre.getD "dns") args (flagSetters randomId) mem
  runSetters base (pre.getD "dns") args countSetters (swapFlags mem base)

/-- The names in `dnsHeader:get`, four of which differ from those in `dnsHeader:fill`. -/
def getters : List (String × Getter) :=
  [("Id", getId), ("Resp", getQR), ("QueryType", getOPCode), ("AuthoritativeAnswer", getAA),
    ("Truncation", getTC), ("RecursionDesired", getRD), ("RecursionAvailable", getRA),
    ("RCode", getRCode), ("QDCount", getQDCount), ("ANCount", getANCount),
    ("NSCount", getNSCount), ("ARCount", getARCount), ("MessageContent", getMessageContent)]

/-- `dnsHeader:get`. It raises an error if there is no global table `args`, which is nowhere
assigned. -/
def get (globalArgs : Option NamedArgs) (mem : Memory) (base : Nat) (pre : Option String) :
    Option NamedArgs :=
  globalArgs.map fun args => mergeGet mem base (pre.getD "dns") args getters

end DnsHeader

/-- The members of a DNS header. -/
structure DnsValues where
  id : UInt16
  qr : Bool
  opcode : BitVec 4
  aa : Bool
  tc : Bool
  rd : Bool
  ra : Bool
  rcode : BitVec 4
  qdcount : UInt16
  ancount : UInt16
  nscount : UInt16
  arcount : UInt16
deriving DecidableEq

namespace DnsValues

/-- The word with the flags and codes; three bits of it are reserved. -/
def flags (values : DnsValues) : BitVec 16 :=
  BitVec.ofBool values.qr ++ values.opcode ++ BitVec.ofBool values.aa ++ BitVec.ofBool values.tc ++
    BitVec.ofBool values.rd ++ BitVec.ofBool values.ra ++ 0#3 ++ values.rcode

/-- The twelve bytes of a header on the wire. -/
def encode (values : DnsValues) : List UInt8 :=
  bigEndian 2 values.id.toNat ++ bigEndian 2 values.flags.toNat ++
    bigEndian 2 values.qdcount.toNat ++ bigEndian 2 values.ancount.toNat ++
    bigEndian 2 values.nscount.toNat ++ bigEndian 2 values.arcount.toNat

/-- A table gives these values, either by its entries or by defaults for those that it does
not have. -/
structure GivenBy (values : DnsValues) (randomId : UInt16) (args : NamedArgs) (pre : String) :
    Prop where
  id : numberOr randomId.toNat (args (pre ++ "Id")) = some (values.id.toNat : ℚ)
  qr : DnsHeader.isSet (args (pre ++ "Resp")) = values.qr
  opcode : numberOr 0 (args (pre ++ "QueryType")) = some (values.opcode.toNat : ℚ)
  aa : DnsHeader.isSet (args (pre ++ "AuthAnswer")) = values.aa
  tc : DnsHeader.isSet (args (pre ++ "Truncated")) = values.tc
  rd : DnsHeader.isSet (args (pre ++ "RecDesired")) = values.rd
  ra : DnsHeader.isSet (args (pre ++ "RecAvailable")) = values.ra
  rcode : numberOr 0 (args (pre ++ "RCode")) = some (values.rcode.toNat : ℚ)
  qdcount : numberOr 0 (args (pre ++ "QDCount")) = some (values.qdcount.toNat : ℚ)
  ancount : numberOr 0 (args (pre ++ "ANCount")) = some (values.ancount.toNat : ℚ)
  nscount : numberOr 0 (args (pre ++ "NSCount")) = some (values.nscount.toNat : ℚ)
  arcount : numberOr 0 (args (pre ++ "ARCount")) = some (values.arcount.toNat : ℚ)

/-- All getters return these values. -/
structure ReadBack (values : DnsValues) (mem : Memory) (base : Nat) : Prop where
  id : DnsHeader.getId mem base = .number values.id.toNat
  qr : DnsHeader.getQR mem base = .number values.qr.toNat
  opcode : DnsHeader.getOPCode mem base = .number values.opcode.toNat
  aa : DnsHeader.getAA mem base = .number values.aa.toNat
  tc : DnsHeader.getTC mem base = .number values.tc.toNat
  rd : DnsHeader.getRD mem base = .number values.rd.toNat
  ra : DnsHeader.getRA mem base = .number values.ra.toNat
  rcode : DnsHeader.getRCode mem base = .number values.rcode.toNat
  qdcount : DnsHeader.getQDCount mem base = .number values.qdcount.toNat
  ancount : DnsHeader.getANCount mem base = .number values.ancount.toNat
  nscount : DnsHeader.getNSCount mem base = .number values.nscount.toNat
  arcount : DnsHeader.getARCount mem base = .number values.arcount.toNat

/-- The values in which no flag is set, and in which the bits of the codes, with those of an
old word, are the same when they are swapped. -/
def Readable (values : DnsValues) (old : BitVec 16) : Prop :=
  (values.qr = false ∧ values.aa = false ∧ values.tc = false ∧ values.rd = false ∧
      values.ra = false) ∧
    (∀ i ∈ [0, 1, 2, 7, 15], old.getLsbD i = false) ∧
    (∀ i ∈ [0, 1, 2], values.rcode.getLsbD i = false) ∧
    values.opcode = old.extractLsb' 3 4 ||| values.rcode >>> 3 ∧
    values.rcode = old.extractLsb' 8 4 ||| values.opcode <<< 3

instance (values : DnsValues) (old : BitVec 16) : Decidable (values.Readable old) :=
  inferInstanceAs (Decidable (_ ∧ _ ∧ _ ∧ _ ∧ _))

end DnsValues

/-- Filling a header with what has been read from it leaves its twelve bytes unchanged. -/
def DnsHeader.RoundTrip (globalArgs : Option NamedArgs) (randomId : UInt16) (pre : Option String)
    (mem : Memory) (base : Nat) : Prop :=
  ∃ args mem', get globalArgs mem base pre = some args ∧
    fill randomId args pre mem base = some mem' ∧ ∀ i < 12, mem' (base + i) = mem (base + i)

/-! ## The word of flags -/

namespace DnsHeader

/-- With this argument, a setter adds bits to the word of flags. -/
def OrsFlags (setter : Setter) (arg : Option Value) (bits : BitVec (8 * 2)) : Prop :=
  ∀ mem base, setter arg mem base =
    some (mem.setWord (base + 2) (mem.word (base + 2) 2 ||| bits))

theorem orFlags_eq (bits : BitVec 32) (mem : Memory) (base : Nat) :
    orFlags bits mem base =
      mem.setWord (base + 2) (mem.word (base + 2) 2 ||| bits.setWidth (8 * 2)) := by
  rw [orFlags, BitVec.setWidth_or, BitVec.setWidth_setWidth_of_le _ (by decide),
    BitVec.setWidth_eq]

theorem orsFlags_setFlag {flag : BitVec 32} {place : Nat}
    (hflag : flag.setWidth (8 * 2) = 1#(8 * 2) <<< place) (arg : Option Value) :
    OrsFlags (setFlag flag) arg ((BitVec.ofBool (isSet arg)).setWidth (8 * 2) <<< place) := by
  intro mem base
  rw [setFlag, orFlags_eq, hflag]
  cases isSet arg with
  | true => rfl
  | false =>
      have hzero : (BitVec.ofBool false).setWidth (8 * 2) <<< place = 0#(8 * 2) :=
        BitVec.zero_shiftLeft place
      rw [hzero, BitVec.or_zero, Memory.setWord_word]
      rfl

theorem orsFlags_setCode (place : Nat) {code : BitVec 4} {arg : Option Value}
    (harg : numberOr 0 arg = some (code.toNat : ℚ)) :
    OrsFlags (setCode place) arg (code.setWidth (8 * 2) <<< place) := by
  intro mem base
  have hlt := code.isLt
  have hrange : (0 : ℚ) ≤ code.toNat ∧ (code.toNat : ℚ) ≤ 15 :=
    ⟨Nat.cast_nonneg _, by exact_mod_cast Nat.le_of_lt_succ hlt⟩
  have hbits : (tobit code.toNat <<< place).setWidth (8 * 2) = code.setWidth (8 * 2) <<< place := by
    rw [tobit_natCast, BitVec.ofNat_toNat, BitVec.setWidth_shiftLeft_of_le (by decide),
      BitVec.setWidth_setWidth_of_le _ (by decide)]
  rw [setCode, harg, Option.bind_eq_bind, Option.bind_some, if_pos hrange, orFlags_eq, hbits]

/-- Setters that add bits one after another add all of them. -/
theorem runSetters_orsFlags {name : String} {args : NamedArgs} {base : Nat}
    {steps : List (String × Setter)} {added : List (BitVec (8 * 2))}
    (hsteps : List.Forall₂ (fun step bits => OrsFlags step.2 (args (name ++ step.1)) bits) steps
      added) (mem : Memory) :
    runSetters base name args steps mem =
      some (mem.setWord (base + 2) (added.foldl (· ||| ·) (mem.word (base + 2) 2))) := by
  induction hsteps generalizing mem with
  | nil => rw [runSetters, List.foldl_nil, Memory.setWord_word]
  | cons hstep _ ih =>
      rw [runSetters, hstep mem base, Option.bind_eq_bind, Option.bind_some, ih,
        Memory.word_setWord, Memory.setWord_setWord, List.foldl_cons]

/-- The bits that the setters add. -/
def addedBits (values : DnsValues) : List (BitVec (8 * 2)) :=
  [(BitVec.ofBool values.qr).setWidth (8 * 2) <<< 15, values.opcode.setWidth (8 * 2) <<< 11,
    (BitVec.ofBool values.aa).setWidth (8 * 2) <<< 10,
    (BitVec.ofBool values.tc).setWidth (8 * 2) <<< 9,
    (BitVec.ofBool values.rd).setWidth (8 * 2) <<< 8,
    (BitVec.ofBool values.ra).setWidth (8 * 2) <<< 7, values.rcode.setWidth (8 * 2) <<< 0]

/-- Together, they are the word on the wire. -/
theorem foldl_addedBits (values : DnsValues) (old : BitVec 16) :
    (addedBits values).foldl (· ||| ·) old = old ||| values.flags := by
  simp only [addedBits, List.foldl_cons, List.foldl_nil, BitVec.or_assoc]
  refine congrArg (old ||| ·) (BitVec.eq_of_toNat_eq ?_)
  simp (disch := decide) only [DnsValues.flags, BitVec.toNat_or, BitVec.toNat_append,
    toNat_setWidth_shiftLeft, Nat.shiftLeft_or_distrib, ← Nat.shiftLeft_add, BitVec.toNat_ofNat,
    Nat.or_assoc]
  simp

/-- What the setters in front of the swap do, for any arguments that give values. -/
theorem runSetters_flagSetters {values : DnsValues} {randomId : UInt16} {args : NamedArgs}
    {pre : String} (hgiven : values.GivenBy randomId args pre) (mem : Memory) (base : Nat) :
    ∃ mem', runSetters base pre args (flagSetters randomId) mem = some mem' ∧
      swapFlags mem' base = (mem.store (base + 0) (bigEndian 2 values.id.toNat)).store (base + 2)
        (bigEndian 2 (mem.word (base + 2) 2 ||| values.flags).toNat) := by
  have hsteps : List.Forall₂ (fun step bits => OrsFlags step.2 (args (pre ++ step.1)) bits)
      (flagSetters randomId).tail (addedBits values) := by
    refine .cons ?_ (.cons ?_ (.cons ?_ (.cons ?_ (.cons ?_ (.cons ?_ (.cons ?_ .nil))))))
    · rw [← hgiven.qr]
      exact orsFlags_setFlag rfl _
    · exact orsFlags_setCode 11 hgiven.opcode
    · rw [← hgiven.aa]
      exact orsFlags_setFlag rfl _
    · rw [← hgiven.tc]
      exact orsFlags_setFlag rfl _
    · rw [← hgiven.rd]
      exact orsFlags_setFlag rfl _
    · rw [← hgiven.ra]
      exact orsFlags_setFlag rfl _
    · exact orsFlags_setCode 0 hgiven.rcode
  have hid := stores_hton16_of_numberOr 0 values.id.toNat_lt hgiven.id
  have hword : (mem.store (base + 0) (bigEndian 2 values.id.toNat)).word (base + 2) 2 =
      mem.word (base + 2) 2 := by
    apply Memory.word_congr
    intro j _
    unfold Memory.store
    exact if_neg (by simp)
  have hrun : runSetters base pre args (flagSetters randomId) mem =
      runSetters base pre args (flagSetters randomId).tail
        (mem.store (base + 0) (bigEndian 2 values.id.toNat)) := by
    rw [flagSetters, runSetters, setId, hid mem base, Option.bind_eq_bind, Option.bind_some,
      List.tail_cons]
  refine ⟨_, hrun.trans (runSetters_orsFlags hsteps _), ?_⟩
  rw [swapFlags, Memory.word_setWord, Memory.setWord_setWord, foldl_addedBits, hword,
    ← Memory.setWord_bswap16 _ _ (BitVec.isLt _), BitVec.ofNat_toNat]

/-- Whatever the content is, it is stored behind the header. -/
theorem stores_messageContent (arg : Option Value) :
    ∃ bytes, Stores setMessageContent arg ⟨12, bytes⟩ := by
  match arg with
  | some (.words content) => exact ⟨_, fun _ _ => rfl⟩
  | none | some (.number _) | some (.text _) | some (.flag _) =>
      exact ⟨[], fun mem base => congrArg some (mem.store_nil (base + 12)).symm⟩

/-- The fields of a header that has been filled, from the values and the old word of flags. -/
def filledFields (values : DnsValues) (old : BitVec 16) : List FieldBytes :=
  [⟨0, bigEndian 2 values.id.toNat⟩, ⟨2, bigEndian 2 (old ||| values.flags).toNat⟩,
    ⟨4, bigEndian 2 values.qdcount.toNat⟩, ⟨6, bigEndian 2 values.ancount.toNat⟩,
    ⟨8, bigEndian 2 values.nscount.toNat⟩, ⟨10, bigEndian 2 values.arcount.toNat⟩]

/-- Filling a header never fails, and leaves these fields. -/
theorem fill_holds {values : DnsValues} {randomId : UInt16} {args : NamedArgs}
    {pre : Option String} (hgiven : values.GivenBy randomId args (pre.getD "dns")) (mem : Memory)
    (base : Nat) :
    ∃ mem', fill randomId args pre mem base = some mem' ∧
      Holds mem' base (filledFields values (mem.word (base + 2) 2)) := by
  obtain ⟨swapped, hflags, hswapped⟩ := runSetters_flagSetters hgiven mem base
  obtain ⟨content, hcontent⟩ := stores_messageContent (args (pre.getD "dns" ++ "MessageContent"))
  have hcounts : List.Forall₂
      (fun step field => Stores step.2 (args (pre.getD "dns" ++ step.1)) field) countSetters
      [⟨4, bigEndian 2 values.qdcount.toNat⟩, ⟨6, bigEndian 2 values.ancount.toNat⟩,
        ⟨8, bigEndian 2 values.nscount.toNat⟩, ⟨10, bigEndian 2 values.arcount.toNat⟩,
        ⟨12, content⟩] :=
    .cons (stores_hton16_of_numberOr 4 values.qdcount.toNat_lt hgiven.qdcount)
      (.cons (stores_hton16_of_numberOr 6 values.ancount.toNat_lt hgiven.ancount)
        (.cons (stores_hton16_of_numberOr 8 values.nscount.toNat_lt hgiven.nscount)
          (.cons (stores_hton16_of_numberOr 10 values.arcount.toNat_lt hgiven.arcount)
            (.cons hcontent .nil))))
  have hkept : Holds (swapFlags swapped base) base
      ((filledFields values (mem.word (base + 2) 2)).take 2) := by
    rw [hswapped]
    have hid := holdsField_store mem base ⟨0, bigEndian 2 values.id.toNat⟩
    have hapart : Apart (FieldBytes.slot ⟨0, bigEndian 2 values.id.toNat⟩)
        (FieldBytes.slot ⟨2, bigEndian 2 (mem.word (base + 2) 2 ||| values.flags).toNat⟩) := by
      simp [Apart, FieldBytes.slot]
    exact List.forall_mem_cons.mpr
      ⟨hid.store hapart, List.forall_mem_singleton.mpr (holdsField_store _ base ⟨2, _⟩)⟩
  obtain ⟨mem', hrun, hholds⟩ := runSetters_holds hcounts
    (by simp [FieldBytes.slot, Apart]) (by simp [filledFields, FieldBytes.slot, Apart]) hkept
  refine ⟨mem', ?_, ?_⟩
  · rw [fill, hflags, Option.bind_eq_bind, Option.bind_some, hrun]
  · intro field hfield
    apply hholds
    simp only [filledFields, List.take_succ_cons, List.take_zero, List.cons_append,
      List.nil_append, List.mem_cons] at hfield ⊢
    tauto

/-! ## Getters -/

/-- The word that is read, for bytes in network order. -/
theorem word_of_holdsField {mem : Memory} {base : Nat} {word : BitVec 16}
    (hholds : HoldsField mem base ⟨2, bigEndian 2 word.toNat⟩) :
    mem.word (base + 2) 2 = (bswap16 (word.setWidth 32)).setWidth (8 * 2) := by
  have hstore : mem.setWord (base + 2) ((bswap16 (word.setWidth 32)).setWidth (8 * 2)) = mem := by
    rw [← BitVec.ofNat_toNat 32 word, Memory.setWord_bswap16 _ _ word.isLt]
    have hload : mem.load (base + 2) 2 = bigEndian 2 word.toNat := by
      rwa [HoldsField, length_bigEndian] at hholds
    rw [← hload, ← Memory.setWord_word_eq_store, Memory.setWord_word]
  rw [← hstore, Memory.word_setWord]

/-- A swapped word has its bits eight places further, in a circle. -/
theorem getLsbD_swapped (word : BitVec 16) {i : Nat} (hi : i < 16) :
    ((bswap16 (word.setWidth 32)).setWidth (8 * 2)).getLsbD i = word.getLsbD ((i + 8) % 16) := by
  unfold bswap16
  interval_cases i <;> simp

/-- A flag is read as one of two numbers. -/
theorem getFlag_eq {flag : BitVec 32} {place : Nat} (hflag : flag = BitVec.twoPow 32 place)
    (hplace : place < 16) (mem : Memory) (base : Nat) :
    getFlag flag mem base =
      .number (if (mem.word (base + 2) 2).getLsbD place then (flag >>> 1).toInt else 0 : ℤ) := by
  have hlt : place < 32 := by omega
  rw [getFlag, getBits, hflag, BitVec.and_twoPow, BitVec.getLsbD_setWidth, decide_eq_true hlt,
    Bool.true_and]
  cases (mem.word (base + 2) 2).getLsbD place with
  | true => rfl
  | false => simp

/-- A flag that is set is never read as 1, since it is shifted by one place only. -/
theorem getFlag_eq_iff {flag : BitVec 32} {place : Nat} (hflag : flag = BitVec.twoPow 32 place)
    (hplace : place < 16) (hvalue : 1 < (flag >>> 1).toInt) (mem : Memory) (base : Nat)
    (value : Bool) :
    getFlag flag mem base = .number value.toNat ↔
      value = false ∧ (mem.word (base + 2) 2).getLsbD place = false := by
  rw [getFlag_eq hflag hplace, Value.number.injEq, ← Int.cast_natCast, Int.cast_inj]
  cases (mem.word (base + 2) 2).getLsbD place with
  | false => cases value <;> simp
  | true =>
      have hle := Bool.toNat_le value
      have hne : (flag >>> 1).toInt ≠ value.toNat := by omega
      rw [if_pos rfl]
      exact iff_of_false hne fun hand => Bool.noConfusion hand.2

theorem isSet_getFlag {flag : BitVec 32} (place : Nat) (hflag : flag = BitVec.twoPow 32 place)
    (hplace : place < 16) (hvalue : 1 < (flag >>> 1).toInt) (mem : Memory) (base : Nat) :
    isSet (some (getFlag flag mem base)) = (mem.word (base + 2) 2).getLsbD place := by
  have htruthy (number : ℚ) : truthy (some (.number number)) = true := rfl
  rw [getFlag_eq hflag hplace, isSet, htruthy, Bool.true_and]
  cases (mem.word (base + 2) 2).getLsbD place with
  | false => simp
  | true =>
      have hne : ((flag >>> 1).toInt : ℚ) ≠ 0 := by
        rw [Int.cast_ne_zero]
        omega
      rw [if_pos rfl, bne_iff_ne]
      exact fun heq => hne (Value.number.inj (Option.some.inj heq))

theorem getOPCode_eq (mem : Memory) (base : Nat) :
    getOPCode mem base = .number ((mem.word (base + 2) 2).extractLsb' 11 4).toNat := by
  have hbits : (((mem.word (base + 2) 2).setWidth 32 &&& 0x7800#32) >>> 11).toNat =
      ((mem.word (base + 2) 2).extractLsb' 11 4).toNat := by
    have hlt := (mem.word (base + 2) 2).isLt
    have hmask : (0x7800#32).toNat >>> 11 = 2 ^ 4 - 1 := rfl
    rw [BitVec.toNat_ushiftRight, BitVec.toNat_and, Nat.shiftRight_and_distrib, hmask,
      Nat.and_two_pow_sub_one_eq_mod, BitVec.toNat_setWidth_of_le (by decide),
      BitVec.extractLsb'_toNat]
  have hlt := ((mem.word (base + 2) 2).extractLsb' 11 4).isLt
  rw [getOPCode, getBits, BitVec.toInt_eq_toNat_of_lt (by omega), hbits, Int.cast_natCast]

theorem getRCode_eq (mem : Memory) (base : Nat) :
    getRCode mem base = .number ((mem.word (base + 2) 2).extractLsb' 0 4).toNat := by
  have hbits : ((mem.word (base + 2) 2).setWidth 32 &&& 0x000f#32).toNat =
      ((mem.word (base + 2) 2).extractLsb' 0 4).toNat := by
    have hmask : (0x000f#32).toNat = 2 ^ 4 - 1 := rfl
    rw [BitVec.toNat_and, hmask, Nat.and_two_pow_sub_one_eq_mod,
      BitVec.toNat_setWidth_of_le (by decide), BitVec.extractLsb'_toNat, Nat.shiftRight_zero]
  have hlt := ((mem.word (base + 2) 2).extractLsb' 0 4).isLt
  rw [getRCode, getBits, BitVec.toInt_eq_toNat_of_lt (by omega), hbits, Int.cast_natCast]

theorem getHton16_of_holdsField {mem : Memory} {base offset number : Nat}
    (hnumber : number < 2 ^ 16) (hholds : HoldsField mem base ⟨offset, bigEndian 2 number⟩) :
    getHton16 offset mem base = .number (number : Nat) := by
  rw [getHton16_eq, (holdsField_short_iff hnumber).mp hholds]

/-- The getters look at bits of the word on the wire that are eight places away. -/
theorem readBack_iff_word {values : DnsValues} {word : BitVec 16} {mem : Memory} {base : Nat}
    (hholds : Holds mem base [⟨0, bigEndian 2 values.id.toNat⟩, ⟨2, bigEndian 2 word.toNat⟩,
      ⟨4, bigEndian 2 values.qdcount.toNat⟩, ⟨6, bigEndian 2 values.ancount.toNat⟩,
      ⟨8, bigEndian 2 values.nscount.toNat⟩, ⟨10, bigEndian 2 values.arcount.toNat⟩]) :
    values.ReadBack mem base ↔
      (values.qr = false ∧ word.getLsbD 7 = false) ∧ word.extractLsb' 3 4 = values.opcode ∧
        (values.aa = false ∧ word.getLsbD 2 = false) ∧
        (values.tc = false ∧ word.getLsbD 1 = false) ∧
        (values.rd = false ∧ word.getLsbD 0 = false) ∧
        (values.ra = false ∧ word.getLsbD 15 = false) ∧ word.extractLsb' 8 4 = values.rcode := by
  simp only [Holds, List.forall_mem_cons] at hholds
  obtain ⟨hid, hflags, hqdcount, hancount, hnscount, harcount, _⟩ := hholds
  have hword := word_of_holdsField hflags
  -- the flags are read with their bytes swapped
  have hbit {place : Nat} (hplace : place < 16) :
      (mem.word (base + 2) 2).getLsbD place = word.getLsbD ((place + 8) % 16) := by
    rw [hword]
    exact getLsbD_swapped word hplace
  have hflag {flag : BitVec 32} (place : Nat) (hflag : flag = BitVec.twoPow 32 place)
      (hplace : place < 16) (hvalue : 1 < (flag >>> 1).toInt) (value : Bool) :
      getFlag flag mem base = .number value.toNat ↔
        value = false ∧ word.getLsbD ((place + 8) % 16) = false := by
    rw [getFlag_eq_iff hflag hplace hvalue, hbit hplace]
  have hqr := hflag 15 rfl (by decide) (by decide) values.qr
  have haa := hflag 10 rfl (by decide) (by decide) values.aa
  have htc := hflag 9 rfl (by decide) (by decide) values.tc
  have hrd := hflag 8 rfl (by decide) (by decide) values.rd
  have hra := hflag 7 rfl (by decide) (by decide) values.ra
  have hcode {place : Nat} (hplace : place + 4 ≤ 16) (hcircle : (place + 8) % 16 + 4 ≤ 16) :
      (mem.word (base + 2) 2).extractLsb' place 4 = word.extractLsb' ((place + 8) % 16) 4 := by
    apply BitVec.eq_of_getLsbD_eq
    intro i hi
    have hmod : (place + i + 8) % 16 = (place + 8) % 16 + i := by omega
    rw [BitVec.getLsbD_extractLsb', BitVec.getLsbD_extractLsb', hbit (by omega), hmod]
  have hopcode : getOPCode mem base = .number values.opcode.toNat ↔
      word.extractLsb' 3 4 = values.opcode := by
    rw [getOPCode_eq, hcode (by decide) (by decide), Value.number.injEq, Nat.cast_inj,
      BitVec.toNat_inj]
  have hrcode : getRCode mem base = .number values.rcode.toNat ↔
      word.extractLsb' 8 4 = values.rcode := by
    rw [getRCode_eq, hcode (by decide) (by decide), Value.number.injEq, Nat.cast_inj,
      BitVec.toNat_inj]
  constructor
  · intro hread
    exact ⟨hqr.mp hread.qr, hopcode.mp hread.opcode, haa.mp hread.aa, htc.mp hread.tc,
      hrd.mp hread.rd, hra.mp hread.ra, hrcode.mp hread.rcode⟩
  · rintro ⟨hqr', hopcode', haa', htc', hrd', hra', hrcode'⟩
    exact ⟨getHton16_of_holdsField values.id.toNat_lt hid, hqr.mpr hqr', hopcode.mpr hopcode',
      haa.mpr haa', htc.mpr htc', hrd.mpr hrd', hra.mpr hra', hrcode.mpr hrcode',
      getHton16_of_holdsField values.qdcount.toNat_lt hqdcount,
      getHton16_of_holdsField values.ancount.toNat_lt hancount,
      getHton16_of_holdsField values.nscount.toNat_lt hnscount,
      getHton16_of_holdsField values.arcount.toNat_lt harcount⟩

theorem flags_eq (values : DnsValues) :
    values.flags = (addedBits values).foldl (· ||| ·) 0#16 := by
  rw [foldl_addedBits, BitVec.zero_or]

/-- Bits of the word on the wire. -/
theorem getLsbD_flags (values : DnsValues) :
    values.flags.getLsbD 15 = values.qr ∧ values.flags.getLsbD 7 = values.ra ∧
      ∀ i < 4, values.flags.getLsbD i = values.rcode.getLsbD i := by
  rw [flags_eq]
  refine ⟨?_, ?_, fun i hi => ?_⟩
  · simp [addedBits]
  · simp [addedBits]
  · interval_cases i <;> simp [addedBits]

/-- The bits of it that are read as the codes. -/
theorem extractLsb'_flags {values : DnsValues} (haa : values.aa = false) (htc : values.tc = false)
    (hrd : values.rd = false) :
    values.flags.extractLsb' 3 4 = values.rcode >>> 3 ∧
      values.flags.extractLsb' 8 4 = values.opcode <<< 3 := by
  rw [flags_eq]
  constructor
  all_goals
    apply BitVec.eq_of_getLsbD_eq
    intro i hi
    interval_cases i <;> simp [addedBits, haa, htc, hrd]

/-- After a header has been filled, the getters return the values exactly if no flag is among
them and the other bits are the same when they are swapped. -/
theorem readBack_iff {values : DnsValues} {old : BitVec 16} {mem : Memory} {base : Nat}
    (hholds : Holds mem base (filledFields values old)) :
    values.ReadBack mem base ↔ values.Readable old := by
  rw [readBack_iff_word hholds]
  obtain ⟨_, hra, hrcode⟩ := getLsbD_flags values
  have hqr := (getLsbD_flags values).1
  simp only [BitVec.getLsbD_or, BitVec.extractLsb'_or, hqr, hra, hrcode 0 (by decide),
    hrcode 1 (by decide), hrcode 2 (by decide), Bool.or_eq_false_iff]
  constructor
  · rintro ⟨⟨hqr, hold7, hra⟩, hopcode, ⟨haa, hold2, hrcode2⟩, ⟨htc, hold1, hrcode1⟩,
      ⟨hrd, hold0, hrcode0⟩, ⟨_, hold15, _⟩, hrcode⟩
    obtain ⟨hlow, hhigh⟩ := extractLsb'_flags haa htc hrd
    rw [hlow] at hopcode
    rw [hhigh] at hrcode
    refine ⟨⟨hqr, haa, htc, hrd, hra⟩, ?_, ?_, hopcode.symm, hrcode.symm⟩
    · simp only [List.forall_mem_cons]
      exact ⟨hold0, hold1, hold2, hold7, hold15, nofun⟩
    · simp only [List.forall_mem_cons]
      exact ⟨hrcode0, hrcode1, hrcode2, nofun⟩
  · rintro ⟨⟨hqr, haa, htc, hrd, hra⟩, hold, hrcodeLow, hopcode, hrcode⟩
    obtain ⟨hlow, hhigh⟩ := extractLsb'_flags haa htc hrd
    simp only [List.forall_mem_cons] at hold hrcodeLow
    obtain ⟨hold0, hold1, hold2, hold7, hold15, _⟩ := hold
    obtain ⟨hrcode0, hrcode1, hrcode2, _⟩ := hrcodeLow
    rw [hlow, hhigh]
    exact ⟨⟨hqr, hold7, hra⟩, hopcode.symm, ⟨haa, hold2, hrcode2⟩, ⟨htc, hold1, hrcode1⟩,
      ⟨hrd, hold0, hrcode0⟩, ⟨hra, hold15, hqr⟩, hrcode.symm⟩

/-! ## Encoding -/

/-- The bytes of a header that has been filled are those on the wire exactly if there was no
other bit in the word of flags before. -/
theorem load_eq_encode_iff {values : DnsValues} {old : BitVec 16} {mem : Memory} {base : Nat}
    (hholds : Holds mem base (filledFields values old)) :
    mem.load base 12 = values.encode ↔ old ||| values.flags = values.flags := by
  have hload : mem.load base 12 = mem.load (base + 0) 2 ++ mem.load (base + 2) 2 ++
      mem.load (base + 4) 2 ++ mem.load (base + 6) 2 ++ mem.load (base + 8) 2 ++
      mem.load (base + 10) 2 := rfl
  simp only [filledFields, Holds, List.forall_mem_cons, HoldsField, length_bigEndian] at hholds
  obtain ⟨hid, hflags, hqdcount, hancount, hnscount, harcount, _⟩ := hholds
  rw [hload, hid, hflags, hqdcount, hancount, hnscount, harcount, DnsValues.encode]
  simp only [List.append_left_inj, List.append_right_inj]
  constructor
  · intro hbytes
    exact BitVec.eq_of_toNat_eq (bigEndian_inj (BitVec.isLt _) (BitVec.isLt _) hbytes)
  · intro heq
    rw [heq]

/-! ## Round trip -/

/-- The values that `fill` finds after `get` has put its own in a table. Four flags are still
those of the table. -/
def readValues (args : NamedArgs) (pre : String) (mem : Memory) (base : Nat) : DnsValues where
  id := UInt16.ofNat (netShort mem (base + 0))
  qr := (mem.word (base + 2) 2).getLsbD 15
  opcode := (mem.word (base + 2) 2).extractLsb' 11 4
  aa := isSet (args (pre ++ "AuthAnswer"))
  tc := isSet (args (pre ++ "Truncated"))
  rd := isSet (args (pre ++ "RecDesired"))
  ra := isSet (args (pre ++ "RecAvailable"))
  rcode := (mem.word (base + 2) 2).extractLsb' 0 4
  qdcount := UInt16.ofNat (netShort mem (base + 4))
  ancount := UInt16.ofNat (netShort mem (base + 6))
  nscount := UInt16.ofNat (netShort mem (base + 8))
  arcount := UInt16.ofNat (netShort mem (base + 10))

theorem numberOr_getHton16 (default : ℚ) (mem : Memory) (base offset : Nat) :
    numberOr default (some (getHton16 offset mem base)) =
      some ((UInt16.ofNat (netShort mem (base + offset))).toNat : ℚ) := by
  rw [UInt16.toNat_ofNat_of_lt' (netShort_lt mem (base + offset)), getHton16_eq]
  rfl

theorem givenBy_readValues (randomId : UInt16) (args : NamedArgs) (pre : String) (mem : Memory)
    (base : Nat) :
    (readValues args pre mem base).GivenBy randomId (mergeGet mem base pre args getters) pre := by
  have hread (field : String) (getter : Getter) (hmem : (field, getter) ∈ getters) :
      mergeGet mem base pre args getters (pre ++ field) = some (getter mem base) :=
    mergeGet_of_mem (by decide) hmem
  refine ⟨?_, ?_, ?_, ?_, ?_, ?_, ?_, ?_, ?_, ?_, ?_, ?_⟩
  · rw [hread "Id" getId (by simp [getters])]
    exact numberOr_getHton16 _ mem base 0
  · rw [hread "Resp" getQR (by simp [getters])]
    exact isSet_getFlag 15 rfl (by decide) (by decide) mem base
  · rw [hread "QueryType" getOPCode (by simp [getters]), getOPCode_eq]
    rfl
  · rw [mergeGet_of_not_mem (by decide)]
    rfl
  · rw [mergeGet_of_not_mem (by decide)]
    rfl
  · rw [mergeGet_of_not_mem (by decide)]
    rfl
  · rw [mergeGet_of_not_mem (by decide)]
    rfl
  · rw [hread "RCode" getRCode (by simp [getters]), getRCode_eq]
    rfl
  · rw [hread "QDCount" getQDCount (by simp [getters])]
    exact numberOr_getHton16 0 mem base 4
  · rw [hread "ANCount" getANCount (by simp [getters])]
    exact numberOr_getHton16 0 mem base 6
  · rw [hread "NSCount" getNSCount (by simp [getters])]
    exact numberOr_getHton16 0 mem base 8
  · rw [hread "ARCount" getARCount (by simp [getters])]
    exact numberOr_getHton16 0 mem base 10

/-- The flags for which a table has entries under the names in `fill`. -/
def keptFlags (args : NamedArgs) (pre : String) : BitVec 16 :=
  DnsValues.flags ⟨0, false, 0, isSet (args (pre ++ "AuthAnswer")),
    isSet (args (pre ++ "Truncated")), isSet (args (pre ++ "RecDesired")),
    isSet (args (pre ++ "RecAvailable")), 0, 0, 0, 0, 0⟩

/-- Bits that are taken from a word are in it already. -/
theorem or_extractLsb' (word : BitVec (8 * 2)) (place size : Nat) :
    word ||| (word.extractLsb' place size).setWidth (8 * 2) <<< place = word := by
  apply BitVec.eq_of_getLsbD_eq
  intro i hi
  rw [BitVec.getLsbD_or, BitVec.getLsbD_shiftLeft, BitVec.getLsbD_setWidth,
    BitVec.getLsbD_extractLsb']
  by_cases hplace : i < place
  · simp [hplace]
  · rw [Nat.add_sub_cancel' (Nat.le_of_not_lt hplace)]
    cases word.getLsbD i <;> simp

theorem or_flags_readValues (args : NamedArgs) (pre : String) (mem : Memory) (base : Nat) :
    mem.word (base + 2) 2 ||| (readValues args pre mem base).flags =
      mem.word (base + 2) 2 ||| keptFlags args pre := by
  have hqr := or_extractLsb' (mem.word (base + 2) 2) 15 1
  have hopcode := or_extractLsb' (mem.word (base + 2) 2) 11 4
  have hrcode := or_extractLsb' (mem.word (base + 2) 2) 0 4
  have hbit : (mem.word (base + 2) 2).extractLsb' 15 1 =
      BitVec.ofBool ((mem.word (base + 2) 2).getLsbD 15) := by
    apply BitVec.eq_of_getLsbD_eq
    intro i hi
    obtain rfl : i = 0 := by omega
    simp
  rw [hbit] at hqr
  rw [keptFlags, ← foldl_addedBits, ← foldl_addedBits]
  simp only [addedBits, readValues, List.foldl_cons, List.foldl_nil]
  have hfalse : (BitVec.ofBool false).setWidth (8 * 2) <<< 15 = 0#(8 * 2) := rfl
  have hzero (place : Nat) : (0 : BitVec 4).setWidth (8 * 2) <<< place = 0#(8 * 2) :=
    BitVec.zero_shiftLeft place
  rw [hqr, hopcode, hfalse, hzero, hzero, BitVec.or_zero, BitVec.or_zero, BitVec.or_zero]
  conv_rhs => rw [← hrcode]
  ac_rfl

/-- A header is left unchanged by its own values exactly if there is a global table `args`, and
its word of flags, with those for which the table has entries, is its own swap. -/
theorem roundTrip_iff_globalArgs (globalArgs : Option NamedArgs) (randomId : UInt16)
    (pre : Option String) (mem : Memory) (base : Nat) :
    RoundTrip globalArgs randomId pre mem base ↔
      ∃ args, globalArgs = some args ∧ netShort mem (base + 2) =
        (mem.word (base + 2) 2 ||| keptFlags args (pre.getD "dns")).toNat := by
  cases globalArgs with
  | none => simp [RoundTrip, get]
  | some args =>
      obtain ⟨mem', hfill, hholds⟩ :=
        fill_holds (givenBy_readValues randomId args (pre.getD "dns") mem base) mem base
      have hfills : Fills ((filledFields (readValues args (pre.getD "dns") mem base)
          (mem.word (base + 2) 2)).map FieldBytes.slot) 12 := by
        have hslots : (filledFields (readValues args (pre.getD "dns") mem base)
          (mem.word (base + 2) 2)).map FieldBytes.slot =
            [(0, 2), (2, 2), (4, 2), (6, 2), (8, 2), (10, 2)] := rfl
        rw [hslots]
        decide
      have hcopy (offset : Nat) : HoldsField mem base
          ⟨offset, bigEndian 2 (UInt16.ofNat (netShort mem (base + offset))).toNat⟩ := by
        rw [UInt16.toNat_ofNat_of_lt' (netShort_lt mem _), bigEndian_netShort]
        exact holdsField_load mem base offset 2
      have hround : RoundTrip (some args) randomId pre mem base ↔
          Holds mem base (filledFields (readValues args (pre.getD "dns") mem base)
            (mem.word (base + 2) 2)) := by
        rw [← hholds.copies_iff hfill hfills]
        simp [RoundTrip, get]
      have hbits := congrArg BitVec.toNat (or_flags_readValues args (pre.getD "dns") mem base)
      rw [hround]
      simp only [filledFields, Holds, List.forall_mem_cons, holdsField_short_iff (BitVec.isLt _),
        Option.some_inj, exists_eq_left']
      constructor
      · exact fun hall => hall.2.1.trans hbits
      · exact fun hflags =>
          ⟨hcopy 0, hflags.trans hbits.symm, hcopy 4, hcopy 6, hcopy 8, hcopy 10, nofun⟩

/-- For every content of the header and all arguments: when the bytes are those on the wire, when
the getters return what has been given, and when a header is left unchanged by its own values. -/
theorem fill_encodes_and_reads_iff (globalArgs : Option NamedArgs) (randomId : UInt16)
    (args : NamedArgs) (pre : Option String) (mem : Memory) (base : Nat) (values : DnsValues)
    (hgiven : values.GivenBy randomId args (pre.getD "dns")) :
    (∃ mem', fill randomId args pre mem base = some mem' ∧
      (mem'.load base 12 = values.encode ↔
        mem.word (base + 2) 2 ||| values.flags = values.flags) ∧
      (values.ReadBack mem' base ↔ values.Readable (mem.word (base + 2) 2))) ∧
    (RoundTrip globalArgs randomId pre mem base ↔
      ∃ table, globalArgs = some table ∧ netShort mem (base + 2) =
        (mem.word (base + 2) 2 ||| keptFlags table (pre.getD "dns")).toNat) := by
  obtain ⟨mem', hfill, hholds⟩ := fill_holds hgiven mem base
  exact ⟨⟨mem', hfill, load_eq_encode_iff hholds, readBack_iff hholds⟩,
    roundTrip_iff_globalArgs globalArgs randomId pre mem base⟩

/-- A query that asks for recursion. -/
def recursiveQuery : NamedArgs := fun key =>
  if key = "dnsId" then some (.number 7)
  else if key = "dnsRecDesired" then some (.number 1)
  else none

def recursiveValues : DnsValues :=
  ⟨7, false, 0, false, false, true, false, 0, 0, 0, 0, 0⟩

theorem givenBy_recursiveQuery : recursiveValues.GivenBy 10000 recursiveQuery "dns" := by
  constructor <;> decide

theorem fill_encodes_and_reads_iff_recursiveQuery :
    recursiveValues.GivenBy 10000 recursiveQuery "dns" ∧
    (∃ mem', fill 10000 recursiveQuery none (fun _ => 0) 0 = some mem' ∧
      (mem'.load 0 12 = recursiveValues.encode ↔
        Memory.word (fun _ => 0) (0 + 2) 2 ||| recursiveValues.flags = recursiveValues.flags) ∧
      (recursiveValues.ReadBack mem' 0 ↔
        recursiveValues.Readable (Memory.word (fun _ => 0) (0 + 2) 2))) ∧
    (RoundTrip none 10000 none (fun _ => 0) 0 ↔
      ∃ table, none = some table ∧ netShort (fun _ => 0) (0 + 2) =
        (Memory.word (fun _ => 0) (0 + 2) 2 ||| keptFlags table "dns").toNat) :=
  ⟨givenBy_recursiveQuery,
    fill_encodes_and_reads_iff none 10000 recursiveQuery none (fun _ => 0) 0 recursiveValues
      givenBy_recursiveQuery⟩

/-- Old bits stay, the flag is read as something else, and the header cannot be filled with its
own values. -/
theorem recursiveQuery_not_agree :
    (∃ mem', fill 10000 recursiveQuery none (fun _ => 0xff) 0 = some mem' ∧
      mem'.load 0 12 ≠ recursiveValues.encode) ∧
    (∃ mem', fill 10000 recursiveQuery none (fun _ => 0) 0 = some mem' ∧
      ¬ recursiveValues.ReadBack mem' 0) ∧
    ¬ RoundTrip none 10000 none (fun _ => 0) 0 := by
  have hgiven : recursiveValues.GivenBy 10000 recursiveQuery (Option.getD none "dns") :=
    givenBy_recursiveQuery
  obtain ⟨dirty, hdirty, hdirtyHolds⟩ := fill_holds hgiven (fun _ => 0xff) 0
  obtain ⟨clean, hclean, hcleanHolds⟩ := fill_holds hgiven (fun _ => 0) 0
  refine ⟨⟨dirty, hdirty, ?_⟩, ⟨clean, hclean, ?_⟩, ?_⟩
  · rw [Ne, load_eq_encode_iff hdirtyHolds]
    decide
  · rw [readBack_iff hcleanHolds]
    decide
  · rw [roundTrip_iff_globalArgs]
    simp

end DnsHeader

end Libmoon.Packet
