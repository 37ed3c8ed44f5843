import Libmoon.Foundation.NetworkOrder
import Libmoon.Packet.TcpOptions

/-! # TCP options that are written and read back

The setters write options one behind the other, `fillOptions` pads them, and `getOptions`
finds them again. The getters take an entry of that list or an offset; two of them compare
the type of their argument with a variable that does not exist, so that an offset is never
recognised. Timestamps are put together with signed shifts.
-/

namespace Libmoon.Packet

open Foundation

/-- Conversion to `uint8_t`. It goes through `int32_t`; what becomes of a number that does not
fit there is left open. -/
def toUint8 (beyond : ℕ → UInt8) (number : ℕ) : UInt8 :=
  if number < 2 ^ 31 then UInt8.ofNat number else beyond number

/-- `rshift(value, count)` of a number, for a count that is not 0. -/
def rshift (value count : ℕ) : ℕ := (tobit value >>> count).toNat

/-- `lshift(byte, count)`, which is a signed number. -/
def lshift (byte : UInt8) (count : ℕ) : ℤ := (tobit byte.toNat <<< count).toInt

namespace OptionsHeader

variable (beyond : ℕ → UInt8) (self : OptionsHeader)

/-- Assign to `self.options[offset]`, `self.options[offset + 1]` and so on. -/
def setBytes (offset : ℕ) (bytes : List UInt8) : OptionsHeader :=
  { self with options := self.options.store offset bytes }

/-- `tcpHeader:setNopOption`. -/
def setNopOption (offset : ℕ) : OptionsHeader × ℕ :=
  (self.setBytes offset [optionNop], offset + 1)

/-- `tcpHeader:setEolOption`. -/
def setEolOption (offset : ℕ) : OptionsHeader × ℕ :=
  (self.setBytes offset [optionEol], offset + 1)

/-- `tcpHeader:setWSOption`. -/
def setWSOption (offset value : ℕ) : OptionsHeader × ℕ :=
  (self.setBytes offset [optionWs, 3, toUint8 beyond value], offset + 3)

/-- `tcpHeader:setMssOption`. -/
def setMssOption (offset value : ℕ) : OptionsHeader × ℕ :=
  (self.setBytes offset
    [optionMss, 4, toUint8 beyond (rshift value 8), toUint8 beyond value], offset + 4)

/-- `tcpHeader:setTSOption`. -/
def setTSOption (offset tsval tsecr : ℕ) : OptionsHeader × ℕ :=
  (self.setBytes offset
    [optionTs, 10, toUint8 beyond (rshift tsval 24), toUint8 beyond (rshift tsval 16),
      toUint8 beyond (rshift tsval 8), toUint8 beyond tsval, toUint8 beyond (rshift tsecr 24),
      toUint8 beyond (rshift tsecr 16), toUint8 beyond (rshift tsecr 8), toUint8 beyond tsecr],
    offset + 10)

/-- The loop of `fillOptions`. -/
def fillNops (self : OptionsHeader) (maxOffset offset : ℕ) : OptionsHeader × ℕ :=
  if offset + 1 < maxOffset then
    let next := self.setNopOption offset
    fillNops next.1 maxOffset next.2
  else (self, offset)
termination_by maxOffset - offset
decreasing_by
  simp only [setNopOption]
  omega

/-- `tcpHeader:fillOptions`. -/
def fillOptions (offset : Option ℕ) : OptionsHeader × ℕ :=
  let maxOffset := self.getVariableLength
  let filled := self.fillNops maxOffset (offset.getD 0)
  if filled.2 + 1 = maxOffset then filled.1.setEolOption filled.2 else filled

end OptionsHeader

/-- What a getter is called with: a number, or an entry of the list. -/
inductive OptionArg where
  | number (offset : ℕ)
  | listed (entry : OptionEntry)

/-- `offset['byte']`. A number cannot be indexed. -/
def OptionArg.byte : OptionArg → Option (List UInt8)
  | .number _ => none
  | .listed entry => entry.byte

namespace OptionsHeader

variable (self : OptionsHeader)

/-- `tcpHeader:getWSOption`. The comparison `type(offset) == number` is always false. -/
def getWSOption (arg : OptionArg) : Option ℤ := do
  let byte ← arg.byte
  let value ← byte[0]?
  some value.toNat

/-- `tcpHeader:getMssOption`, with the same comparison. -/
def getMssOption (arg : OptionArg) : Option ℤ := do
  let dat ← arg.byte
  let high ← dat[0]?
  let low ← dat[1]?
  some (lshift high 8 + low.toNat)

/-- A number of four bytes, as `getTSOption` puts it together. -/
def shiftedSum (first second third fourth : UInt8) : ℤ :=
  lshift first 24 + lshift second 16 + lshift third 8 + fourth.toNat

/-- `tcpHeader:getTSOption`. -/
def getTSOption (arg : OptionArg) : Option (ℤ × ℤ) := do
  let dat ← match arg with
    | .number offset => some (self.options.load (offset + 2) 8)
    | .listed entry => entry.byte
  match dat with
  | d1 :: d2 :: d3 :: d4 :: d5 :: d6 :: d7 :: d8 :: _ =>
      some (shiftedSum d1 d2 d3 d4, shiftedSum d5 d6 d7 d8)
  | _ => none

end OptionsHeader

/-! ## Lists of options -/

/-- An option with the values it is set to. -/
inductive TcpOption where
  | nop
  | ws (value : UInt8)
  | mss (value : UInt16)
  | ts (tsval tsecr : UInt32)
deriving DecidableEq

namespace TcpOption

/-- Call the setter of an option. -/
def set (beyond : ℕ → UInt8) (self : OptionsHeader) (offset : ℕ) :
    TcpOption → OptionsHeader × ℕ
  | nop => self.setNopOption offset
  | ws value => self.setWSOption beyond offset value.toNat
  | mss value => self.setMssOption beyond offset value.toNat
  | ts tsval tsecr => self.setTSOption beyond offset tsval.toNat tsecr.toNat

/-- Set options at consecutive offsets. -/
def setAll (beyond : ℕ → UInt8) : OptionsHeader → ℕ → List TcpOption → OptionsHeader × ℕ
  | self, offset, [] => (self, offset)
  | self, offset, option :: rest =>
      let next := option.set beyond self offset
      setAll beyond next.1 next.2 rest

/-- Set options from the beginning on, and fill up. -/
def fill (beyond : ℕ → UInt8) (self : OptionsHeader) (options : List TcpOption) : OptionsHeader :=
  let next := setAll beyond self 0 options
  (next.1.fillOptions (some next.2)).1

/-- The bytes that an option takes. -/
def size : TcpOption → ℕ
  | nop => 1
  | ws _ => 3
  | mss _ => 4
  | ts _ _ => 10

/-- The entry that stands for an option: kind, offset and the values in network order. -/
def entry (offset : ℕ) : TcpOption → OptionEntry
  | nop => ⟨1, offset, none, none⟩
  | ws value => ⟨3, offset, some [value], none⟩
  | mss value => ⟨2, offset, some (bigEndian 2 value.toNat), none⟩
  | ts tsval tsecr => ⟨8, offset, some (bigEndian 4 tsval.toNat ++ bigEndian 4 tsecr.toNat), none⟩

/-- The getter of an option returns the value that was set. -/
def ReadBack (self : OptionsHeader) (arg : OptionArg) : TcpOption → Prop
  | nop => True
  | ws value => OptionsHeader.getWSOption arg = some (value.toNat : ℤ)
  | mss value => OptionsHeader.getMssOption arg = some (value.toNat : ℤ)
  | ts tsval tsecr => self.getTSOption arg = some ((tsval.toNat : ℤ), (tsecr.toNat : ℤ))

/-- The options and their offsets. -/
def placed : ℕ → List TcpOption → List (ℕ × TcpOption)
  | _, [] => []
  | offset, option :: rest => (offset, option) :: placed (offset + option.size) rest

/-- The entries of the padding: NOPs and a final EOL. -/
def padding (offset stop : ℕ) : List OptionEntry :=
  if offset < stop then
    (List.range' offset (stop - 1 - offset)).map (fun offset => ⟨1, offset, none, none⟩) ++
      [⟨0, stop - 1, none, none⟩]
  else []

/-- The options come back: `getOptions` lists them with their offsets and the padding behind
them, and their getters return the values that were set, for an entry and for an offset. -/
structure RoundTrip (beyond : ℕ → UInt8) (header : OptionsHeader) (options : List TcpOption) :
    Prop where
  listed : ((fill beyond header options).getOptions none none).value =
    (placed 0 options).map (fun place => place.2.entry place.1) ++
      padding (options.map size).sum header.getVariableLength
  read : ∀ place ∈ placed 0 options,
    place.2.ReadBack (fill beyond header options) (.listed (place.2.entry place.1)) ∧
      place.2.ReadBack (fill beyond header options) (.number place.1)

/-- A NOP, or timestamps that are not negative as signed numbers. -/
def Readable : TcpOption → Prop
  | nop => True
  | ts tsval tsecr => tsval.toNat < 2 ^ 31 ∧ tsecr.toNat < 2 ^ 31
  | _ => False

end TcpOption

/-! ## What is written -/

namespace OptionsHeader

variable {self : OptionsHeader}

theorem setBytes_setBytes (offset : ℕ) (first second : List UInt8) :
    (self.setBytes offset first).setBytes (offset + first.length) second =
      self.setBytes offset (first ++ second) := by
  simp only [setBytes, Memory.store_append]

theorem setBytes_nil (offset : ℕ) : self.setBytes offset [] = self := by
  simp only [setBytes, Memory.store_nil]

theorem getVariableLength_setBytes (offset : ℕ) (bytes : List UInt8) :
    (self.setBytes offset bytes).getVariableLength = self.getVariableLength := rfl

theorem fillNops_eq (maxOffset offset : ℕ) :
    self.fillNops maxOffset offset =
      (self.setBytes offset (List.replicate (maxOffset - 1 - offset) optionNop),
        offset + (maxOffset - 1 - offset)) := by
  fun_induction fillNops self maxOffset offset with
  | case1 self offset hlt next ih =>
      have hcount : maxOffset - 1 - offset = (maxOffset - 1 - (offset + 1)) + 1 := by omega
      rw [ih, hcount, List.replicate_succ]
      refine Prod.ext ?_ ?_
      · exact setBytes_setBytes offset [optionNop] _
      · simp only [next, setNopOption]
        omega
  | case2 self offset hend =>
      have hcount : maxOffset - 1 - offset = 0 := by omega
      rw [hcount, List.replicate_zero, setBytes_nil, Nat.add_zero]

/-- The bytes of the padding. -/
def paddingBytes (offset stop : ℕ) : List UInt8 :=
  if offset < stop then List.replicate (stop - 1 - offset) optionNop ++ [optionEol] else []

theorem length_paddingBytes (offset stop : ℕ) :
    (paddingBytes offset stop).length = stop - offset := by
  unfold paddingBytes
  split
  next hlt =>
    simp only [List.length_append, List.length_replicate, List.length_singleton]
    omega
  next hge => exact (Nat.sub_eq_zero_of_le (Nat.le_of_not_lt hge)).symm

theorem fillOptions_eq (offset : ℕ) :
    (self.fillOptions (some offset)).1 =
      self.setBytes offset (paddingBytes offset self.getVariableLength) := by
  unfold fillOptions paddingBytes
  simp only [Option.getD_some, fillNops_eq]
  split
  next hlast =>
    have hlength : (List.replicate (self.getVariableLength - 1 - offset) optionNop).length =
        self.getVariableLength - 1 - offset := List.length_replicate
    rw [if_pos (by omega), ← setBytes_setBytes, hlength]
    rfl
  next hnone =>
    have hcount : self.getVariableLength - 1 - offset = 0 := by omega
    rw [if_neg (by omega), hcount, List.replicate_zero]

end OptionsHeader

namespace TcpOption

variable {beyond : ℕ → UInt8} {self : OptionsHeader} {option : TcpOption} {options : List TcpOption}

/-- The bytes that a setter writes. -/
def written (beyond : ℕ → UInt8) : TcpOption → List UInt8
  | nop => [OptionsHeader.optionNop]
  | ws value => [OptionsHeader.optionWs, 3, toUint8 beyond value.toNat]
  | mss value => [OptionsHeader.optionMss, 4, toUint8 beyond (rshift value.toNat 8),
      toUint8 beyond value.toNat]
  | ts tsval tsecr => [OptionsHeader.optionTs, 10, toUint8 beyond (rshift tsval.toNat 24),
      toUint8 beyond (rshift tsval.toNat 16), toUint8 beyond (rshift tsval.toNat 8),
      toUint8 beyond tsval.toNat, toUint8 beyond (rshift tsecr.toNat 24),
      toUint8 beyond (rshift tsecr.toNat 16), toUint8 beyond (rshift tsecr.toNat 8),
      toUint8 beyond tsecr.toNat]

theorem length_written (beyond : ℕ → UInt8) (option : TcpOption) :
    (option.written beyond).length = option.size := by
  cases option <;> rfl

theorem size_pos (option : TcpOption) : 0 < option.size := by
  cases option <;> exact Nat.succ_pos _

theorem set_eq (offset : ℕ) :
    option.set beyond self offset =
      (self.setBytes offset (option.written beyond), offset + option.size) := by
  cases option <;> rfl

theorem length_flatMap_written :
    (options.flatMap (written beyond)).length = (options.map size).sum := by
  rw [List.length_flatMap]
  exact congrArg List.sum (List.map_congr_left fun option _ => length_written beyond option)

theorem setAll_eq (offset : ℕ) :
    setAll beyond self offset options =
      (self.setBytes offset (options.flatMap (written beyond)),
        offset + (options.map size).sum) := by
  induction options generalizing self offset with
  | nil => rw [setAll, List.flatMap_nil, OptionsHeader.setBytes_nil, List.map_nil, List.sum_nil,
      Nat.add_zero]
  | cons option rest ih =>
      rw [setAll, set_eq, ih, ← length_written beyond, OptionsHeader.setBytes_setBytes,
        List.flatMap_cons, List.map_cons, List.sum_cons, length_written, Nat.add_assoc]

/-- Setting and filling writes one run of bytes. -/
theorem fill_eq : fill beyond self options =
    self.setBytes 0 (options.flatMap (written beyond) ++
      OptionsHeader.paddingBytes (options.map size).sum self.getVariableLength) := by
  unfold fill
  rw [setAll_eq, OptionsHeader.fillOptions_eq, OptionsHeader.getVariableLength_setBytes,
    ← OptionsHeader.setBytes_setBytes, length_flatMap_written]
  simp only [Nat.zero_add]

/-- The options are found where they have been written, and the padding behind them. -/
theorem load_fill (beyond : ℕ → UInt8) (self : OptionsHeader) (options : List TcpOption) :
    (fill beyond self options).options.load 0 (options.map size).sum =
        options.flatMap (written beyond) ∧
      (fill beyond self options).options.load (options.map size).sum
        (self.getVariableLength - (options.map size).sum) =
          OptionsHeader.paddingBytes (options.map size).sum self.getVariableLength := by
  have hload := self.options.load_store 0 (options.flatMap (written beyond) ++
    OptionsHeader.paddingBytes (options.map size).sum self.getVariableLength)
  obtain ⟨hwritten, hpadding⟩ := Memory.load_append_inv hload
  rw [length_flatMap_written, Nat.zero_add, OptionsHeader.length_paddingBytes] at hpadding
  rw [length_flatMap_written] at hwritten
  rw [fill_eq]
  exact ⟨hwritten, hpadding⟩

end TcpOption

/-! ## The values -/

theorem rshift_eq {value : ℕ} (hvalue : value < 2 ^ 32) (count : ℕ) :
    rshift value count = value / 2 ^ count := by
  rw [rshift, tobit_natCast, BitVec.toNat_ushiftRight, Nat.shiftRight_eq_div_pow,
    BitVec.toNat_ofNat, Nat.mod_eq_of_lt hvalue]

theorem toUint8_of_lt (beyond : ℕ → UInt8) {number : ℕ} (hnumber : number < 2 ^ 31) :
    toUint8 beyond number = UInt8.ofNat number :=
  if_pos hnumber

/-- The upper bytes of a number are written as they are. -/
theorem toUint8_rshift (beyond : ℕ → UInt8) {value count : ℕ} (hvalue : value < 2 ^ 32)
    (hcount : 0 < count) :
    toUint8 beyond (rshift value count) = UInt8.ofNat (value / 2 ^ count) := by
  have hhalf : value / 2 ^ count ≤ value / 2 :=
    Nat.div_le_div_left (Nat.le_pow hcount) Nat.two_pos
  rw [rshift_eq hvalue, toUint8_of_lt beyond (by omega)]

theorem lshift_eq (byte : UInt8) (count : ℕ) :
    lshift byte count = ((byte.toNat * 2 ^ count : ℕ) : ℤ).bmod (2 ^ 32) := by
  have hbyte : byte.toNat < 2 ^ 32 := byte.toNat_lt.trans (by decide)
  rw [lshift, tobit_natCast, BitVec.toInt_shiftLeft, BitVec.toNat_ofNat, Nat.mod_eq_of_lt hbyte,
    Nat.shiftLeft_eq]

/-- The four bytes of a number are put together to a signed one. -/
theorem shiftedSum_eq {number : ℕ} (hnumber : number < 2 ^ 32) :
    OptionsHeader.shiftedSum (UInt8.ofNat (number / 2 ^ 24)) (UInt8.ofNat (number / 2 ^ 16))
        (UInt8.ofNat (number / 2 ^ 8)) (UInt8.ofNat number) =
      if number < 2 ^ 31 then (number : ℤ) else number - 2 ^ 32 := by
  have hbyte (n : ℕ) : (UInt8.ofNat n).toNat = n % 2 ^ 8 := UInt8.toNat_ofNat'
  simp only [OptionsHeader.shiftedSum, lshift_eq, hbyte, Int.bmod_def]
  split <;> omega

theorem shiftedSum_eq_iff {number : ℕ} (hnumber : number < 2 ^ 32) :
    OptionsHeader.shiftedSum (UInt8.ofNat (number / 2 ^ 24)) (UInt8.ofNat (number / 2 ^ 16))
        (UInt8.ofNat (number / 2 ^ 8)) (UInt8.ofNat number) = number ↔ number < 2 ^ 31 := by
  rw [shiftedSum_eq hnumber]
  split <;> omega

namespace TcpOption

variable {beyond : ℕ → UInt8} {mem : Memory} {starting len offset : ℕ} {option : TcpOption}
  {options : List TcpOption}

/-- Timestamps as they are written, if both are read without a sign. -/
theorem written_ts {tsval tsecr : UInt32} (hreadable : (ts tsval tsecr).Readable) :
    (ts tsval tsecr).written beyond =
      [OptionsHeader.optionTs, 10] ++ (bigEndian 4 tsval.toNat ++ bigEndian 4 tsecr.toNat) := by
  obtain ⟨htsval, htsecr⟩ := hreadable
  have hval := tsval.toNat_lt
  have hecr := tsecr.toNat_lt
  simp only [written, bigEndian_four, toUint8_of_lt beyond htsval, toUint8_of_lt beyond htsecr]
  rw [toUint8_rshift beyond hval (by decide), toUint8_rshift beyond hval (by decide),
    toUint8_rshift beyond hval (by decide), toUint8_rshift beyond hecr (by decide),
    toUint8_rshift beyond hecr (by decide), toUint8_rshift beyond hecr (by decide)]
  rfl

theorem load_ts {tsval tsecr : UInt32} (hreadable : (ts tsval tsecr).Readable)
    (hload : mem.load offset (ts tsval tsecr).size = (ts tsval tsecr).written beyond) :
    mem offset = OptionsHeader.optionTs ∧ mem (offset + 1) = 10 ∧
      mem.load (offset + 2) 8 = bigEndian 4 tsval.toNat ++ bigEndian 4 tsecr.toNat := by
  rw [written_ts hreadable] at hload
  have hsplit : mem.load offset ([OptionsHeader.optionTs, 10] ++
      (bigEndian 4 tsval.toNat ++ bigEndian 4 tsecr.toNat)).length = _ := hload
  obtain ⟨hhead, hbody⟩ := Memory.load_append_inv hsplit
  obtain ⟨hcode, htail⟩ := List.cons.inj hhead
  exact ⟨hcode, (List.cons.inj htail).1, hbody⟩

theorem getTSOption_entry (self : OptionsHeader) (tsval tsecr : UInt32) :
    self.getTSOption (.listed ((ts tsval tsecr).entry offset)) =
      some (OptionsHeader.shiftedSum (UInt8.ofNat (tsval.toNat / 2 ^ 24))
          (UInt8.ofNat (tsval.toNat / 2 ^ 16)) (UInt8.ofNat (tsval.toNat / 2 ^ 8))
          (UInt8.ofNat tsval.toNat),
        OptionsHeader.shiftedSum (UInt8.ofNat (tsecr.toNat / 2 ^ 24))
          (UInt8.ofNat (tsecr.toNat / 2 ^ 16)) (UInt8.ofNat (tsecr.toNat / 2 ^ 8))
          (UInt8.ofNat tsecr.toNat)) := by
  simp only [entry, OptionsHeader.getTSOption, bigEndian_four, List.cons_append, List.nil_append]
  rfl

/-- An option comes back from its entry and from its offset if it is readable. -/
theorem readBack_of_readable {self : OptionsHeader} (hreadable : option.Readable)
    (hload : self.options.load offset option.size = option.written beyond) :
    option.ReadBack self (.listed (option.entry offset)) ∧
      option.ReadBack self (.number offset) := by
  cases option with
  | nop => exact ⟨trivial, trivial⟩
  | ws value => exact hreadable.elim
  | mss value => exact hreadable.elim
  | ts tsval tsecr =>
      have hentry : (ts tsval tsecr).ReadBack self (.listed ((ts tsval tsecr).entry offset)) := by
        obtain ⟨htsval, htsecr⟩ := hreadable
        rw [ReadBack, getTSOption_entry, (shiftedSum_eq_iff tsval.toNat_lt).mpr htsval,
          (shiftedSum_eq_iff tsecr.toNat_lt).mpr htsecr]
      -- the bytes at the offset are those of the entry
      have hnumber : self.getTSOption (.number offset) =
          self.getTSOption (.listed ((ts tsval tsecr).entry offset)) := by
        simp only [OptionsHeader.getTSOption, entry, (load_ts hreadable hload).2.2]
      exact ⟨hentry, hnumber.trans hentry⟩

theorem readable_of_readBack {self : OptionsHeader}
    (hlisted : option.ReadBack self (.listed (option.entry offset)))
    (hnumber : option.ReadBack self (.number offset)) : option.Readable := by
  cases option with
  | nop => trivial
  | ws value => cases hnumber
  | mss value => cases hnumber
  | ts tsval tsecr =>
      rw [ReadBack, getTSOption_entry, Option.some_inj, Prod.mk_inj,
        shiftedSum_eq_iff tsval.toNat_lt, shiftedSum_eq_iff tsecr.toNat_lt] at hlisted
      exact hlisted

/-! ## Reading the list -/

/-- A readable option that has been written is the next one in the list. -/
theorem optionsLoop_written (hreadable : option.Readable) (hlt : offset < starting + len)
    (hload : mem.load offset option.size = option.written beyond) :
    (OptionsHeader.optionsLoop mem starting len offset).value = option.entry offset ::
      (OptionsHeader.optionsLoop mem starting len (offset + option.size)).value := by
  cases option with
  | nop =>
      have hcode : mem offset = OptionsHeader.optionNop := (List.cons.inj hload).1
      rw [OptionsHeader.optionsLoop_nop hlt hcode]
      rfl
  | ws value => exact hreadable.elim
  | mss value => exact hreadable.elim
  | ts tsval tsecr =>
      obtain ⟨hcode, hlength, hbody⟩ := load_ts hreadable hload
      have hadvance : OptionsHeader.advance 10 = 10 := by decide
      rw [OptionsHeader.optionsLoop_body hlt (by rw [hcode]; decide) (by rw [hcode]; decide),
        hlength, hcode, hadvance]
      exact congrArg (fun bytes => (⟨8, offset, some bytes, none⟩ : OptionEntry) :: _) hbody

/-- The bytes of all options, one by one. -/
theorem load_placed (hload : mem.load offset (options.map size).sum =
    options.flatMap (written beyond)) :
    ∀ place ∈ placed offset options,
      mem.load place.1 place.2.size = place.2.written beyond := by
  induction options generalizing offset with
  | nil => nofun
  | cons option rest ih =>
      have hsplit : mem.load offset (option.written beyond ++ rest.flatMap (written beyond)).length =
          option.written beyond ++ rest.flatMap (written beyond) := by
        rw [List.length_append, length_written, length_flatMap_written]
        exact hload
      obtain ⟨hfirst, hrest⟩ := Memory.load_append_inv hsplit
      rw [length_written] at hfirst hrest
      rw [length_flatMap_written] at hrest
      rintro place (_ | ⟨_, hplace⟩)
      · exact hfirst
      · exact ih hrest place hplace

theorem mem_of_placed {place : ℕ × TcpOption} (hplace : place ∈ placed offset options) :
    place.2 ∈ options := by
  induction options generalizing offset with
  | nil => cases hplace
  | cons option rest ih =>
      rcases List.mem_cons.mp hplace with rfl | hrest
      · exact List.mem_cons_self
      · exact List.mem_cons_of_mem _ (ih hrest)

theorem exists_placed (hoption : option ∈ options) (offset : ℕ) :
    ∃ start, (start, option) ∈ placed offset options := by
  induction options generalizing offset with
  | nil => cases hoption
  | cons first rest ih =>
      rcases List.mem_cons.mp hoption with rfl | hrest
      · exact ⟨offset, List.mem_cons_self⟩
      · obtain ⟨start, hstart⟩ := ih hrest (offset + first.size)
        exact ⟨start, List.mem_cons_of_mem _ hstart⟩

/-- All options are listed, and then what follows them. -/
theorem optionsLoop_placed (hreadable : ∀ option ∈ options, option.Readable)
    (hfit : offset + (options.map size).sum ≤ starting + len)
    (hload : ∀ place ∈ placed offset options,
      mem.load place.1 place.2.size = place.2.written beyond) :
    (OptionsHeader.optionsLoop mem starting len offset).value =
      (placed offset options).map (fun place => place.2.entry place.1) ++
        (OptionsHeader.optionsLoop mem starting len (offset + (options.map size).sum)).value := by
  induction options generalizing offset with
  | nil => rfl
  | cons option rest ih =>
      rw [List.map_cons, List.sum_cons, ← Nat.add_assoc] at hfit
      have hpos := option.size_pos
      rw [optionsLoop_written (hreadable option List.mem_cons_self) (by omega)
          (hload _ List.mem_cons_self),
        ih (fun other hother => hreadable other (List.mem_cons_of_mem _ hother)) hfit
          (fun place hplace => hload place (List.mem_cons_of_mem _ hplace)),
        placed, List.map_cons, List.map_cons, List.sum_cons, List.cons_append, Nat.add_assoc]

/-- So is the padding. -/
theorem optionsLoop_padding (hload : mem.load offset (len - offset) =
    OptionsHeader.paddingBytes offset len) :
    (OptionsHeader.optionsLoop mem 0 len offset).value = padding offset len := by
  induction hcount : len - 1 - offset generalizing offset with
  | zero =>
      by_cases hlt : offset < len
      · have hone : len - offset = 1 := by omega
        have hcode : mem offset = OptionsHeader.optionEol := by
          rw [hone, OptionsHeader.paddingBytes, if_pos hlt, hcount] at hload
          exact (List.cons.inj hload).1
        rw [OptionsHeader.optionsLoop_eol (by omega) hcode, padding, if_pos hlt, hcount,
          OptionsHeader.missingError, if_neg (by omega), show len - 1 = offset by omega]
        rfl
      · rw [OptionsHeader.optionsLoop_end (by omega), padding, if_neg hlt]
        rfl
  | succ count ih =>
      have hlt : offset < len := by omega
      have hnext : len - 1 - (offset + 1) = count := by omega
      have hsize : len - offset = 1 + (len - (offset + 1)) := by omega
      rw [OptionsHeader.paddingBytes, if_pos hlt, hcount, hsize, Memory.load_add,
        List.replicate_succ] at hload
      obtain ⟨hcode, hrest⟩ := List.cons.inj hload
      rw [OptionsHeader.optionsLoop_nop (by omega) hcode, ih ?_ hnext, padding, padding,
        if_pos (by omega), if_pos hlt, hcount, hnext, List.range'_succ]
      · rfl
      · rw [OptionsHeader.paddingBytes, if_pos (by omega), hnext]
        exact hrest

/-- For every list of options that fits: it comes back exactly if all of it is readable. -/
theorem roundTrip_iff (beyond : ℕ → UInt8) (self : OptionsHeader) (options : List TcpOption)
    (hfit : (options.map size).sum ≤ self.getVariableLength) :
    RoundTrip beyond self options ↔ ∀ option ∈ options, option.Readable := by
  constructor
  · intro hroundTrip option hoption
    obtain ⟨start, hstart⟩ := exists_placed hoption 0
    obtain ⟨hlisted, hnumber⟩ := hroundTrip.read _ hstart
    exact readable_of_readBack hlisted hnumber
  · intro hreadable
    obtain ⟨hwritten, hpadding⟩ := load_fill beyond self options
    have hplaced := load_placed hwritten
    refine ⟨?_, fun place hplace =>
      readBack_of_readable (hreadable _ (mem_of_placed hplace)) (hplaced place hplace)⟩
    have hlength : (fill beyond self options).getVariableLength = self.getVariableLength := by
      rw [fill_eq]
      rfl
    rw [OptionsHeader.getOptions, Option.getD_none, Option.getD_none, hlength,
      optionsLoop_placed hreadable (by omega) hplaced, Nat.zero_add,
      optionsLoop_padding hpadding]

/-- A header with twelve bytes for options. -/
def twelveBytes : OptionsHeader := ⟨0x80, fun _ => 0⟩

theorem roundTrip_nopTs :
    ([nop, ts 0x7fffffff 1].map size).sum ≤ twelveBytes.getVariableLength ∧
      (RoundTrip (fun _ => 0) twelveBytes [nop, ts 0x7fffffff 1] ↔
        ∀ option ∈ [nop, ts 0x7fffffff 1], option.Readable) :=
  ⟨by decide, roundTrip_iff _ _ _ (by decide)⟩

/-- A window scale is not found by its offset, and a large timestamp is read as a negative
number from its entry, too. -/
theorem wsTs_not_roundTrip :
    ([ws 7].map size).sum ≤ twelveBytes.getVariableLength ∧
      ¬ RoundTrip (fun _ => 0) twelveBytes [ws 7] ∧
      ([ts 0x80000000 1].map size).sum ≤ twelveBytes.getVariableLength ∧
      ¬ RoundTrip (fun _ => 0) twelveBytes [ts 0x80000000 1] := by
  refine ⟨by decide, fun hroundTrip => ?_, by decide, fun hroundTrip => ?_⟩
  · obtain ⟨_, hnumber⟩ := hroundTrip.read (0, ws 7) (by decide)
    cases hnumber
  · obtain ⟨hlisted, _⟩ := hroundTrip.read (0, ts 0x80000000 1) (by decide)
    rw [ReadBack, getTSOption_entry, Option.some_inj, Prod.mk_inj,
      shiftedSum_eq_iff (by decide)] at hlisted
    exact absurd hlisted.1 (by decide)

end TcpOption

end Libmoon.Packet
