import Libmoon.Packet.Addresses

/-! # IPv4 addresses as text

`parseIP4Address` searches for four numbers with dots between them and takes the first ones
that it finds, whatever stands around them. `parseIPAddress` asks it first, so that the dotted
end of an IPv6 address decides that the address is one of IPv4.
-/

namespace Libmoon.Packet

open Foundation

/-- `%d`. -/
def decimal (number : ℤ) : List Char :=
  if number < 0 then '-' :: Nat.toDigits 10 number.natAbs else Nat.toDigits 10 number.natAbs

/-- `ip4ToString`. -/
def ip4ToString (ip : ℚ) : String :=
  String.ofList (['.'].intercalate ([tobit ip >>> 24, (tobit ip >>> 16) &&& 0xff#32,
    (tobit ip >>> 8) &&& 0xff#32, tobit ip &&& 0xff#32].map fun part => decimal part.toInt))

/-- What `parseIPAddress` returns first. -/
inductive IpAddress where
  | ip4 (address : ℚ)
  | ip6 (address : List (BitVec 32))
deriving DecidableEq

/-- `parseIPAddress`: the address, or nil, and whether it is one of IPv4. -/
def parseIPAddress (inetPton : String → Option (List UInt8)) (ip : String) :
    Option IpAddress × Bool :=
  match parseIP4Address ip with
  | none => ((parseIP6Address inetPton ip).map .ip6, false)
  | some address => (some (.ip4 address), true)

/-! ## What is accepted -/

/-- Four numbers with single dots between them stand in the string, and none further left. -/
def FirstQuad (ip : String) (runs : List (List Char)) : Prop :=
  runs.length = 4 ∧ FirstRuns Char.isDigit (· == '.') runs ip.toList

/-- The numbers are those of an address. -/
def InRange (runs : List (List Char)) : Prop := ∀ run ∈ runs, digitsValue 10 run ≤ 255

instance (runs : List (List Char)) : Decidable (InRange runs) :=
  inferInstanceAs (Decidable (∀ run ∈ runs, _))

/-- The number of an address. -/
def quadNumber (runs : List (List Char)) : ℕ :=
  runs.foldl (fun number run => number * 2 ^ 8 + digitsValue 10 run) 0

/-- The string consists of four decimal numbers up to 255 with single dots between them. -/
def IsQuad (ip : String) (runs : List (List Char)) : Prop :=
  runs.length = 4 ∧ (∀ run ∈ runs, run ≠ [] ∧ ∀ char ∈ run, char.isDigit) ∧ InRange runs ∧
    ip.toList = ['.'].intercalate runs

theorem dot_not_isDigit : ∀ char : Char, (char == '.') → ¬ char.isDigit := by
  intro char hchar
  rw [beq_iff_eq.mp hchar]
  decide

theorem firstQuad_iff {ip : String} {runs : List (List Char)} :
    stringMatch (runsPattern Char.isDigit (· == '.') 4) ip.toList = some runs ↔
      FirstQuad ip runs :=
  stringMatch_eq_some_iff dot_not_isDigit

theorem FirstQuad.unique {ip : String} {runs others : List (List Char)}
    (hruns : FirstQuad ip runs) (hothers : FirstQuad ip others) : runs = others :=
  Option.some.inj ((firstQuad_iff.mpr hruns).symm.trans (firstQuad_iff.mpr hothers))

/-- The numbers of a string that has nothing else are the first ones. -/
theorem IsQuad.firstQuad {ip : String} {runs : List (List Char)} (hquad : IsQuad ip runs) :
    FirstQuad ip runs := by
  obtain ⟨hlength, hruns, -, htext⟩ := hquad
  rw [← firstQuad_iff, htext, ← hlength]
  exact stringMatch_of_matchItems (matchItems_intercalate rfl (by decide) hruns)

/-- Shifting a number by one byte. -/
theorem shiftLeft_or_byte (number byte : ℕ) (hbyte : byte < 2 ^ 8) :
    (BitVec.ofNat 32 number <<< 8) ||| BitVec.ofNat 32 byte =
      BitVec.ofNat 32 (number * 2 ^ 8 + byte) := by
  apply BitVec.eq_of_toNat_eq
  have hwide : byte % 2 ^ 32 = byte := by omega
  have hshifted : (number % 2 ^ 32) <<< 8 % 2 ^ 32 = (number % 2 ^ 24) <<< 8 := by
    rw [Nat.shiftLeft_eq, Nat.shiftLeft_eq]
    omega
  rw [BitVec.toNat_or, BitVec.toNat_shiftLeft, BitVec.toNat_ofNat, BitVec.toNat_ofNat,
    BitVec.toNat_ofNat, hwide, hshifted, ← Nat.shiftLeft_add_eq_or_of_lt hbyte, Nat.shiftLeft_eq]
  omega

/-- The address that is put together from the numbers, as its 32 bits. -/
theorem FirstQuad.parseIP4Address_eq {ip : String} {runs : List (List Char)}
    (hfirst : FirstQuad ip runs) (hrange : InRange runs) :
    parseIP4Address ip = some ((BitVec.ofNat 32 (quadNumber runs)).toInt : ℚ) := by
  have hmatch := firstQuad_iff.mpr hfirst
  have hlength : runs.length = 4 := hfirst.1
  have hvalues : byteValues 10 runs = some (runs.map (digitsValue 10)) :=
    byteValues_eq_some_iff.mpr ⟨hrange, rfl⟩
  match runs, hlength with
  | [first, second, third, fourth], _ =>
      have hbyte : ∀ run ∈ [first, second, third, fourth], digitsValue 10 run < 2 ^ 8 :=
        fun run hrun => Nat.lt_succ_of_le (hrange run hrun)
      simp only [List.mem_cons, List.not_mem_nil, or_false, forall_eq_or_imp, forall_eq] at hbyte
      obtain ⟨-, hsecond, hthird, hfourth⟩ := hbyte
      rw [parseIP4Address, Option.bind_eq_bind, hmatch, Option.bind_some, Option.bind_eq_bind,
        hvalues, Option.bind_some]
      simp only [List.map_cons, List.map_nil, List.foldl_cons, List.foldl_nil, tobit_toInt,
        tobit_natCast, shiftLeft_or_byte _ _ hsecond, shiftLeft_or_byte _ _ hthird,
        shiftLeft_or_byte _ _ hfourth, quadNumber, Nat.zero_mul, Nat.zero_add]

theorem parseIP4Address_eq_some_iff {ip : String} {address : ℚ} :
    parseIP4Address ip = some address ↔ ∃ runs, FirstQuad ip runs ∧ InRange runs ∧
      address = (BitVec.ofNat 32 (quadNumber runs)).toInt := by
  constructor
  · intro haddress
    have hparse := haddress
    rw [parseIP4Address, Option.bind_eq_bind, Option.bind_eq_some_iff] at hparse
    obtain ⟨runs, hmatch, hbytes⟩ := hparse
    obtain ⟨bytes, hvalues, -⟩ := Option.bind_eq_some_iff.mp hbytes
    have hrange := (byteValues_eq_some_iff.mp hvalues).1
    have hfirst := firstQuad_iff.mp hmatch
    refine ⟨runs, hfirst, hrange, ?_⟩
    exact Option.some.inj (haddress.symm.trans (hfirst.parseIP4Address_eq hrange))
  · rintro ⟨runs, hfirst, hrange, rfl⟩
    exact hfirst.parseIP4Address_eq hrange

theorem quadNumber_lt {runs : List (List Char)} (hlength : runs.length = 4)
    (hrange : InRange runs) : quadNumber runs < 2 ^ 32 := by
  match runs, hlength with
  | [first, second, third, fourth], _ =>
      simp only [InRange, List.mem_cons, List.not_mem_nil, or_false, forall_eq_or_imp,
        forall_eq] at hrange
      simp only [quadNumber, List.foldl_cons, List.foldl_nil]
      omega

/-- Only what is an address is accepted, and with its number modulo `2 ^ 32`. -/
def ParsesGrammar (ip : String) : Prop :=
  (∀ address, parseIP4Address ip = some address → ∃ runs, IsQuad ip runs ∧
      ∃ number : ℤ, address = number ∧ number % 2 ^ 32 = quadNumber runs) ∧
    ∀ runs, IsQuad ip runs → parseIP4Address ip ≠ none

theorem parsesGrammar_iff (ip : String) :
    ParsesGrammar ip ↔ ∀ runs, FirstQuad ip runs → InRange runs →
      ip.toList = ['.'].intercalate runs := by
  constructor
  · rintro ⟨hsound, -⟩ runs hfirst hrange
    obtain ⟨others, hquad, -⟩ :=
      hsound _ (parseIP4Address_eq_some_iff.mpr ⟨runs, hfirst, hrange, rfl⟩)
    rw [hfirst.unique hquad.firstQuad]
    exact hquad.2.2.2
  · intro hwhole
    constructor
    · intro address haddress
      obtain ⟨runs, hfirst, hrange, rfl⟩ := parseIP4Address_eq_some_iff.mp haddress
      refine ⟨runs, ⟨hfirst.1, hfirst.2.run, hrange, hwhole runs hfirst hrange⟩, _, rfl, ?_⟩
      have hlt := quadNumber_lt hfirst.1 hrange
      rw [BitVec.toInt_eq_toNat_bmod, BitVec.toNat_ofNat, Nat.mod_eq_of_lt hlt]
      exact (Int.bmod_emod ..).trans (by omega)
    · intro runs hquad
      rw [parseIP4Address_eq_some_iff.mpr ⟨runs, hquad.firstQuad, hquad.2.2.1, rfl⟩]
      exact Option.some_ne_none _

/-! ## Addresses as text and back -/

/-- Bytes with dots between them. -/
def dotted (bytes : List UInt8) : String :=
  String.ofList (['.'].intercalate (bytes.map decimalByte))

theorem decimal_toInt {part : BitVec 32} (hpart : part.toNat < 256) :
    decimal part.toInt = decimalByte (UInt8.ofNat part.toNat) := by
  have htoInt : part.toInt = (part.toNat : ℤ) := BitVec.toInt_eq_toNat_of_lt (by omega)
  rw [decimal, htoInt, if_neg (by omega), Int.natAbs_natCast, decimalByte, UInt8.toNat_ofNat',
    Nat.mod_eq_of_lt hpart]

/-- The text of an address are its bytes. -/
theorem ip4ToString_eq (ip : ℚ) :
    ip4ToString ip = dotted [UInt8.ofNat ((tobit ip).toNat / 2 ^ 24),
      UInt8.ofNat ((tobit ip).toNat / 2 ^ 16), UInt8.ofNat ((tobit ip).toNat / 2 ^ 8),
      UInt8.ofNat (tobit ip).toNat] := by
  have hbits := (tobit ip).isLt
  have hmask (bits : BitVec 32) : (bits &&& 0xff#32).toNat = bits.toNat % 2 ^ 8 := by
    have hones : (0xff#32).toNat = 2 ^ 8 - 1 := rfl
    rw [BitVec.toNat_and, hones, Nat.and_two_pow_sub_one_eq_mod]
  have hshift (places : ℕ) : (tobit ip >>> places).toNat = (tobit ip).toNat / 2 ^ places := by
    rw [BitVec.toNat_ushiftRight, Nat.shiftRight_eq_div_pow]
  have hmod (number : ℕ) : UInt8.ofNat (number % 2 ^ 8) = UInt8.ofNat number := by
    apply UInt8.toNat_inj.mp
    rw [UInt8.toNat_ofNat', UInt8.toNat_ofNat', Nat.mod_mod]
  have hlow (bits : BitVec 32) :
      decimal (bits &&& 0xff#32).toInt = decimalByte (UInt8.ofNat bits.toNat) := by
    rw [decimal_toInt (by rw [hmask]; exact Nat.mod_lt _ (by decide)), hmask, hmod]
  have hhigh : decimal (tobit ip >>> 24).toInt =
      decimalByte (UInt8.ofNat ((tobit ip).toNat / 2 ^ 24)) := by
    rw [decimal_toInt (by rw [hshift]; omega), hshift]
  simp only [ip4ToString, dotted, List.map_cons, List.map_nil, hhigh, hlow, hshift]

/-- The text of four bytes is read as their number. -/
theorem parseIP4Address_dotted (first second third fourth : UInt8) :
    ∃ ip, parseIP4Address (dotted [first, second, third, fourth]) = some ip ∧
      (tobit ip).toNat =
        ((first.toNat * 2 ^ 8 + second.toNat) * 2 ^ 8 + third.toNat) * 2 ^ 8 + fourth.toNat := by
  have hquad : IsQuad (dotted [first, second, third, fourth])
      ([first, second, third, fourth].map decimalByte) := by
    refine ⟨rfl, ?_, ?_, String.toList_ofList⟩
    · intro run hrun
      obtain ⟨byte, _, rfl⟩ := List.mem_map.mp hrun
      exact ⟨(decimalByte_writes byte).ne_nil, (decimalByte_writes byte).cls⟩
    · intro run hrun
      obtain ⟨byte, _, rfl⟩ := List.mem_map.mp hrun
      rw [(decimalByte_writes byte).value]
      exact Nat.le_of_lt_succ byte.toNat_lt
  have hlt := quadNumber_lt hquad.1 hquad.2.2.1
  refine ⟨_, parseIP4Address_eq_some_iff.mpr ⟨_, hquad.firstQuad, hquad.2.2.1, rfl⟩, ?_⟩
  rw [tobit_toInt, BitVec.toNat_ofNat, Nat.mod_eq_of_lt hlt]
  simp only [quadNumber, List.map_cons, List.map_nil, List.foldl_cons, List.foldl_nil,
    (decimalByte_writes _).value, Nat.zero_mul, Nat.zero_add]

/-- `ip4ToString` undoes the parser, -/
theorem ip4ToString_parseIP4Address (first second third fourth : UInt8) :
    ∃ ip, parseIP4Address (dotted [first, second, third, fourth]) = some ip ∧
      ip4ToString ip = dotted [first, second, third, fourth] := by
  obtain ⟨ip, hparse, hnumber⟩ := parseIP4Address_dotted first second third fourth
  have hfirst := first.toNat_lt
  have hsecond := second.toNat_lt
  have hthird := third.toNat_lt
  have hfourth := fourth.toNat_lt
  have hbyte {number : ℕ} (byte : UInt8) (hmod : number % 2 ^ 8 = byte.toNat) :
      UInt8.ofNat number = byte := by
    apply UInt8.toNat_inj.mp
    rw [UInt8.toNat_ofNat', hmod]
  refine ⟨ip, hparse, ?_⟩
  rw [ip4ToString_eq, hnumber, hbyte first (by omega), hbyte second (by omega),
    hbyte third (by omega), hbyte fourth (by omega)]

/-- and the parser undoes it for every 32-bit address. -/
theorem parseIP4Address_ip4ToString (bits : BitVec 32) :
    ∃ ip, parseIP4Address (ip4ToString bits.toInt) = some ip ∧ tobit ip = bits := by
  have hlt := bits.isLt
  rw [ip4ToString_eq, tobit_toInt]
  obtain ⟨ip, hparse, hnumber⟩ := parseIP4Address_dotted (UInt8.ofNat (bits.toNat / 2 ^ 24))
    (UInt8.ofNat (bits.toNat / 2 ^ 16)) (UInt8.ofNat (bits.toNat / 2 ^ 8)) (UInt8.ofNat bits.toNat)
  refine ⟨ip, hparse, BitVec.eq_of_toNat_eq ?_⟩
  rw [hnumber]
  simp only [UInt8.toNat_ofNat']
  omega

/-! ## The dispatch -/

theorem parseIPAddress_ip6_iff {inetPton : String → Option (List UInt8)} {ip : String}
    {address : List (BitVec 32)} (haddress : parseIP6Address inetPton ip = some address) :
    parseIPAddress inetPton ip = (some (.ip6 address), false) ↔
      ∀ runs, FirstQuad ip runs → ¬ InRange runs := by
  rw [parseIPAddress]
  cases hparse : parseIP4Address ip with
  | none =>
      rw [haddress]
      refine iff_of_true rfl fun runs hfirst hrange => ?_
      rw [parseIP4Address_eq_some_iff.mpr ⟨runs, hfirst, hrange, rfl⟩] at hparse
      cases hparse
  | some number =>
      obtain ⟨runs, hfirst, hrange, -⟩ := parseIP4Address_eq_some_iff.mp hparse
      exact iff_of_false (by simp) fun hnone => hnone runs hfirst hrange

/-- A string is parsed by the grammar exactly if its first four numbers with dots between them,
if there are any and they are in range, are the whole string. Addresses and their text agree.
What is an IPv6 address is taken for one exactly if it has no such numbers. -/
theorem ip4Text_right_iff (ip : String) :
    (ParsesGrammar ip ↔ ∀ runs, FirstQuad ip runs → InRange runs →
        ip.toList = ['.'].intercalate runs) ∧
      (∀ bits : BitVec 32,
        ∃ number, parseIP4Address (ip4ToString bits.toInt) = some number ∧
          tobit number = bits) ∧
      (∀ first second third fourth : UInt8,
        ∃ number, parseIP4Address (dotted [first, second, third, fourth]) = some number ∧
          ip4ToString number = dotted [first, second, third, fourth]) ∧
      ∀ inetPton address, parseIP6Address inetPton ip = some address →
        (parseIPAddress inetPton ip = (some (.ip6 address), false) ↔
          ∀ runs, FirstQuad ip runs → ¬ InRange runs) :=
  ⟨parsesGrammar_iff ip, parseIP4Address_ip4ToString, ip4ToString_parseIP4Address,
    fun _ _ => parseIPAddress_ip6_iff⟩

/-- An address with an embedded IPv4 address is accepted as one of IPv4. -/
theorem embedded_not_parsesGrammar : ¬ ParsesGrammar "::ffff:1.2.3.4" := by
  have hmatch : stringMatch (runsPattern Char.isDigit (· == '.') 4) "::ffff:1.2.3.4".toList =
      some [['1'], ['2'], ['3'], ['4']] := by decide
  intro hgrammar
  have hwhole := (parsesGrammar_iff _).mp hgrammar _ (firstQuad_iff.mp hmatch) (by decide)
  revert hwhole
  decide

end Libmoon.Packet
