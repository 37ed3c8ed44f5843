import Libmoon.Packet.Addresses

/-! # Representations of MAC addresses

A MAC address is six bytes of a packet, a number whose lowest byte comes first, or text. The
functions of `macAddr`, both results of `parseMacAddress` and what `dpdk_get_mac_addr` returns
all say the same about an address.
-/

namespace Libmoon.Packet

open Foundation

/-- `parseMacAddress(mac)`: the bytes of a `union mac_address`. -/
def parseMacUnion (mac : String) : Option (List UInt8) := do
  let captures ← stringMatch
    (runsPattern isHexDigit (fun char => char == '-' || char == ':') 6) mac.toList
  let bytes ← byteValues 16 captures
  some (bytes.map UInt8.ofNat)

/-- `dpdk_get_mac_addr`: the number, and what is written to the buffer. The three lowest bytes
are put together as an `int`. -/
def dpdkGetMacAddr (addr : Memory) (start : Nat) : BitVec 64 × String :=
  let byte (i : Nat) : BitVec 8 := (addr (start + i)).toBitVec
  let low : BitVec 32 := (byte 0).setWidth 32 ||| ((byte 1).setWidth 32 <<< 8) |||
    ((byte 2).setWidth 32 <<< 16)
  (low.signExtend 64 ||| ((byte 3).setWidth 64 <<< 24) ||| ((byte 4).setWidth 64 <<< 32) |||
      ((byte 5).setWidth 64 <<< 40),
    String.ofList ([':'].intercalate ((addr.load start 6).map upperHexByte)))

/-! ## The number and the union -/

theorem length_of_mac {mac : List Char} {captures : List (List Char)}
    (hmatch : stringMatch (runsPattern isHexDigit (fun char => char == '-' || char == ':') 6) mac =
      some captures) : captures.length = 6 := by
  refine ((stringMatch_eq_some_iff ?_).mp hmatch).1
  intro char hchar
  rcases Bool.or_eq_true_iff.mp hchar with hdash | hcolon
  · rw [beq_iff_eq.mp hdash]
    decide
  · rw [beq_iff_eq.mp hcolon]
    decide

theorem map_toNat_ofNat {values : List Nat} (hvalues : ∀ value ∈ values, value ≤ 0xff) :
    (values.map UInt8.ofNat).map UInt8.toNat = values := by
  have hid : ∀ value ∈ values, (UInt8.toNat ∘ UInt8.ofNat) value = id value := by
    intro value hvalue
    have hle := hvalues value hvalue
    rw [Function.comp_apply, UInt8.toNat_ofNat', Nat.mod_eq_of_lt (by omega), id]
  rw [List.map_map, List.map_congr_left hid, List.map_id]

/-- The number is that of the bytes. -/
theorem parseMacAddress_eq (mac : String) :
    parseMacAddress mac = (parseMacUnion mac).map fun bytes =>
      ((Nat.ofDigits 256 (bytes.map UInt8.toNat) : ℕ) : ℚ) := by
  simp only [parseMacAddress, parseMacUnion, Option.bind_eq_bind, Option.map_bind]
  refine Option.bind_congr fun captures _ => ?_
  rw [Function.comp_apply, Option.map_bind]
  refine Option.bind_congr fun bytes hbytes => ?_
  obtain ⟨hrange, rfl⟩ := byteValues_eq_some_iff.mp hbytes
  rw [Function.comp_apply, Option.map_some, map_toNat_ofNat]
  simpa using hrange

theorem length_of_parseMacUnion {mac : String} {bytes : List UInt8}
    (hparse : parseMacUnion mac = some bytes) : bytes.length = 6 := by
  obtain ⟨captures, hmatch, hparse⟩ := Option.bind_eq_some_iff.mp hparse
  obtain ⟨values, hvalues, hbytes⟩ := Option.bind_eq_some_iff.mp hparse
  obtain rfl := Option.some.inj hbytes
  obtain ⟨-, rfl⟩ := byteValues_eq_some_iff.mp hvalues
  rw [List.length_map, List.length_map, length_of_mac hmatch]

/-- Reading eight bytes of a union and masking them gives the number that is returned instead
of it. -/
theorem parseMacAddress_eq_get (mem : Memory) (start : Nat) (mac : String) :
    parseMacAddress mac =
      (parseMacUnion mac).map fun bytes => MacAddr.get (mem.store start bytes) start := by
  rw [parseMacAddress_eq]
  refine Option.map_congr fun bytes hbytes => ?_
  have hlength := length_of_parseMacUnion hbytes
  rw [MacAddr.get_eq, Memory.toNat_word, ← hlength, Memory.load_store]

theorem parseMacUnion_of_writes {write : UInt8 → List Char}
    (hwrites : ∀ byte, Writes 16 isHexDigit (write byte) byte) (mem : Memory) (start : Nat) :
    parseMacUnion (String.ofList ([':'].intercalate ((mem.load start 6).map write))) =
      some (mem.load start 6) := by
  rw [parseMacUnion, String.toList_ofList, stringMatch_mac hwrites, Option.bind_eq_bind,
    Option.bind_some, byteValues_of_writes hwrites, Option.bind_eq_bind, Option.bind_some,
    List.map_map]
  have hid : ∀ byte ∈ mem.load start 6, (UInt8.ofNat ∘ UInt8.toNat) byte = id byte :=
    fun byte _ => UInt8.ofNat_toNat
  rw [List.map_congr_left hid, List.map_id]

/-! ## The address of a port -/

/-- The number is that of the bytes, with the first one lowest. -/
theorem dpdkGetMacAddr_fst (addr : Memory) (start : Nat) :
    (dpdkGetMacAddr addr start).1 = (addr.word start 6).setWidth 64 := by
  -- the three lowest bytes are no negative `int`
  have hint (low : BitVec 32) (hlow : low.getLsbD 31 = false) :
      low.signExtend 64 = low.setWidth 64 :=
    BitVec.signExtend_eq_setWidth_of_msb_false hlow
  rw [dpdkGetMacAddr, hint _ (by simp)]
  apply BitVec.eq_of_getLsbD_eq
  intro i hi
  rw [BitVec.getLsbD_setWidth, Memory.getLsbD_word]
  simp only [Memory.bit]
  interval_cases i <;> simp

theorem dpdkGetMacAddr_toNat (addr : Memory) (start : Nat) :
    (((dpdkGetMacAddr addr start).1.toNat : ℕ) : ℚ) = MacAddr.get addr start := by
  rw [dpdkGetMacAddr_fst, MacAddr.get_eq, BitVec.toNat_setWidth, Nat.mod_eq_of_lt]
  exact (addr.word start 6).isLt.trans (by decide)

namespace MacAddr

/-- Setting the number copies the bytes, as setting the string does. -/
theorem set_get (mem src : Memory) (start origin : Nat) :
    set mem start (some (get src origin)) = mem.store start (src.load origin 6) := by
  rw [← setString_getString, setString, parseMacAddress_getString, ← get_eq]

/-- All representations of an address agree: as a number, as text in either case, as a union,
and as what is returned for a port. -/
theorem representations_agree (mem src : Memory) (start origin : Nat) :
    (setString mem start (getString src origin) = mem.store start (src.load origin 6) ∧
        set mem start (some (get src origin)) = mem.store start (src.load origin 6) ∧
        (parseMacUnion (getString src origin)).map (mem.store start) =
          some (mem.store start (src.load origin 6))) ∧
      (∀ mac, parseMacAddress mac =
        (parseMacUnion mac).map fun bytes => get (mem.store start bytes) start) ∧
      set mem start (some ((dpdkGetMacAddr src origin).1.toNat : ℕ)) =
          mem.store start (src.load origin 6) ∧
        setString mem start (dpdkGetMacAddr src origin).2 =
          mem.store start (src.load origin 6) ∧
        (parseMacUnion (dpdkGetMacAddr src origin).2).map (mem.store start) =
          some (mem.store start (src.load origin 6)) ∧
        parseMacAddress (dpdkGetMacAddr src origin).2 =
          some ((dpdkGetMacAddr src origin).1.toNat : ℕ) := by
  have htext : parseMacAddress (dpdkGetMacAddr src origin).2 =
      some (((dpdkGetMacAddr src origin).1.toNat : ℕ) : ℚ) := by
    rw [dpdkGetMacAddr_toNat, get_eq]
    exact parseMacAddress_of_writes upperHexByte_writes src origin
  have hset : set mem start (some (((dpdkGetMacAddr src origin).1.toNat : ℕ) : ℚ)) =
      mem.store start (src.load origin 6) := by
    rw [dpdkGetMacAddr_toNat, set_get]
  refine ⟨⟨setString_getString mem src start origin, set_get mem src start origin, ?_⟩,
    parseMacAddress_eq_get mem start, hset, ?_, ?_, htext⟩
  · rw [getString, parseMacUnion_of_writes hexByte_writes, Option.map_some]
  · rw [setString, htext, hset]
  · rw [dpdkGetMacAddr, parseMacUnion_of_writes upperHexByte_writes, Option.map_some]

end MacAddr

end Libmoon.Packet
