import Libmoon.Foundation.BitMemory
import Libmoon.Foundation.LuaBit
import Libmoon.Foundation.LuaString
import Mathlib.Data.Nat.Digits.Defs

/-! # Addresses

MAC, IPv4 and IPv6 addresses in a packet, as numbers and as strings, and the functions of
`utils.lua` that parse the strings. What `getString` writes is what `setString` reads.
-/

namespace Libmoon.Packet

open Foundation

/-- A number that fits a byte, which is what the parsers ask of each part. -/
def byteValues (base : Nat) (captures : List (List Char)) : Option (List Nat) :=
  let bytes := captures.map (digitsValue base)
  if bytes.all (· ≤ 0xff) then some bytes else none

/-- `parseMacAddress(mac, true)`. -/
def parseMacAddress (mac : String) : Option ℚ := do
  let captures ← stringMatch
    (runsPattern isHexDigit (fun char => char == '-' || char == ':') 6) mac.toList
  let bytes ← byteValues 16 captures
  some (Nat.ofDigits 256 bytes : ℕ)

/-- `parseIP4Address`. -/
def parseIP4Address (ip : String) : Option ℚ := do
  let captures ← stringMatch (runsPattern Char.isDigit (· == '.') 4) ip.toList
  let bytes ← byteValues 10 captures
  match bytes with
  | first :: rest =>
      some (rest.foldl (fun (ip : ℚ) (byte : Nat) =>
        (((tobit ip <<< 8) ||| tobit byte).toInt : ℚ)) first)
  | [] => none

namespace MacAddr

/-- `macAddr:get`, which reads eight bytes. -/
def get (mem : Memory) (start : Nat) : ℚ :=
  ((mem.word start 8).setWidth 64 &&& 0xffffffffffff#64).toNat

/-- `macAddr:set`. -/
def set (mem : Memory) (start : Nat) (addr : Option ℚ) : Memory :=
  let addr := addr.getD 0
  let mem := mem.setWord start ((tobit addr &&& 0xff#32).setWidth (8 * 1))
  let mem := mem.setWord (start + 1) (((tobit addr >>> 8) &&& 0xff#32).setWidth (8 * 1))
  let mem := mem.setWord (start + 2) (((tobit addr >>> 16) &&& 0xff#32).setWidth (8 * 1))
  let mem := mem.setWord (start + 3) (((tobit addr >>> 24) &&& 0xff#32).setWidth (8 * 1))
  let addr := BitVec.ofInt 64 (truncate addr)
  let mem := mem.setWord (start + 4) (((addr >>> 32) &&& 0xff#64).setWidth (8 * 1))
  mem.setWord (start + 5) (((addr >>> 40) &&& 0xff#64).setWidth (8 * 1))

/-- `macAddr:getString`. -/
def getString (mem : Memory) (start : Nat) : String :=
  String.ofList ([':'].intercalate ((mem.load start 6).map hexByte))

/-- `macAddr:setString`. -/
def setString (mem : Memory) (start : Nat) (mac : String) : Memory :=
  set mem start (parseMacAddress mac)

end MacAddr

namespace Ip4Addr

/-- `ip4Addr:get`. -/
def get (mem : Memory) (start : Nat) : ℚ :=
  ((bswap ((mem.word start 4).setWidth 32)).toInt : ℚ)

/-- `ip4Addr:set`. -/
def set (mem : Memory) (start : Nat) (ip : ℚ) : Memory :=
  mem.setWord start ((bswap (tobit ip)).setWidth (8 * 4))

/-- `ip4Addr:getString`. -/
def getString (mem : Memory) (start : Nat) : String :=
  String.ofList (['.'].intercalate ((mem.load start 4).map decimalByte))

/-- `ip4Addr:setString`. What is no IPv4 address raises an error, also if it is one of
IPv6. -/
def setString (mem : Memory) (start : Nat) (ip : String) : Option Memory :=
  (parseIP4Address ip).map (set mem start)

end Ip4Addr

/-- `parseIP6Address`. The address that `inet_pton` stores is taken apart into words, in the
other order and swapped. -/
def parseIP6Address (inetPton : String → Option (List UInt8)) (ip : String) :
    Option (List (BitVec 32)) := do
  let bytes ← inetPton ip
  let tmpAddr : Memory := fun i => bytes.getD i 0
  some [bswap ((tmpAddr.word 12 4).setWidth 32), bswap ((tmpAddr.word 8 4).setWidth 32),
    bswap ((tmpAddr.word 4 4).setWidth 32), bswap ((tmpAddr.word 0 4).setWidth 32)]

namespace Ip6Addr

/-- `ip6Addr:set`. -/
def set (mem : Memory) (start : Nat) (addr : List (BitVec 32)) : Memory :=
  let mem := mem.setWord start ((bswap (addr.getD 3 0)).setWidth (8 * 4))
  let mem := mem.setWord (start + 4) ((bswap (addr.getD 2 0)).setWidth (8 * 4))
  let mem := mem.setWord (start + 8) ((bswap (addr.getD 1 0)).setWidth (8 * 4))
  mem.setWord (start + 12) ((bswap (addr.getD 0 0)).setWidth (8 * 4))

/-- A group of `ip6Addr:getString`. -/
def group (mem : Memory) (start : Nat) : List Char :=
  hexByte (mem start) ++ hexByte (mem (start + 1))

/-- `ip6Addr:getString`. -/
def getString (mem : Memory) (start : Nat) : String :=
  String.ofList ([':'].intercalate
    ([0, 2, 4, 6, 8, 10, 12, 14].map fun offset => group mem (start + offset)))

end Ip6Addr

/-! ## Strings are read back -/

theorem byteValues_eq_some_iff {base : Nat} {captures : List (List Char)} {bytes : List Nat} :
    byteValues base captures = some bytes ↔
      (∀ run ∈ captures, digitsValue base run ≤ 0xff) ∧ bytes = captures.map (digitsValue base) := by
  have hrange : (captures.map (digitsValue base)).all (· ≤ 0xff) ↔
      ∀ run ∈ captures, digitsValue base run ≤ 0xff := by
    simp
  rw [byteValues]
  by_cases hall : ∀ run ∈ captures, digitsValue base run ≤ 0xff
  · rw [if_pos (hrange.mpr hall), Option.some.injEq, and_iff_right hall]
    exact eq_comm
  · rw [if_neg (hrange.not.mpr hall)]
    exact iff_of_false (by simp) fun hboth => hall hboth.1

theorem byteValues_of_writes {base : Nat} {cls : Char → Bool} {write : UInt8 → List Char}
    (hwrites : ∀ byte, Writes base cls (write byte) byte) (bytes : List UInt8) :
    byteValues base (bytes.map write) = some (bytes.map UInt8.toNat) := by
  refine byteValues_eq_some_iff.mpr ⟨?_, ?_⟩
  · intro run hrun
    obtain ⟨byte, _, rfl⟩ := List.mem_map.mp hrun
    rw [(hwrites byte).value]
    exact Nat.le_of_lt_succ byte.toNat_lt
  · rw [List.map_map]
    exact List.map_congr_left fun byte _ => (hwrites byte).value.symm

theorem stringMatch_of_writes {base : Nat} {cls separator : Char → Bool} {char : Char}
    {write : UInt8 → List Char} (hwrites : ∀ byte, Writes base cls (write byte) byte)
    (hchar : separator char) (hcls : ¬ cls char) (bytes : List UInt8) :
    stringMatch (runsPattern cls separator bytes.length) ([char].intercalate (bytes.map write)) =
      some (bytes.map write) := by
  apply stringMatch_of_matchItems
  have hruns : ∀ run ∈ bytes.map write, run ≠ [] ∧ ∀ digit ∈ run, cls digit := by
    intro run hrun
    obtain ⟨byte, _, rfl⟩ := List.mem_map.mp hrun
    exact ⟨(hwrites byte).ne_nil, (hwrites byte).cls⟩
  simpa using matchItems_intercalate hchar hcls hruns

/-- Six bytes with colons between them are read, however their digits are written. -/
theorem stringMatch_mac {write : UInt8 → List Char}
    (hwrites : ∀ byte, Writes 16 isHexDigit (write byte) byte) (mem : Memory) (start : Nat) :
    stringMatch (runsPattern isHexDigit (fun char => char == '-' || char == ':') 6)
        ([':'].intercalate ((mem.load start 6).map write)) = some ((mem.load start 6).map write) := by
  have hmatch : stringMatch
      (runsPattern isHexDigit (fun char => char == '-' || char == ':') (mem.load start 6).length)
      ([':'].intercalate ((mem.load start 6).map write)) = some ((mem.load start 6).map write) :=
    stringMatch_of_writes hwrites rfl (by decide) _
  rwa [Memory.length_load] at hmatch

theorem parseMacAddress_of_writes {write : UInt8 → List Char}
    (hwrites : ∀ byte, Writes 16 isHexDigit (write byte) byte) (mem : Memory) (start : Nat) :
    parseMacAddress (String.ofList ([':'].intercalate ((mem.load start 6).map write))) =
      some ((mem.word start 6).toNat : ℚ) := by
  rw [parseMacAddress, String.toList_ofList, stringMatch_mac hwrites, Option.bind_eq_bind,
    Option.bind_some, byteValues_of_writes hwrites, Memory.toNat_word]
  rfl

theorem parseMacAddress_getString (mem : Memory) (start : Nat) :
    parseMacAddress (MacAddr.getString mem start) = some ((mem.word start 6).toNat : ℚ) :=
  parseMacAddress_of_writes hexByte_writes mem start

namespace MacAddr

variable {src dst : Memory} {base offset : Nat}

/-- Setting the address that a number stands for. -/
theorem restored_set (addr : BitVec 64)
    (haddr : ∀ i < 48, addr.getLsbD i = src.bit (base + offset + i / 8) (i % 8)) :
    Restored src base (wholeBytes offset 6) dst
      (set dst (base + offset) (some (addr.toNat : ℚ))) := by
  have hbyte (word : BitVec (8 * 1)) {j : Nat} (hj : j < 6)
      (hword : ∀ k < 8, word.getLsbD k = addr.getLsbD (8 * j + k)) :
      word = src.word (base + offset + j) 1 := by
    apply BitVec.eq_of_getLsbD_eq
    intro k hk
    have hdiv : (8 * j + k) / 8 = j := by omega
    have hmod : (8 * j + k) % 8 = k := by omega
    have hbit := haddr (8 * j + k) (by omega)
    rw [hdiv, hmod] at hbit
    rw [hword k hk, hbit, Memory.getLsbD_word, decide_eq_true hk, Nat.div_eq_of_lt hk,
      Nat.mod_eq_of_lt hk]
    rfl
  have hlow : tobit ((some (addr.toNat : ℚ)).getD 0) = addr.setWidth 32 := by
    rw [Option.getD_some, tobit_natCast, BitVec.ofNat_toNat]
  have hwide : BitVec.ofInt 64 (truncate ((some (addr.toNat : ℚ)).getD 0)) = addr := by
    rw [Option.getD_some, truncate_natCast, BitVec.ofInt_natCast, BitVec.ofNat_toNat,
      BitVec.setWidth_eq]
  have hnone := Restored.none src dst base offset
  have hall := ((((((hnone.setWhole _ (hbyte ((addr.setWidth 32 &&& 0xff#32).setWidth _)
      (by decide) ?_)).setWhole _
    (hbyte (((addr.setWidth 32 >>> 8) &&& 0xff#32).setWidth _) (by decide) ?_)).setWhole _
    (hbyte (((addr.setWidth 32 >>> 16) &&& 0xff#32).setWidth _) (by decide) ?_)).setWhole _
    (hbyte (((addr.setWidth 32 >>> 24) &&& 0xff#32).setWidth _) (by decide) ?_)).setWhole _
    (hbyte (((addr >>> 32) &&& 0xff#64).setWidth _) (by decide) ?_)).setWhole _
    (hbyte (((addr >>> 40) &&& 0xff#64).setWidth _) (by decide) ?_))
  · simp only [set, hlow, hwide]
    exact hall
  all_goals
    intro k hk
    interval_cases k <;> simp

theorem restored_number :
    Restored src base (wholeBytes offset 6) dst
      (set dst (base + offset) (some (get src (base + offset)))) := by
  apply restored_set
  intro i hi
  rw [BitVec.getLsbD_and, BitVec.getLsbD_setWidth, Memory.getLsbD_word]
  have hmask : (0xffffffffffff#64).getLsbD i = true := by
    interval_cases i <;> rfl
  have hlt : i < 64 := by omega
  simp [hmask, hlt]

theorem set_of_not_mem {mem : Memory} {start : Nat} (addr : Option ℚ) {i : Nat}
    (hout : ¬ (start ≤ i ∧ i < start + 6)) : set mem start addr i = mem i := by
  simp only [set]
  rw [Memory.setWord_of_not_mem _ (by omega), Memory.setWord_of_not_mem _ (by omega),
    Memory.setWord_of_not_mem _ (by omega), Memory.setWord_of_not_mem _ (by omega),
    Memory.setWord_of_not_mem _ (by omega), Memory.setWord_of_not_mem _ (by omega)]

/-- Setting the address that is read elsewhere copies its bytes. -/
theorem set_get_apply (mem src : Memory) (start origin : Nat) {j : Nat} (hj : j < 6) :
    set mem start (some (get src origin)) (start + j) = src (origin + j) := by
  -- the address is restored from a memory that holds it at the same place
  let shifted : Memory := fun i => src (origin + (i - start))
  have hget : get src origin = get shifted (start + 0) := by
    have hword : src.word origin 8 = shifted.word (start + 0) 8 := by
      apply Memory.word_congr
      intro k _
      exact congrArg src (by omega)
    rw [get, hword, get]
  have hrestored : Restored shifted start (wholeBytes 0 6) mem
      (set mem (start + 0) (some (get shifted (start + 0)))) := restored_number
  have hcovered : ∀ k < 8, ∃ part ∈ wholeBytes 0 6, part.offset = j ∧ part.mask.getLsbD k := by
    intro k hk
    refine ⟨⟨0 + j, 0xff#8⟩, List.mem_map.mpr ⟨j, List.mem_range.mpr hj, rfl⟩, Nat.zero_add j, ?_⟩
    interval_cases k <;> simp
  have hcopied := hrestored.eq_of_covered hcovered
  rw [hget]
  exact hcopied.trans (congrArg src (by omega))

/-- The number and the string of an address say the same. -/
theorem get_eq (mem : Memory) (start : Nat) : get mem start = ((mem.word start 6).toNat : ℚ) := by
  have hbits : (mem.word start 8).setWidth 64 &&& 0xffffffffffff#64 =
      (mem.word start 6).setWidth 64 := by
    apply BitVec.eq_of_getLsbD_eq
    intro i hi
    rw [BitVec.getLsbD_and, BitVec.getLsbD_setWidth, BitVec.getLsbD_setWidth, Memory.getLsbD_word,
      Memory.getLsbD_word]
    interval_cases i <;> simp
  rw [get, hbits, BitVec.toNat_setWidth, Nat.mod_eq_of_lt]
  exact (mem.word start 6).isLt.trans (by decide)

/-- Setting the string that is read elsewhere copies the bytes, too. -/
theorem setString_getString (mem src : Memory) (start origin : Nat) :
    setString mem start (getString src origin) = mem.store start (src.load origin 6) := by
  rw [setString, parseMacAddress_getString, ← get_eq]
  funext i
  rw [Memory.store, Memory.length_load]
  split
  next hi =>
    obtain ⟨j, rfl⟩ := Nat.exists_eq_add_of_le hi.1
    rw [set_get_apply mem src start origin (by omega), Nat.add_sub_cancel_left,
      Memory.getD_load src origin (by omega)]
  next hout => exact set_of_not_mem _ hout

theorem restored_string :
    Restored src base (wholeBytes offset 6) dst
      (setString dst (base + offset) (getString src (base + offset))) := by
  rw [setString, parseMacAddress_getString]
  have hnumber : (src.word (base + offset) 6).toNat =
      ((src.word (base + offset) 6).setWidth 64).toNat := by
    rw [BitVec.toNat_setWidth, Nat.mod_eq_of_lt]
    exact (src.word (base + offset) 6).isLt.trans (by decide)
  rw [hnumber]
  apply restored_set
  intro i hi
  have hlt : i < 64 := by omega
  rw [BitVec.getLsbD_setWidth, Memory.getLsbD_word]
  simp [hi, hlt]

end MacAddr

namespace Ip4Addr

variable {src dst : Memory} {base offset : Nat}

/-- Setting an address whose bits are those in the memory. -/
theorem restored_set {ip : ℚ} (hip : bswap (tobit ip) = (src.word (base + offset) 4).setWidth 32) :
    Restored src base (wholeBytes offset 4) dst (set dst (base + offset) ip) := by
  apply Restored.whole
  rw [hip]
  exact BitVec.setWidth_setWidth_of_le _ (by decide)

theorem restored_number :
    Restored src base (wholeBytes offset 4) dst
      (set dst (base + offset) (get src (base + offset))) := by
  apply restored_set
  rw [get, tobit_toInt, bswap_bswap]

/-- Setting the address that is read elsewhere copies its word. -/
theorem set_get (mem src : Memory) (start origin : Nat) :
    set mem start (get src origin) = mem.setWord start (src.word origin 4) := by
  rw [set, get, tobit_toInt, bswap_bswap_setWidth]

/-- The four bytes of a word as the parser puts them together. -/
theorem bswap_bytes (mem : Memory) (start : Nat) :
    bswap ((((tobit (mem start).toNat <<< 8 ||| tobit (mem (start + 1)).toNat) <<< 8 |||
      tobit (mem (start + 2)).toNat) <<< 8) ||| tobit (mem (start + 3)).toNat) =
      (mem.word start 4).setWidth 32 := by
  apply BitVec.eq_of_getLsbD_eq
  intro i hi
  simp only [tobit_natCast, ← UInt8.toNat_toBitVec, BitVec.ofNat_toNat]
  rw [BitVec.getLsbD_setWidth, Memory.getLsbD_word]
  unfold bswap Memory.bit
  interval_cases i <;> simp

theorem parseIP4Address_getString (mem : Memory) (start : Nat) :
    ∃ ip, parseIP4Address (getString mem start) = some ip ∧
      bswap (tobit ip) = (mem.word start 4).setWidth 32 := by
  have hmatch : stringMatch (runsPattern Char.isDigit (· == '.') (mem.load start 4).length)
      (['.'].intercalate ((mem.load start 4).map decimalByte)) =
        some ((mem.load start 4).map decimalByte) :=
    stringMatch_of_writes decimalByte_writes rfl (by decide) _
  rw [Memory.length_load] at hmatch
  rw [parseIP4Address, getString, String.toList_ofList, hmatch, Option.bind_eq_bind,
    Option.bind_some, byteValues_of_writes decimalByte_writes]
  refine ⟨_, rfl, ?_⟩
  rw [← bswap_bytes]
  simp only [List.range', List.map_cons, List.map_nil, List.foldl_cons, List.foldl_nil,
    tobit_toInt]

theorem restored_string :
    ∃ dst', setString dst (base + offset) (getString src (base + offset)) = some dst' ∧
      Restored src base (wholeBytes offset 4) dst dst' := by
  obtain ⟨ip, hparse, hip⟩ := parseIP4Address_getString src (base + offset)
  refine ⟨_, ?_, restored_set hip⟩
  rw [setString, hparse, Option.map_some]

end Ip4Addr

/-- What is documented about `inet_pton` and addresses in the preferred form, eight groups
of up to four hexadecimal digits: each of them becomes a 16-bit word in network order. -/
def ParsesPreferredForm (inetPton : String → Option (List UInt8)) : Prop :=
  ∀ groups : List (List Char), groups.length = 8 →
    (∀ group ∈ groups, group ≠ [] ∧ group.length ≤ 4 ∧ ∀ char ∈ group, isHexDigit char) →
    inetPton (String.ofList ([':'].intercalate groups)) = some (groups.flatMap fun group =>
      [UInt8.ofNat (digitsValue 16 group / 256), UInt8.ofNat (digitsValue 16 group)])

namespace Ip6Addr

variable {src dst : Memory} {base offset : Nat} {inetPton : String → Option (List UInt8)}

theorem digitsValue_group (mem : Memory) (start : Nat) :
    digitsValue 16 (group mem start) = (mem start).toNat * 256 + (mem (start + 1)).toNat := by
  rw [group, digitsValue_append, (hexByte_writes _).value, (hexByte_writes _).value]
  rfl

theorem inetPton_getString (hpton : ParsesPreferredForm inetPton) (mem : Memory) (start : Nat) :
    inetPton (getString mem start) = some (mem.load start 16) := by
  have hgroup : ∀ offset, group mem (start + offset) ≠ [] ∧ (group mem (start + offset)).length ≤ 4 ∧
      ∀ char ∈ group mem (start + offset), isHexDigit char := by
    intro offset
    refine ⟨by simp [group, hexByte], by simp [group, hexByte], ?_⟩
    intro char hchar
    rcases List.mem_append.mp hchar with hfirst | hsecond
    · exact (hexByte_writes _).cls char hfirst
    · exact (hexByte_writes _).cls char hsecond
  have hbytes (offset : Nat) :
      [UInt8.ofNat (digitsValue 16 (group mem (start + offset)) / 256),
        UInt8.ofNat (digitsValue 16 (group mem (start + offset)))] =
        [mem (start + offset), mem (start + (offset + 1))] := by
    have hlow := (mem (start + offset + 1)).toNat_lt
    have hhigh := (mem (start + offset)).toNat_lt
    rw [digitsValue_group, ← Nat.add_assoc]
    refine congrArg₂ (fun high low => [high, low]) ?_ ?_
    · apply UInt8.toNat_inj.mp
      rw [UInt8.toNat_ofNat']
      omega
    · apply UInt8.toNat_inj.mp
      rw [UInt8.toNat_ofNat']
      omega
  have hgroups : ∀ text ∈ [0, 2, 4, 6, 8, 10, 12, 14].map fun offset => group mem (start + offset),
      text ≠ [] ∧ text.length ≤ 4 ∧ ∀ char ∈ text, isHexDigit char := by
    intro text htext
    obtain ⟨offset, _, rfl⟩ := List.mem_map.mp htext
    exact hgroup offset
  rw [getString, hpton _ (by simp) hgroups]
  simp only [List.map_cons, List.map_nil, List.flatMap_cons, List.flatMap_nil, hbytes]
  rfl

/-- The words of an address in a memory, as they are handed around. -/
def wordsAt (mem : Memory) (start : Nat) : List (BitVec 32) :=
  [bswap ((mem.word (start + 12) 4).setWidth 32), bswap ((mem.word (start + 8) 4).setWidth 32),
    bswap ((mem.word (start + 4) 4).setWidth 32), bswap ((mem.word start 4).setWidth 32)]

theorem restored_set :
    Restored src base (wholeBytes offset 16) dst
      (set dst (base + offset) (wordsAt src (base + offset))) := by
  have hswap (start : Nat) := bswap_bswap_setWidth (src.word start 4)
  have hnone := Restored.none src dst base offset
  have hall := (((hnone.setWhole _ (hswap _)).setWhole _ (hswap _)).setWhole _ (hswap _)).setWhole _
    (hswap _)
  exact hall

theorem parseIP6Address_getString (hpton : ParsesPreferredForm inetPton) (mem : Memory)
    (start : Nat) :
    parseIP6Address inetPton (getString mem start) = some (wordsAt mem start) := by
  have hword {offset : Nat} (hoffset : offset + 4 ≤ 16) :
      Memory.word (fun i => (mem.load start 16).getD i 0) offset 4 =
        mem.word (start + offset) 4 := by
    apply Memory.word_congr
    intro j hj
    rw [Memory.getD_load _ _ (by omega), Nat.add_assoc]
  simp only [parseIP6Address, inetPton_getString hpton, Option.bind_eq_bind, Option.bind_some,
    hword (show 12 + 4 ≤ 16 by decide), hword (show 8 + 4 ≤ 16 by decide),
    hword (show 4 + 4 ≤ 16 by decide), hword (show 0 + 4 ≤ 16 by decide)]
  rfl

end Ip6Addr

end Libmoon.Packet
