import Libmoon.Foundation.OnesComplement
import Libmoon.Packet.Fields

/-! # The Internet checksum

`checksum` adds up the words of a header or a segment as the host reads them. It is the
complement of the one's complement sum for every length, so that a checksum stored in what
it was computed over makes it add up to ones. The header of an IPv4 packet is summed up
without its options, an ICMP message over the length it is given.
-/

namespace Libmoon.Packet

open Foundation

/-- `cs = cs + word`, with the carry added to it. -/
def addWord (cs word : Nat) : Nat :=
  if cs + word ≥ 2 ^ 16 then (BitVec.ofNat 32 (cs + word) &&& 0xFFFF).toNat + 1 else cs + word

/-- `checksum`. -/
def checksum (mem : Memory) (data len : Nat) : BitVec 32 :=
  let cs := (List.range (len / 2)).foldl
    (fun cs i => addWord cs (mem.word (data + 2 * i) 2).toNat) 0
  let cs :=
    if len % 2 = 1 then addWord cs (mem.word (data + 2 * (len / 2)) 2 &&& 0xFF).toNat else cs
  ~~~(BitVec.ofNat 32 cs) &&& 0xFFFF

theorem addWord_foldOnes (words : Nat) {word : Nat} (hword : word < 2 ^ 16) :
    addWord (foldOnes words) word = foldOnes (words + word) := by
  have hlt := foldOnes_lt words
  rw [← onesAdd_foldOnes words hword, addWord, onesAdd]
  split
  next hcarry =>
    have hlow : (BitVec.ofNat 32 (foldOnes words + word) &&& 0xFFFF).toNat =
        (foldOnes words + word) % 2 ^ 32 % 2 ^ 16 := Nat.and_two_pow_sub_one_eq_mod _ 16
    rw [hlow, if_neg (by omega)]
    omega
  next hnone => rw [if_pos (by omega)]

theorem foldl_addWord (mem : Memory) (data count : Nat) :
    (List.range count).foldl (fun cs i => addWord cs (mem.word (data + 2 * i) 2).toNat) 0 =
      foldOnes (hostSum (mem.load data (2 * count))) := by
  induction count with
  | zero => rfl
  | succ count ih =>
      rw [List.range_succ, List.foldl_append, ih, List.foldl_cons, List.foldl_nil,
        addWord_foldOnes _ (BitVec.isLt _), Nat.mul_succ, Memory.load_add,
        hostSum_append (by simp), Memory.hostSum_load_two]

/-- Nulling the byte outside of the packet leaves the last one. -/
theorem toNat_last_word (mem : Memory) (start : Nat) :
    (mem.word start 2 &&& 0xFF).toNat = hostSum (mem.load start 1) := by
  have hlow : (mem.word start 2 &&& 0xFF).toNat = (mem.word start 2).toNat % 2 ^ 8 :=
    Nat.and_two_pow_sub_one_eq_mod _ 8
  have hload : mem.load start 1 = [mem start] := rfl
  have hlt := (mem start).toNat_lt
  rw [hlow, ← Memory.hostSum_load_two, Memory.load_two, hload]
  simp only [hostSum]
  omega

/-- The complement of a sum. -/
def complement (sum : Nat) : BitVec (8 * 2) := BitVec.ofNat 16 (0xFFFF - foldOnes sum)

theorem toNat_complement (sum : Nat) : (complement sum).toNat = 0xFFFF - foldOnes sum := by
  rw [complement, BitVec.toNat_ofNat]
  omega

theorem not_and_mask (sum : Nat) :
    ~~~(BitVec.ofNat 32 (foldOnes sum)) &&& 0xFFFF = (complement sum).setWidth 32 := by
  have hlt := foldOnes_lt sum
  have hlow : (~~~(BitVec.ofNat 32 (foldOnes sum)) &&& 0xFFFF).toNat =
      (~~~(BitVec.ofNat 32 (foldOnes sum))).toNat % 2 ^ 16 := Nat.and_two_pow_sub_one_eq_mod _ 16
  apply BitVec.eq_of_toNat_eq
  rw [hlow, BitVec.toNat_not, BitVec.toNat_ofNat, BitVec.toNat_setWidth, toNat_complement]
  omega

/-- `checksum` is the complement of the one's complement sum, for an odd length as well. -/
theorem checksum_eq (mem : Memory) (data len : Nat) :
    checksum mem data len = (complement (hostSum (mem.load data len))).setWidth 32 := by
  rw [← not_and_mask, checksum, foldl_addWord]
  split
  next hodd =>
    have hlen : len = 2 * (len / 2) + 1 := by omega
    have hbyte : (mem.word (data + 2 * (len / 2)) 2 &&& 0xFF).toNat < 2 ^ 16 := BitVec.isLt _
    rw [addWord_foldOnes _ hbyte, toNat_last_word, ← hostSum_append (by simp), ← Memory.load_add,
      ← hlen]
  next heven =>
    have hlen : len = 2 * (len / 2) := by omega
    rw [← hlen]

/-- Storing a checksum: the two swaps cancel. -/
theorem setHton16_checksum (offset : Nat) (default : ℚ) (mem : Memory) (self len : Nat) :
    setHton16 offset default (some (.number (bswap16 (checksum mem self len)).toInt)) mem self =
      some (mem.setWord (self + offset) (complement (hostSum (mem.load self len)))) := by
  have hstored (word : BitVec 16) :
      (bswap16 (tobit (bswap16 (word.setWidth 32)).toInt)).setWidth 16 = word := by
    rw [tobit_toInt, bswap16_bswap16]
  rw [checksum_eq]
  exact congrArg (fun word => some (mem.setWord (self + offset) word)) (hstored _)

/-! ## The bound of the loop -/

/-- The values of `i` in `for i = 0, last do`. -/
def forIndices (last : ℚ) : List ℕ := List.range (last.floor + 1).toNat

/-- `checksum` with the bound and the index as they are computed, for a length that may be
negative. -/
def luaChecksum (mem : Memory) (data : Nat) (len : ℤ) : BitVec 32 :=
  let cs := (forIndices ((len : ℚ) / 2 - 1)).foldl
    (fun cs i => addWord cs (mem.word (data + 2 * i) 2).toNat) 0
  let cs :=
    if len % 2 = 1 then
      addWord cs (mem.word (data + 2 * truncate ((len : ℚ) / 2)).toNat 2 &&& 0xFF).toNat
    else cs
  ~~~(BitVec.ofNat 32 cs) &&& 0xFFFF

theorem mem_forIndices (last : ℚ) (i : ℕ) : i ∈ forIndices last ↔ (i : ℚ) ≤ last := by
  have hfloor : (i : ℤ) ≤ last.floor ↔ ((i : ℤ) : ℚ) ≤ last := Rat.le_floor_iff
  rw [Int.cast_natCast] at hfloor
  rw [forIndices, List.mem_range, ← hfloor]
  omega

theorem floor_half (len : ℤ) : ((len : ℚ) / 2).floor = len / 2 :=
  Rat.floor_intCast_div_natCast len 2

theorem forIndices_half (len : ℕ) : forIndices ((len : ℚ) / 2 - 1) = List.range (len / 2) := by
  have hfloor : ((len : ℚ) / 2 - 1).floor = (len : ℤ) / 2 - 1 := by
    have hhalf := floor_half len
    rw [Int.cast_natCast] at hhalf
    rw [← hhalf]
    exact Int.floor_sub_one ((len : ℚ) / 2)
  rw [forIndices, hfloor]
  congr 1
  omega

theorem truncate_half (len : ℕ) : truncate ((len : ℚ) / 2) = (len / 2 : ℕ) := by
  have hhalf := floor_half len
  rw [Int.cast_natCast] at hhalf
  rw [truncate, if_pos (by positivity), hhalf]
  rfl

theorem luaChecksum_natCast (mem : Memory) (data len : ℕ) :
    luaChecksum mem data len = checksum mem data len := by
  have hodd : (len : ℤ) % 2 = 1 ↔ len % 2 = 1 := by omega
  have haddress : ((data : ℤ) + 2 * ((len / 2 : ℕ) : ℤ)).toNat = data + 2 * (len / 2) := by omega
  simp only [luaChecksum, checksum, Int.cast_natCast, forIndices_half, truncate_half, hodd,
    haddress]

/-! ## Storing a checksum -/

/-- A checksum over zeros in its field makes the sum that of a multiple of ones. -/
theorem hostSum_stored {mem : Memory} {data k len : Nat} (hk : 2 * k + 2 ≤ len)
    (hzero : mem.word (data + 2 * k) 2 = 0) :
    hostSum ((mem.setWord (data + 2 * k) (complement (hostSum (mem.load data len)))).load data
      len) = hostSum (mem.load data len) + (0xFFFF - foldOnes (hostSum (mem.load data len))) := by
  have hexchange := Memory.hostSum_load_setWord mem data hk
    (complement (hostSum (mem.load data len)))
  rw [hzero, toNat_complement] at hexchange
  exact hexchange

theorem foldOnes_add_complement (sum : Nat) : foldOnes (sum + (0xFFFF - foldOnes sum)) = 0xFFFF := by
  have hmod := foldOnes_mod sum
  have hlt := foldOnes_lt sum
  have hzero := foldOnes_eq_zero_iff sum
  rw [foldOnes_eq_max_iff]
  omega

/-- `checksum` is the Internet checksum of every byte string, and a second one over it is 0
once it is stored in a field of zeros. -/
theorem luaChecksum_internet (mem : Memory) (data len : ℕ) :
    (luaChecksum mem data len).toNat = 0xFFFF - onesSum (hostWords (mem.load data len)) ∧
      ∀ k, 2 * k + 2 ≤ len → mem.word (data + 2 * k) 2 = 0 →
        ∃ mem', setHton16 (2 * k) 0
            (some (.number (bswap16 (luaChecksum mem data len)).toInt)) mem data = some mem' ∧
          onesSum (hostWords (mem'.load data len)) = 0xFFFF ∧ luaChecksum mem' data len = 0 := by
  refine ⟨?_, ?_⟩
  · rw [luaChecksum_natCast, checksum_eq, BitVec.toNat_setWidth_of_le (by decide),
      toNat_complement, onesSum_hostWords]
  · intro k hk hzero
    have hones : foldOnes (hostSum ((mem.setWord (data + 2 * k)
        (complement (hostSum (mem.load data len)))).load data len)) = 0xFFFF := by
      rw [hostSum_stored hk hzero, foldOnes_add_complement]
    rw [luaChecksum_natCast]
    refine ⟨_, setHton16_checksum _ _ _ _ _, ?_, ?_⟩
    · rw [onesSum_hostWords, hones]
    · rw [luaChecksum_natCast, checksum_eq, complement, hones]
      rfl

/-- Three bytes behind a field of zeros. -/
def oddBytes : Memory := fun i => ([0, 0, 0xFF, 0xFF, 0x01, 0x99] : List UInt8).getD i 0

theorem luaChecksum_oddBytes : oddBytes.word 0 2 = 0 ∧
    (luaChecksum oddBytes 0 5).toNat = 0xFFFF - onesSum (hostWords (oddBytes.load 0 5)) ∧
    ∃ mem', setHton16 0 0
        (some (.number (bswap16 (luaChecksum oddBytes 0 5)).toInt)) oddBytes 0 = some mem' ∧
      onesSum (hostWords (mem'.load 0 5)) = 0xFFFF ∧ luaChecksum mem' 0 5 = 0 :=
  ⟨by decide, (luaChecksum_internet oddBytes 0 5).1,
    (luaChecksum_internet oddBytes 0 5).2 0 (by decide) (by decide)⟩

/-! ## The header of an IPv4 packet -/

/-- `ip4Header:calculateChecksum`. -/
def Ip4Header.calculateChecksum (mem : Memory) (self : Nat) : Option Memory := do
  let mem ← setChecksum none mem self
  setChecksum (some (.number (bswap16 (luaChecksum mem self 20)).toInt)) mem self

/-- `icmpHeader:calculateChecksum`; a header has four bytes. -/
def IcmpHeader.calculateChecksum (mem : Memory) (self : Nat) (len : Option ℤ) : Option Memory := do
  let len := len.getD 4
  let mem ← setChecksum (some (.number 0)) mem self
  setChecksum (some (.number (bswap16 (luaChecksum mem self len)).toInt)) mem self

/-- The length of a header in words of 32 bits. -/
def ihl (mem : Memory) (self : Nat) : Nat := (mem self).toNat % 16

/-- The options of a header. -/
def options (mem : Memory) (self : Nat) : List UInt8 :=
  mem.load (self + 20) (4 * ihl mem self - 20)

/-- The checksum of a header is right. -/
def HeaderVerifies (mem : Memory) (self : Nat) : Prop :=
  onesSum (networkWords (mem.load self (4 * ihl mem self))) = 0xFFFF

/-- `calculateChecksum` makes the checksum of a header right and leaves the rest as it is. -/
def SetsHeaderChecksum (mem : Memory) (self : Nat) : Prop :=
  ∃ mem', Ip4Header.calculateChecksum mem self = some mem' ∧ HeaderVerifies mem' self ∧
    ∀ i, ¬ (self + 10 ≤ i ∧ i < self + 12) → mem' i = mem i

/-- The memory once a field is cleared and the checksum is stored in it. -/
def withChecksum (offset : Nat) (mem : Memory) (self len : Nat) : Memory :=
  let cleared := mem.setWord (self + offset) (0 : BitVec (8 * 2))
  cleared.setWord (self + offset) (complement (hostSum (cleared.load self len)))

theorem withChecksum_of_not_mem {offset : Nat} {mem : Memory} {self len i : Nat}
    (hout : ¬ (self + offset ≤ i ∧ i < self + offset + 2)) :
    withChecksum offset mem self len i = mem i := by
  rw [withChecksum, Memory.setWord_of_not_mem _ hout, Memory.setWord_of_not_mem _ hout]

/-- What a checksum was computed over adds up to ones. -/
theorem foldOnes_withChecksum {k len : Nat} (hk : 2 * k + 2 ≤ len) (mem : Memory) (self : Nat) :
    foldOnes (hostSum ((withChecksum (2 * k) mem self len).load self len)) = 0xFFFF := by
  rw [withChecksum, hostSum_stored hk (Memory.word_setWord mem _ _), foldOnes_add_complement]

/-- `setChecksum()` and `setChecksum(0)`. -/
theorem setHton16_zero {arg : Option Value} (harg : numberOr 0 arg = some 0) (offset : Nat)
    (mem : Memory) (self : Nat) :
    setHton16 offset 0 arg mem self = some (mem.setWord (self + offset) (0 : BitVec (8 * 2))) := by
  have hword : (bswap16 (tobit 0)).setWidth (8 * 2) = 0 := by
    have hzero : tobit 0 = 0 := tobit_natCast 0
    rw [hzero]
    rfl
  rw [setHton16, setBits, harg, Option.bind_eq_bind, Option.bind_some, hword]

theorem Ip4Header.calculateChecksum_eq (mem : Memory) (self : Nat) :
    calculateChecksum mem self = some (withChecksum 10 mem self 20) := by
  have hcleared : setChecksum none mem self =
      some (mem.setWord (self + 10) (0 : BitVec (8 * 2))) := setHton16_zero rfl 10 mem self
  have hlen : (20 : ℤ) = (20 : ℕ) := rfl
  rw [calculateChecksum, hcleared, Option.bind_eq_bind, Option.bind_some, hlen,
    luaChecksum_natCast]
  exact setHton16_checksum _ _ _ _ _

theorem IcmpHeader.calculateChecksum_eq (mem : Memory) (self len : Nat) :
    calculateChecksum mem self (some len) = some (withChecksum 2 mem self len) := by
  have hcleared : setChecksum (some (.number 0)) mem self =
      some (mem.setWord (self + 2) (0 : BitVec (8 * 2))) := setHton16_zero rfl 2 mem self
  rw [calculateChecksum, Option.getD_some, hcleared, Option.bind_eq_bind, Option.bind_some,
    luaChecksum_natCast]
  exact setHton16_checksum _ _ _ _ _

/-- Whatever the length is, a checksum is written and nothing else. -/
theorem IcmpHeader.calculateChecksum_frame (mem : Memory) (self : Nat) (len : Option ℤ) :
    ∃ mem', calculateChecksum mem self len = some mem' ∧
      ∀ i, ¬ (self + 2 ≤ i ∧ i < self + 4) → mem' i = mem i := by
  have hcleared : setChecksum (some (.number 0)) mem self =
      some (mem.setWord (self + 2) (0 : BitVec (8 * 2))) := setHton16_zero rfl 2 mem self
  rw [calculateChecksum, hcleared, Option.bind_eq_bind, Option.bind_some]
  refine ⟨_, rfl, ?_⟩
  intro i hout
  exact (Memory.setWord_of_not_mem _ hout).trans (Memory.setWord_of_not_mem _ hout)

/-- A sum is a multiple of ones in both orders of the bytes. -/
theorem onesSum_mod_eq_zero_iff (bytes : List UInt8) :
    onesSum (networkWords bytes) % 0xFFFF = 0 ↔ hostSum bytes % 0xFFFF = 0 := by
  obtain ⟨hmod, -⟩ := sum_networkWords bytes
  rw [onesSum_eq (networkWords_lt bytes), foldOnes_mod]
  omega

/-- The checksum of a header is set exactly if its options add nothing to the sum, as if there
were none. -/
theorem setsHeaderChecksum_iff {mem : Memory} {self : Nat} (hihl : 5 ≤ ihl mem self) :
    SetsHeaderChecksum mem self ↔ onesSum (networkWords (options mem self)) % 0xFFFF = 0 := by
  have hframe : ∀ i, ¬ (self + 10 ≤ i ∧ i < self + 12) →
      withChecksum 10 mem self 20 i = mem i := fun i hout => withChecksum_of_not_mem hout
  have hlength : 4 * ihl mem self = 20 + (4 * ihl mem self - 20) := by omega
  have hsame : ihl (withChecksum 10 mem self 20) self = ihl mem self := by
    rw [ihl, hframe self (by omega), ihl]
  have hoptions : (withChecksum 10 mem self 20).load (self + 20) (4 * ihl mem self - 20) =
      options mem self := Memory.load_congr fun i hle _ => hframe i (by omega)
  have hfixed : 0 < hostSum ((withChecksum 10 mem self 20).load self 20) ∧
      hostSum ((withChecksum 10 mem self 20).load self 20) % 0xFFFF = 0 :=
    foldOnes_eq_max_iff.mp (foldOnes_withChecksum (by decide : 2 * 5 + 2 ≤ 20) mem self)
  have hverifies : HeaderVerifies (withChecksum 10 mem self 20) self ↔
      hostSum (options mem self) % 0xFFFF = 0 := by
    rw [HeaderVerifies, hsame, onesSum_eq_max_iff, hlength, Memory.load_add,
      hostSum_append (by simp), hoptions]
    omega
  rw [SetsHeaderChecksum, Ip4Header.calculateChecksum_eq, onesSum_mod_eq_zero_iff, ← hverifies]
  constructor
  · rintro ⟨mem', hset, hright, -⟩
    cases hset
    exact hright
  · intro hright
    exact ⟨_, rfl, hright, hframe⟩

/-- A header with a router alert. -/
def routerAlert : Memory := fun i =>
  ([0x46, 0, 0, 32, 0, 0, 0, 0, 1, 2, 0, 0, 10, 0, 0, 1, 224, 0, 0, 22, 0x94, 4, 0, 0] :
    List UInt8).getD i 0

theorem routerAlert_not_set : ¬ ∀ (mem : Memory) (self : Nat),
    5 ≤ ihl mem self → SetsHeaderChecksum mem self := by
  intro halways
  obtain ⟨mem', hset, hright, -⟩ := halways routerAlert 0 (by decide)
  have hmem : mem' = withChecksum 10 routerAlert 0 20 := by
    rw [Ip4Header.calculateChecksum_eq] at hset
    exact (Option.some.inj hset).symm
  rw [hmem] at hright
  exact absurd hright (by unfold HeaderVerifies; decide)

/-- A header with options that cancel out. -/
def cancellingOptions : Memory := fun i =>
  ([0x46, 0, 0, 32, 0, 0, 0, 0, 1, 2, 0, 0, 10, 0, 0, 1, 224, 0, 0, 22, 0x94, 4, 0x6B, 0xFB] :
    List UInt8).getD i 0

theorem cancellingOptions_set : 5 ≤ ihl cancellingOptions 0 ∧
    SetsHeaderChecksum cancellingOptions 0 :=
  ⟨by decide, (setsHeaderChecksum_iff (by decide)).mpr (by decide)⟩

end Libmoon.Packet
