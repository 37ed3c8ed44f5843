import Libmoon.Foundation.OnesComplement
import Libmoon.Packet.Fields

/-! # Sums of pseudo headers

For the checksum of a segment, two C functions add up the pseudo header of the IP header in
front of it. Words are added in host order throughout; what they are to add up, is said in
network order.
-/

namespace Libmoon.Packet

open Foundation

/-- `lower += upper; if (lower < upper) lower++`. -/
def addCarry {width : Nat} (lower upper : BitVec width) : BitVec width :=
  if lower + upper < upper then lower + upper + BitVec.ofNat width 1 else lower + upper

/-- `rte_bswap16`. -/
def rteBswap16 (word : BitVec 16) : BitVec 16 := (word <<< 8) ||| (word >>> 8)

/-- The length of the payload that `get_ipv4_psd_sum` makes out of the total length, both
in network order. -/
def ipv4PsdLen (len : BitVec 16) : BitVec 16 :=
  if len &&& 0xFF ≠ 0 then rteBswap16 (((rteBswap16 len).setWidth 64 - 20).setWidth 16)
  else ((((len >>> 8).setWidth 64 - 20) <<< 8 : BitVec 64)).setWidth 16

/-- `get_ipv4_psd_sum`; the word with the protocol is a signed integer. -/
def getIpv4PsdSum (mem : Memory) (ipHdr : Nat) : BitVec 16 :=
  let len := ipv4PsdLen (mem.word (ipHdr + 2) 2)
  let nextProtoId : BitVec 32 := (mem (ipHdr + 9)).toBitVec.setWidth 32
  let sum : BitVec 64 := (mem.word (ipHdr + 12) 4).setWidth 64 +
    (mem.word (ipHdr + 16) 4).setWidth 64 +
    ((nextProtoId <<< 24) ||| len.setWidth 32).signExtend 64
  let lower : BitVec 32 := addCarry (sum.setWidth 32) ((sum >>> 32).setWidth 32)
  addCarry (lower.setWidth 16) ((lower >>> 16).setWidth 16)

/-- `calc_ipv4_pseudo_header_checksum`. -/
def calcIpv4PseudoHeaderChecksum (mem : Memory) (data offset : Nat) : Memory :=
  let csum : BitVec (8 * 2) := getIpv4PsdSum mem (data + 14)
  mem.setWord (data + 2 * offset) csum

/-- A turn of the loop in `get_16b_sum`. -/
def sumWord (sum : BitVec 32) (low high : UInt8) : BitVec 32 :=
  let sum := sum + (high.toBitVec ++ low.toBitVec).setWidth 32
  if sum > 0xFFFF then sum - 0xFFFF else sum

/-- The loop of `get_16b_sum` and the odd byte behind it. -/
def sumWords : List UInt8 → BitVec 32 → BitVec 32
  | [], sum => sum
  | [last], sum => sum + last.toBitVec.setWidth 32
  | low :: high :: rest, sum => sumWords rest (sumWord sum low high)

/-- `get_16b_sum`. -/
def get16bSum (bytes : List UInt8) : BitVec 16 :=
  let sum := sumWords bytes 0
  (((sum &&& 0xFFFF0000) >>> 16) + (sum &&& 0xFFFF)).setWidth 16

/-- `get_ipv6_psd_sum`; length and protocol fill the lower half and the last byte of words
of 32 bits. -/
def getIpv6PsdSum (mem : Memory) (ipHdr : Nat) : BitVec 16 :=
  get16bSum (mem.load (ipHdr + 8) 32 ++ mem.load (ipHdr + 4) 2 ++
    [0, 0, 0, 0, 0, mem (ipHdr + 6)])

/-- `calc_ipv6_pseudo_header_checksum`. -/
def calcIpv6PseudoHeaderChecksum (mem : Memory) (data offset : Nat) : Memory :=
  let csum : BitVec (8 * 2) := getIpv6PsdSum mem (data + 14)
  mem.setWord (data + 2 * offset) csum

/-! ## Words in network order -/

/-- A field of 16 bits in network order. -/
def netWord (mem : Memory) (start : Nat) : Nat :=
  2 ^ 8 * (mem start).toNat + (mem (start + 1)).toNat

/-- The bytes of a word in network order. -/
def be16 (word : Nat) : List UInt8 := [UInt8.ofNat (word / 2 ^ 8), UInt8.ofNat word]

/-! ## What the C functions add up -/

theorem hostSum_be16 {word : Nat} (hword : word < 2 ^ 16) : hostSum (be16 word) = swap16 word := by
  simp only [be16, hostSum, UInt8.toNat_ofNat', swap16]
  omega

theorem toNat_addCarry {width : Nat} (lower upper : BitVec width) :
    (addCarry lower upper).toNat = if lower.toNat + upper.toNat < 2 ^ width then
      lower.toNat + upper.toNat else lower.toNat + upper.toNat + 1 - 2 ^ width := by
  have hlower := lower.isLt
  have hupper := upper.isLt
  unfold addCarry
  by_cases hsum : lower.toNat + upper.toNat < 2 ^ width
  · have hadd : (lower + upper).toNat = lower.toNat + upper.toNat := by
      rw [BitVec.toNat_add, Nat.mod_eq_of_lt hsum]
    rw [if_neg (by rw [BitVec.lt_def]; omega), if_pos hsum, hadd]
  · have hadd : (lower + upper).toNat = lower.toNat + upper.toNat - 2 ^ width := by
      rw [BitVec.toNat_add, Nat.mod_eq_sub_mod (by omega), Nat.mod_eq_of_lt (by omega)]
    rw [if_pos (by rw [BitVec.lt_def]; omega), if_neg hsum, BitVec.toNat_add, hadd,
      BitVec.toNat_ofNat, Nat.mod_eq_of_lt (by omega : 1 < 2 ^ width),
      Nat.mod_eq_of_lt (by omega)]
    omega

/-- The words of 32 bits that are added become the sum of their halves. -/
theorem toNat_addCarry_halves {sum : BitVec 64} {words : Nat} (hsum : sum.toNat < 2 ^ 34)
    (hmod : words % 0xFFFF = sum.toNat % 0xFFFF) (hzero : words = 0 ↔ sum.toNat = 0)
    {lower : BitVec 32}
    (hlower : lower = addCarry (sum.setWidth 32) ((sum >>> 32).setWidth 32)) :
    (addCarry (lower.setWidth 16) ((lower >>> 16).setWidth 16)).toNat = foldOnes words := by
  have hfirst : lower.toNat = if sum.toNat % 2 ^ 32 + sum.toNat / 2 ^ 32 < 2 ^ 32 then
      sum.toNat % 2 ^ 32 + sum.toNat / 2 ^ 32
      else sum.toNat % 2 ^ 32 + sum.toNat / 2 ^ 32 + 1 - 2 ^ 32 := by
    have hhigh : sum.toNat / 2 ^ 32 < 2 ^ 32 := by omega
    rw [hlower, toNat_addCarry, BitVec.toNat_setWidth, BitVec.toNat_setWidth,
      BitVec.toNat_ushiftRight, Nat.shiftRight_eq_div_pow, Nat.mod_eq_of_lt hhigh]
  have hlt := lower.isLt
  have hhigh : lower.toNat / 2 ^ 16 < 2 ^ 16 := by omega
  have hlowerMod : lower.toNat % 0xFFFF = sum.toNat % 0xFFFF := by
    rw [hfirst]
    split <;> omega
  have hlowerZero : lower.toNat = 0 ↔ sum.toNat = 0 := by
    rw [hfirst]
    split <;> omega
  rw [toNat_addCarry, BitVec.toNat_setWidth, BitVec.toNat_setWidth, BitVec.toNat_ushiftRight,
    Nat.shiftRight_eq_div_pow, Nat.mod_eq_of_lt hhigh]
  apply eq_foldOnes
  · split <;> omega
  · split <;> omega
  · split <;> omega

theorem toNat_rteBswap16 (word : BitVec 16) : (rteBswap16 word).toNat = swap16 word.toNat := by
  have hword := word.isLt
  have hlow : (word.toNat <<< 8) % 2 ^ 16 = (word.toNat % 2 ^ 8) <<< 8 := by
    rw [Nat.shiftLeft_eq, Nat.shiftLeft_eq]
    omega
  have hhigh : word.toNat / 2 ^ 8 < 2 ^ 8 := by omega
  rw [rteBswap16, BitVec.toNat_or, BitVec.toNat_shiftLeft, BitVec.toNat_ushiftRight, hlow,
    Nat.shiftRight_eq_div_pow, ← Nat.shiftLeft_add_eq_or_of_lt hhigh, Nat.shiftLeft_eq, swap16]
  omega

theorem toNat_minus_header {length : BitVec 16} (hlength : 20 ≤ length.toNat) :
    (length.setWidth 64 - 20).toNat = length.toNat - 20 := by
  have hwide : (length.setWidth 64).toNat = length.toNat :=
    BitVec.toNat_setWidth_of_le (by decide)
  rw [BitVec.toNat_sub_of_le (by rw [BitVec.le_def, hwide]; exact hlength), hwide]
  rfl

/-- The byte-swap path of `get_ipv4_psd_sum`. -/
def psdLenBySwap (len : BitVec 16) : BitVec 16 :=
  rteBswap16 (((rteBswap16 len).setWidth 64 - 20).setWidth 16)

/-- The shift path of `get_ipv4_psd_sum`. -/
def psdLenByShift (len : BitVec 16) : BitVec 16 :=
  (((len >>> 8).setWidth 64 - 20) <<< 8 : BitVec 64).setWidth 16

theorem ipv4PsdLen_eq (len : BitVec 16) :
    ipv4PsdLen len = if len &&& 0xFF ≠ 0 then psdLenBySwap len else psdLenByShift len := rfl

theorem toNat_psdLenBySwap {len : BitVec 16} (hlen : 20 ≤ swap16 len.toNat) :
    (psdLenBySwap len).toNat = swap16 (swap16 len.toNat - 20) := by
  have hswap := swap16_lt len.isLt
  rw [← toNat_rteBswap16] at hlen hswap ⊢
  rw [psdLenBySwap, toNat_rteBswap16, BitVec.toNat_setWidth, toNat_minus_header hlen,
    Nat.mod_eq_of_lt (by omega)]

/-- A length that fits into a byte is in the upper one of the word. -/
theorem toNat_psdLenByShift {len : BitVec 16} (hlen : 20 ≤ swap16 len.toNat)
    (hshort : len &&& 0xFF = 0) :
    (psdLenByShift len).toNat = swap16 (swap16 len.toNat - 20) := by
  have hlt := len.isLt
  have hlow : len.toNat % 2 ^ 8 = 0 := by
    rw [← Nat.and_two_pow_sub_one_eq_mod]
    exact congrArg BitVec.toNat hshort
  have hhigh : (len >>> 8).toNat = swap16 len.toNat := by
    rw [BitVec.toNat_ushiftRight, Nat.shiftRight_eq_div_pow, swap16, hlow]
    rfl
  have hbyte : swap16 len.toNat < 2 ^ 8 := by
    unfold swap16
    omega
  rw [← hhigh] at hlen hbyte ⊢
  rw [psdLenByShift, BitVec.toNat_setWidth, BitVec.toNat_shiftLeft, toNat_minus_header hlen,
    Nat.shiftLeft_eq]
  unfold swap16
  omega

/-- Whichever way it is computed, the length of the payload is right. -/
theorem toNat_ipv4PsdLen {len : BitVec 16} (hlen : 20 ≤ swap16 len.toNat) :
    (ipv4PsdLen len).toNat = swap16 (swap16 len.toNat - 20) := by
  rw [ipv4PsdLen_eq]
  split
  next => exact toNat_psdLenBySwap hlen
  next hshort => exact toNat_psdLenByShift hlen (not_not.mp hshort)

/-- The word with a protocol below 128 is positive, so that it is not extended by ones. -/
theorem toNat_protoWord {proto : BitVec 32} (hproto : proto.toNat < 2 ^ 7) (len : BitVec 16) :
    ((proto <<< 24 ||| len.setWidth 32).signExtend 64).toNat =
      proto.toNat * 2 ^ 24 + len.toNat := by
  have hlen := len.isLt
  have hnarrow : (proto <<< 24 ||| len.setWidth 32).toNat = proto.toNat * 2 ^ 24 + len.toNat := by
    rw [BitVec.toNat_or, BitVec.toNat_setWidth_of_le (by decide), BitVec.toNat_shiftLeft,
      Nat.mod_eq_of_lt (by rw [Nat.shiftLeft_eq]; omega),
      ← Nat.shiftLeft_add_eq_or_of_lt (by omega : len.toNat < 2 ^ 24), Nat.shiftLeft_eq]
  have hmsb : (proto <<< 24 ||| len.setWidth 32).msb = false := by
    rw [BitVec.msb_eq_false_iff_two_mul_lt, hnarrow]
    omega
  rw [BitVec.signExtend_eq_setWidth_of_msb_false hmsb, BitVec.toNat_setWidth_of_le (by decide),
    hnarrow]

theorem toNat_pair (low high : UInt8) :
    ((high.toBitVec ++ low.toBitVec).setWidth 32).toNat = low.toNat + 2 ^ 8 * high.toNat := by
  have hlow := low.toNat_lt
  have hhigh := high.toNat_lt
  rw [BitVec.toNat_setWidth, BitVec.toNat_append,
    ← Nat.shiftLeft_add_eq_or_of_lt low.toBitVec.isLt, Nat.shiftLeft_eq, UInt8.toNat_toBitVec,
    UInt8.toNat_toBitVec]
  omega

theorem toNat_sumWord {sum : BitVec 32} {words : Nat} (hsum : sum.toNat = foldOnes words)
    (low high : UInt8) :
    (sumWord sum low high).toNat = foldOnes (words + (low.toNat + 2 ^ 8 * high.toNat)) := by
  have hlow := low.toNat_lt
  have hhigh := high.toNat_lt
  have hlt := foldOnes_lt words
  have hadd : (sum + (high.toBitVec ++ low.toBitVec).setWidth 32).toNat =
      foldOnes words + (low.toNat + 2 ^ 8 * high.toNat) := by
    rw [BitVec.toNat_add, toNat_pair, hsum]
    omega
  have hmax : (0xFFFF : BitVec 32).toNat = 0xFFFF := rfl
  rw [← onesAdd_foldOnes words (by omega), sumWord, onesAdd]
  split
  next hcarry =>
    rw [gt_iff_lt, BitVec.lt_def, hmax, hadd] at hcarry
    rw [BitVec.toNat_sub_of_le (by rw [BitVec.le_def]; omega), hadd, hmax, if_neg (by omega)]
  next hnone =>
    rw [gt_iff_lt, BitVec.lt_def, hmax, hadd] at hnone
    rw [hadd, if_pos (by omega)]

/-- The loop leaves a sum whose halves are still to be added. -/
theorem halves_sumWords (bytes : List UInt8) {sum : BitVec 32} {words : Nat}
    (hsum : sum.toNat = foldOnes words) :
    (sumWords bytes sum).toNat / 2 ^ 16 + (sumWords bytes sum).toNat % 2 ^ 16 =
      foldOnes (words + hostSum bytes) := by
  fun_induction sumWords bytes sum generalizing words with
  | case1 sum =>
      have hlt := foldOnes_lt words
      rw [hsum, hostSum, Nat.add_zero]
      omega
  | case2 last sum =>
      have hlt := foldOnes_lt words
      have hlast := last.toNat_lt
      have hadd : (sum + last.toBitVec.setWidth 32).toNat = foldOnes words + last.toNat := by
        rw [BitVec.toNat_add, BitVec.toNat_setWidth, hsum, UInt8.toNat_toBitVec]
        omega
      rw [hadd, hostSum, ← onesAdd_foldOnes words (by omega), onesAdd]
      split <;> omega
  | case3 low high rest sum ih =>
      rw [hostSum, ← Nat.add_assoc]
      exact ih (toNat_sumWord hsum low high)

/-- `get_16b_sum` is the one's complement sum. -/
theorem toNat_get16bSum (bytes : List UInt8) :
    (get16bSum bytes).toNat = foldOnes (hostSum bytes) := by
  have hhalves := @halves_sumWords bytes 0 0 rfl
  have hlt := foldOnes_lt (hostSum bytes)
  rw [Nat.zero_add] at hhalves
  have hhigh : ((sumWords bytes 0 &&& 0xFFFF0000) >>> 16).toNat =
      (sumWords bytes 0).toNat / 2 ^ 16 := by
    have hmask : (0xFFFF0000 : BitVec 32).toNat >>> 16 = 2 ^ 16 - 1 := rfl
    rw [BitVec.toNat_ushiftRight, BitVec.toNat_and, Nat.shiftRight_and_distrib, hmask,
      Nat.and_two_pow_sub_one_eq_mod, Nat.shiftRight_eq_div_pow]
    omega
  have hlow : (sumWords bytes 0 &&& 0xFFFF).toNat = (sumWords bytes 0).toNat % 2 ^ 16 :=
    Nat.and_two_pow_sub_one_eq_mod _ 16
  rw [get16bSum, BitVec.toNat_setWidth, BitVec.toNat_add, hhigh, hlow, hhalves]
  omega

theorem netWord_eq (mem : Memory) (start : Nat) :
    netWord mem start = swap16 (mem.word start 2).toNat := by
  have h0 := (mem start).toNat_lt
  have h1 := (mem (start + 1)).toNat_lt
  rw [← Memory.hostSum_load_two, Memory.load_two]
  simp only [hostSum, netWord, swap16]
  omega

/-- A field of 16 bits is stored as it is in network order. -/
theorem be16_netWord (mem : Memory) (start : Nat) :
    be16 (netWord mem start) = mem.load start 2 := by
  have h0 := (mem start).toNat_lt
  have h1 := (mem (start + 1)).toNat_lt
  have hhigh : UInt8.ofNat (netWord mem start / 2 ^ 8) = mem start := by
    rw [← UInt8.toNat_inj, UInt8.toNat_ofNat', netWord]
    omega
  have hlow : UInt8.ofNat (netWord mem start) = mem (start + 1) := by
    rw [← UInt8.toNat_inj, UInt8.toNat_ofNat', netWord]
    omega
  rw [be16, hhigh, hlow, Memory.load_two]

theorem netWord_lt (mem : Memory) (start : Nat) : netWord mem start < 2 ^ 16 := by
  have h0 := (mem start).toNat_lt
  have h1 := (mem (start + 1)).toNat_lt
  unfold netWord
  omega

/-! ## The sums of both pseudo headers -/

/-- The pseudo header for the payload of an IPv4 header without options. -/
def ipv4Psd (mem : Memory) (ipHdr : Nat) : List UInt8 :=
  mem.load (ipHdr + 12) 8 ++ ([0, mem (ipHdr + 9)] ++ be16 (netWord mem (ipHdr + 2) - 20))

/-- The pseudo header for the payload of an IPv6 header. -/
def ipv6Psd (mem : Memory) (ipHdr : Nat) : List UInt8 :=
  mem.load (ipHdr + 8) 32 ++ ([0, 0] ++ mem.load (ipHdr + 4) 2 ++ [0, 0, 0, mem (ipHdr + 6)])

theorem hostSum_ipv4Psd (mem : Memory) (ipHdr : Nat) :
    hostSum (ipv4Psd mem ipHdr) =
      (mem.word (ipHdr + 12) 4).toNat % 2 ^ 16 + (mem.word (ipHdr + 12) 4).toNat / 2 ^ 16 +
      ((mem.word (ipHdr + 16) 4).toNat % 2 ^ 16 + (mem.word (ipHdr + 16) 4).toNat / 2 ^ 16) +
      ((mem (ipHdr + 9)).toNat * 2 ^ 8 + swap16 (netWord mem (ipHdr + 2) - 20)) := by
  have hlt := netWord_lt mem (ipHdr + 2)
  have hproto : hostSum [0, mem (ipHdr + 9)] = (mem (ipHdr + 9)).toNat * 2 ^ 8 := by
    simp only [hostSum, UInt8.toNat_zero]
    omega
  rw [ipv4Psd, hostSum_append (by simp), hostSum_append (by simp), hostSum_be16 (by omega),
    Memory.load_add _ _ 4 4, hostSum_append (by simp), Memory.hostSum_load_four,
    Memory.hostSum_load_four, hproto]

/-- The words of 32 bits that `get_ipv4_psd_sum` adds do not overflow. -/
theorem toNat_getIpv4PsdSum {mem : Memory} {ipHdr : Nat}
    (hproto : (mem (ipHdr + 9)).toNat < 2 ^ 7) (hlen : 20 ≤ netWord mem (ipHdr + 2)) :
    (getIpv4PsdSum mem ipHdr).toNat = foldOnes (hostSum (ipv4Psd mem ipHdr)) := by
  have hpsdLen : (ipv4PsdLen (mem.word (ipHdr + 2) 2)).toNat =
      swap16 (netWord mem (ipHdr + 2) - 20) := by
    rw [netWord_eq] at hlen ⊢
    exact toNat_ipv4PsdLen hlen
  have hsmall : swap16 (netWord mem (ipHdr + 2) - 20) < 2 ^ 16 :=
    swap16_lt (lt_of_le_of_lt (Nat.sub_le _ _) (netWord_lt mem (ipHdr + 2)))
  have hsrc := (mem.word (ipHdr + 12) 4).isLt
  have hdst := (mem.word (ipHdr + 16) 4).isLt
  have hid : ((mem (ipHdr + 9)).toBitVec.setWidth 32).toNat = (mem (ipHdr + 9)).toNat :=
    BitVec.toNat_setWidth_of_le (by decide)
  have hsum : ((mem.word (ipHdr + 12) 4).setWidth 64 + (mem.word (ipHdr + 16) 4).setWidth 64 +
      ((mem (ipHdr + 9)).toBitVec.setWidth 32 <<< 24 |||
        (ipv4PsdLen (mem.word (ipHdr + 2) 2)).setWidth 32).signExtend 64).toNat =
        (mem.word (ipHdr + 12) 4).toNat + (mem.word (ipHdr + 16) 4).toNat +
          ((mem (ipHdr + 9)).toNat * 2 ^ 24 + swap16 (netWord mem (ipHdr + 2) - 20)) := by
    rw [BitVec.toNat_add, BitVec.toNat_add, toNat_protoWord (by rw [hid]; exact hproto), hpsdLen,
      hid, BitVec.toNat_setWidth_of_le (by decide), BitVec.toNat_setWidth_of_le (by decide)]
    omega
  have hpsd := hostSum_ipv4Psd mem ipHdr
  apply toNat_addCarry_halves _ _ _ rfl
  · rw [hsum]
    omega
  · rw [hpsd, hsum]
    omega
  · rw [hpsd, hsum]
    omega

/-- The words of `get_ipv6_psd_sum` stand in another order than in the pseudo header. -/
theorem toNat_getIpv6PsdSum (mem : Memory) (ipHdr : Nat) :
    (getIpv6PsdSum mem ipHdr).toNat = foldOnes (hostSum (ipv6Psd mem ipHdr)) := by
  have hzeros : hostSum [0, 0] = 0 := rfl
  have hwords : hostSum [0, 0, 0, 0, 0, mem (ipHdr + 6)] = hostSum [0, 0, 0, mem (ipHdr + 6)] := by
    simp only [hostSum, UInt8.toNat_zero]
    omega
  rw [getIpv6PsdSum, toNat_get16bSum, ipv6Psd, hostSum_append (by simp), hostSum_append (by simp),
    hwords, hostSum_append (by simp), hostSum_append (by simp), hostSum_append (by simp), hzeros,
    Nat.zero_add, Nat.add_assoc]

/-- `get_ipv4_psd_sum` adds up the pseudo header of TCP and UDP, and the paths of its length
agree where both can be taken. -/
theorem getIpv4PsdSum_foldedSum {mem : Memory} {ipHdr : Nat}
    (hlen : 20 ≤ netWord mem (ipHdr + 2))
    (hproto : mem (ipHdr + 9) = 6 ∨ mem (ipHdr + 9) = 17) :
    FoldedSum (getIpv4PsdSum mem ipHdr).toNat (ipv4Psd mem ipHdr) ∧
      ∀ len : BitVec 16, 20 ≤ swap16 len.toNat →
        (psdLenBySwap len).toNat = swap16 (swap16 len.toNat - 20) ∧
        (len &&& 0xFF = 0 → (psdLenByShift len).toNat = swap16 (swap16 len.toNat - 20)) := by
  have hsmall : (mem (ipHdr + 9)).toNat < 2 ^ 7 := by
    rcases hproto with hproto | hproto
    · rw [hproto]
      decide
    · rw [hproto]
      decide
  refine ⟨.of_eq (toNat_getIpv4PsdSum hsmall hlen), ?_⟩
  intro len hle
  exact ⟨toNat_psdLenBySwap hle, toNat_psdLenByShift hle⟩

/-- The header of a datagram of 300 bytes from 192.168.255.255 to 255.255.0.1. -/
def udpHeader : Memory := fun i =>
  ([0x45, 0, 1, 44, 0, 0, 0, 0, 64, 17, 0, 0, 192, 168, 255, 255, 255, 255, 0, 1] :
    List UInt8).getD i 0

theorem getIpv4PsdSum_udpHeader : 20 ≤ netWord udpHeader 2 ∧ udpHeader 9 = 17 ∧
    FoldedSum (getIpv4PsdSum udpHeader 0).toNat (ipv4Psd udpHeader 0) :=
  ⟨by decide, by decide, (getIpv4PsdSum_foldedSum (by decide) (by decide)).1⟩

/-- `get_ipv6_psd_sum` adds up the pseudo header for every protocol, and `get_16b_sum` adds up
every buffer. -/
theorem getIpv6PsdSum_foldedSum (mem : Memory) (ipHdr : Nat) (bytes : List UInt8) :
    FoldedSum (getIpv6PsdSum mem ipHdr).toNat (ipv6Psd mem ipHdr) ∧
      FoldedSum (get16bSum bytes).toNat bytes :=
  ⟨.of_eq (toNat_getIpv6PsdSum mem ipHdr), .of_eq (toNat_get16bSum bytes)⟩

end Libmoon.Packet
