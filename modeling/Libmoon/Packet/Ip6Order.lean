import Libmoon.Foundation.DigitOrder
import Libmoon.Packet.Ip6Arithmetic

/-! # The order of IPv6 addresses

`ip6Addr.__lt` swaps both halves of its operands, which are in host byte order already. It
compares the numbers of the addresses with their bytes in the reverse order.
-/

namespace Libmoon.Packet

open Foundation

namespace Ip6Addr

/-- `ip6Addr:__lt`. -/
def lt (self other : Ip6Address) : Bool :=
  let selfLow := bswap64 self.uint64₁
  let selfHigh := bswap64 self.uint64₀
  let otherLow := bswap64 other.uint64₁
  let otherHigh := bswap64 other.uint64₀
  if otherHigh = selfHigh then selfLow.toNat < otherLow.toNat
  else selfHigh.toNat < otherHigh.toNat

/-- `while addr < last do addr = addr + 1 end`: the addresses that are visited, if the loop
ends after as many turns as there is fuel. -/
def visited (last : Ip6Address) : ℕ → Ip6Address → Option (List Ip6Address)
  | 0, _ => none
  | fuel + 1, addr =>
      if lt addr last then do
        let next ← add (.address addr) (.number 1)
        let rest ← visited last fuel next
        some (addr :: rest)
      else some []

/-! ## The comparison -/

/-- The bytes of an address in a memory. -/
theorem exists_words (addr : Ip6Address) :
    ∃ mem : Memory, addr = ⟨mem.word 0 8, mem.word (0 + 8) 8⟩ := by
  obtain ⟨low, high⟩ := addr
  let blank : Memory := fun _ => 0
  refine ⟨@Memory.setWord (@Memory.setWord blank 8 8 high) 0 8 low, ?_⟩
  rw [Memory.word_setWord, Memory.word_setWord_of_disjoint _ (by omega), Memory.word_setWord]

theorem reversed_number (addr : Ip6Address) :
    reversed 256 16 addr.number =
      (bswap64 addr.uint64₀).toNat * 2 ^ 64 + (bswap64 addr.uint64₁).toNat := by
  obtain ⟨mem, rfl⟩ := exists_words addr
  have hnumber : (⟨mem.word 0 8, mem.word (0 + 8) 8⟩ : Ip6Address).number =
      Nat.ofDigits 256 ((mem.load 0 16).map UInt8.toNat) := by
    rw [mem.load_add 0 8 8, List.map_append, Nat.ofDigits_append, ← Memory.toNat_word,
      ← Memory.toNat_word, List.length_map, Memory.length_load, Ip6Address.number]
    ring
  have hdigits : ∀ digit ∈ (mem.load 0 16).map UInt8.toNat, digit < 256 := by
    intro digit hdigit
    obtain ⟨byte, _, rfl⟩ := List.mem_map.mp hdigit
    exact byte.toNat_lt
  have hreversed := reversed_ofDigits hdigits
  rw [List.length_map, Memory.length_load, ← List.map_reverse, ← fromBigEndian_eq_ofDigits,
    mem.load_add 0 8 8, fromBigEndian_append, ← mem.load_add 0 8 8, Memory.length_load] at hreversed
  rw [hnumber, hreversed, Memory.toNat_bswap64_word, Memory.toNat_bswap64_word]

/-- Addresses are compared as if the first byte were the highest one. -/
theorem lt_iff_reversed (self other : Ip6Address) :
    lt self other ↔ reversed 256 16 self.number < reversed 256 16 other.number := by
  have hself := (bswap64 self.uint64₁).isLt
  have hother := (bswap64 other.uint64₁).isLt
  have hsame : bswap64 other.uint64₀ = bswap64 self.uint64₀ ↔
      (bswap64 other.uint64₀).toNat = (bswap64 self.uint64₀).toNat := BitVec.toNat_inj.symm
  rw [reversed_number, reversed_number, lt]
  simp only [hsame]
  split <;> simp only [decide_eq_true_eq] <;> omega

theorem lt_irrefl (addr : Ip6Address) : ¬ lt addr addr := by
  rw [lt_iff_reversed]
  exact Nat.lt_irrefl _

theorem lt_agrees_iff (self other : Ip6Address) :
    (lt self other ↔ self.number < other.number) ↔
      EndsAgree 256 16 self.number other.number := by
  rw [lt_iff_reversed]
  exact reversed_lt_agrees_iff (by decide) self.number_lt other.number_lt

/-- A positive number is added exactly. -/
theorem number_add {self sum : Ip6Address} {val : BitVec 64} (hval : 0 ≤ val.toInt)
    (hfits : self.number + val.toNat < 2 ^ 128)
    (hsum : add (.address self) (.number val) = some sum) :
    sum.number = self.number + val.toNat := by
  obtain ⟨sum', hsum', hnumber⟩ :=
    (isSum_add_iff self val).mpr (Ip6Address.addsExactly_of_nonneg _ hval)
  obtain rfl := Option.some.inj (hsum.symm.trans hsum')
  rcases Ip6Address.toInt_cases val with hcase | hcase <;> omega

/-- The lowest byte of a number that is not 0. -/
theorem exists_lowest_byte {n : ℕ} (hpos : 0 < n) (hlt : n < 256 ^ 8) :
    ∃ i < 8, n % 256 ^ i = 0 ∧ n / 256 ^ i % 256 ≠ 0 := by
  obtain ⟨i, hi, hbelow, hdiffer⟩ := exists_lowest hlt (Nat.zero_lt_of_lt hlt) hpos.ne'
  exact ⟨i, hi, by simpa using hbelow, by simpa using hdiffer⟩

/-- An address is less than a greater one exactly if the lowest byte of the difference that is
not 0 is added without a carry. -/
theorem lt_add_iff {self sum : Ip6Address} {val : BitVec 64} (hval : 0 < val.toInt)
    (hfits : self.number + val.toNat < 2 ^ 128)
    (hsum : add (.address self) (.number val) = some sum) :
    lt self sum ↔ ∃ i < 8, val.toNat % 256 ^ i = 0 ∧ val.toNat / 256 ^ i % 256 ≠ 0 ∧
      self.number / 256 ^ i % 256 + val.toNat / 256 ^ i % 256 < 256 := by
  have hnumber := number_add hval.le hfits hsum
  have hpos : 0 < val.toNat := by
    rcases Ip6Address.toInt_cases val with hcase | hcase <;> omega
  rw [lt_iff_reversed, hnumber]
  constructor
  · intro hlt
    obtain ⟨i, hi, hzero, hbyte⟩ := exists_lowest_byte hpos val.isLt
    refine ⟨i, hi, hzero, hbyte, ?_⟩
    exact (reversed_lt_add_iff (by decide) (by omega) hzero hbyte).mp hlt
  · rintro ⟨i, hi, hzero, hbyte, hcarry⟩
    exact (reversed_lt_add_iff (by decide) (by omega) hzero hbyte).mpr hcarry

/-! ## The loop -/

theorem lt_of_mem_visited {last : Ip6Address} {fuel : ℕ} {addr : Ip6Address}
    {addrs : List Ip6Address} (hvisited : visited last fuel addr = some addrs) :
    ∀ turn ∈ addrs, lt turn last := by
  induction fuel generalizing addr addrs with
  | zero => cases hvisited
  | succ fuel ih =>
      rw [visited] at hvisited
      split at hvisited
      next hlt =>
        obtain ⟨next, -, hturns⟩ := Option.bind_eq_some_iff.mp hvisited
        obtain ⟨rest, hrest, hcons⟩ := Option.bind_eq_some_iff.mp hturns
        obtain rfl := Option.some.inj hcons
        intro turn hturn
        rcases List.mem_cons.mp hturn with rfl | hmem
        · exact hlt
        · exact ih hrest turn hmem
      next =>
        obtain rfl := Option.some.inj hvisited
        exact fun _ hmem => absurd hmem List.not_mem_nil

/-- The loop goes through all addresses up to the last one if it does not end before. -/
theorem visited_of_forall_lt {last : Ip6Address} (distance : ℕ) {addr : Ip6Address}
    (hdistance : addr.number + distance = last.number)
    (hall : ∀ x, addr.number ≤ x → x < last.number →
      reversed 256 16 x < reversed 256 16 last.number) :
    ∃ addrs, visited last (distance + 1) addr = some addrs ∧
      addrs.map Ip6Address.number = List.range' addr.number distance := by
  induction distance generalizing addr with
  | zero =>
      obtain rfl : addr = last := Ip6Address.number_inj ((Nat.add_zero _).symm.trans hdistance)
      exact ⟨[], if_neg (lt_irrefl addr), rfl⟩
  | succ distance ih =>
      have hlt : lt addr last :=
        (lt_iff_reversed addr last).mpr (hall addr.number (Nat.le_refl _) (by omega))
      have hlast := last.number_lt
      obtain ⟨next, hnext⟩ : ∃ next, add (.address addr) (.number 1) = some next := ⟨_, rfl⟩
      have hone : (1 : BitVec 64).toNat = 1 := rfl
      have hnumber : next.number = addr.number + 1 :=
        number_add (by decide) (by rw [hone]; omega) hnext
      have hdistance' : next.number + distance = last.number := by omega
      obtain ⟨rest, hrest, hnumbers⟩ := ih hdistance' fun x hfrom hto => hall x (by omega) hto
      refine ⟨addr :: rest, ?_, ?_⟩
      · rw [visited, if_pos hlt, hnext, Option.bind_eq_bind, Option.bind_some, hrest]
        rfl
      · rw [List.map_cons, hnumbers, hnumber, List.range'_succ]

/-- The loop goes through the addresses in front of the last one and no others. -/
def VisitsUpTo (addr last : Ip6Address) : Prop :=
  ∃ fuel addrs, visited last fuel addr = some addrs ∧
    addrs.map Ip6Address.number = List.range' addr.number (last.number - addr.number)

theorem visitsUpTo_iff (addr last : Ip6Address) :
    VisitsUpTo addr last ↔
      EndsAgree 256 16 addr.number last.number ∧
        (addr.number ≤ last.number →
          addr.number / 256 ^ (trailing 256 16 last.number + 1) =
            last.number / 256 ^ (trailing 256 16 last.number + 1)) := by
  have hlast : last.number < 256 ^ 16 := last.number_lt
  rw [← lt_agrees_iff]
  constructor
  · rintro ⟨fuel, addrs, hvisited, hnumbers⟩
    have hall : ∀ x, addr.number ≤ x → x < last.number →
        reversed 256 16 x < reversed 256 16 last.number := by
      intro x hfrom hto
      have hmem : x ∈ addrs.map Ip6Address.number := by
        rw [hnumbers, List.mem_range'_1]
        omega
      obtain ⟨turn, hturn, rfl⟩ := List.mem_map.mp hmem
      exact (lt_iff_reversed turn last).mp (lt_of_mem_visited hvisited turn hturn)
    refine ⟨⟨fun hlt => ?_, fun hlt => ?_⟩, fun hle =>
      (reversed_lt_of_interval_iff (by decide) hle hlast).mp hall⟩
    · -- a loop that starts goes through its first address
      by_contra hge
      have hnone : addrs = [] := by
        rw [Nat.sub_eq_zero_of_le (not_lt.mp hge)] at hnumbers
        exact List.map_eq_nil_iff.mp hnumbers
      cases fuel with
      | zero => cases hvisited
      | succ fuel =>
          rw [visited, if_pos hlt, hnone] at hvisited
          obtain ⟨next, -, hrest⟩ := Option.bind_eq_some_iff.mp hvisited
          obtain ⟨rest, -, hcons⟩ := Option.bind_eq_some_iff.mp hrest
          cases hcons
    · exact (lt_iff_reversed addr last).mpr (hall addr.number (Nat.le_refl _) hlt)
  · rintro ⟨hsame, hinterval⟩
    by_cases hle : addr.number ≤ last.number
    · obtain ⟨addrs, hvisited, hnumbers⟩ :=
        visited_of_forall_lt (last.number - addr.number) (by omega)
          ((reversed_lt_of_interval_iff (by decide) hle hlast).mpr (hinterval hle))
      exact ⟨_, addrs, hvisited, hnumbers⟩
    · have hnot : ¬ lt addr last := fun hlt => hle (hsame.mp hlt).le
      refine ⟨1, [], if_neg hnot, ?_⟩
      rw [Nat.sub_eq_zero_of_le (not_le.mp hle).le]
      rfl

/-- The order is that of the numbers for two addresses exactly if the lowest and the highest
byte in which they differ compare alike; adding a positive number without a wrap gives a
greater address exactly if the lowest byte that changes does not overflow; and the loop goes
through the addresses up to the last one exactly if the order agrees on both ends and they
have the same bytes above the lowest byte of the last one that is not 255. -/
theorem order_right_iff (addr last : Ip6Address) :
    ((lt addr last ↔ addr.number < last.number) ↔ EndsAgree 256 16 addr.number last.number) ∧
      (∀ (sum : Ip6Address) (val : BitVec 64), 0 < val.toInt →
        addr.number + val.toNat < 2 ^ 128 → add (.address addr) (.number val) = some sum →
        (lt addr sum ↔ ∃ i < 8, val.toNat % 256 ^ i = 0 ∧ val.toNat / 256 ^ i % 256 ≠ 0 ∧
          addr.number / 256 ^ i % 256 + val.toNat / 256 ^ i % 256 < 256)) ∧
      (VisitsUpTo addr last ↔
        EndsAgree 256 16 addr.number last.number ∧
          (addr.number ≤ last.number →
            addr.number / 256 ^ (trailing 256 16 last.number + 1) =
              last.number / 256 ^ (trailing 256 16 last.number + 1))) :=
  ⟨lt_agrees_iff addr last, fun _ _ => lt_add_iff, visitsUpTo_iff addr last⟩

/-- `::ff` is not less than `::100`. -/
theorem not_lt_carry : ¬ (lt ⟨0xff, 0⟩ ⟨0x100, 0⟩ ↔
    (⟨0xff, 0⟩ : Ip6Address).number < (⟨0x100, 0⟩ : Ip6Address).number) := by
  decide

end Ip6Addr

end Libmoon.Packet
