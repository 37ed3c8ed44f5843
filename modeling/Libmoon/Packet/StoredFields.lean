import Libmoon.Foundation.FieldBytes
import Libmoon.Foundation.NetworkOrder
import Libmoon.Packet.FillGet

/-! # Setters that store bytes

A setter of a whole field stores bytes that do not depend on what was there. Here the bytes
are given for the values that are read from other headers, and for numbers: those of more
than one byte are stored in network order.
-/

namespace Libmoon.Packet

open Foundation

/-- With this argument, a setter stores the bytes of a field. -/
def Stores (setter : Setter) (arg : Option Value) (field : FieldBytes) : Prop :=
  ∀ mem base, setter arg mem base = some (mem.store (base + field.offset) field.bytes)

/-- The 16-bit number in network order at an address. -/
def netShort (mem : Memory) (start : Nat) : Nat := fromBigEndian (mem.load start 2)

theorem netShort_lt (mem : Memory) (start : Nat) : netShort mem start < 2 ^ 16 := by
  have hlt := fromBigEndian_lt (mem.load start 2)
  rwa [Memory.length_load] at hlt

theorem bigEndian_netShort (mem : Memory) (start : Nat) :
    bigEndian 2 (netShort mem start) = mem.load start 2 := by
  have hbytes := bigEndian_fromBigEndian (mem.load start 2)
  rwa [Memory.length_load] at hbytes

section Getters

variable (src : Memory) (base offset : Nat)

theorem getHton16_eq :
    getHton16 offset src base = .number (netShort src (base + offset) : Nat) := by
  have hlt := netShort_lt src (base + offset)
  rw [netShort, ← Memory.toNat_bswap16_word] at hlt
  rw [getHton16, getBits, netShort, ← Memory.toNat_bswap16_word, BitVec.toInt_eq_toNat_of_lt
    (by omega), Int.cast_natCast]

/-- A 16-bit number of which the lower bits are read. -/
theorem getBits_low (count : Nat) (hcount : count ≤ 16) :
    getBits offset 2 (fun word => bswap16 word &&& BitVec.ofNat 32 (2 ^ count - 1)) src base =
      .number (netShort src (base + offset) % 2 ^ count : Nat) := by
  have hpow : 2 ^ count ≤ 2 ^ 16 := Nat.pow_le_pow_right Nat.two_pos hcount
  have hpos := Nat.two_pow_pos count
  have hmask : (2 ^ count - 1) % 2 ^ 32 = 2 ^ count - 1 := by
    apply Nat.mod_eq_of_lt
    omega
  have hbits : (bswap16 ((src.word (base + offset) 2).setWidth 32) &&&
      BitVec.ofNat 32 (2 ^ count - 1)).toNat = netShort src (base + offset) % 2 ^ count := by
    rw [BitVec.toNat_and, Memory.toNat_bswap16_word, BitVec.toNat_ofNat, hmask,
      Nat.and_two_pow_sub_one_eq_mod, netShort]
  have hlt : netShort src (base + offset) % 2 ^ count < 2 ^ count := Nat.mod_lt _ hpos
  rw [getBits, BitVec.toInt_eq_toNat_of_lt (by omega), hbits, Int.cast_natCast]

end Getters

section Setters

variable (offset : Nat) (default : ℚ)

theorem stores_byte (number : Nat) :
    Stores (setByte offset default) (some (.number (number : Nat)))
      ⟨offset, [UInt8.ofNat number]⟩ := by
  intro mem base
  rw [setByte, numberOr, Option.bind_eq_bind, Option.bind_some, truncate_natCast,
    BitVec.ofInt_natCast, Memory.setWord_byte]

variable {default} in
/-- A number or the default, whichever it is. -/
theorem stores_hton16_of_numberOr {number : Nat} (hnumber : number < 2 ^ 16) {arg : Option Value}
    (harg : numberOr default arg = some (number : ℚ)) :
    Stores (setHton16 offset default) arg ⟨offset, bigEndian 2 number⟩ := by
  intro mem base
  rw [setHton16, setBits, harg, Option.bind_eq_bind, Option.bind_some, tobit_natCast,
    Memory.setWord_bswap16 _ _ hnumber]

theorem stores_hton16 {number : Nat} (hnumber : number < 2 ^ 16) :
    Stores (setHton16 offset default) (some (.number (number : Nat)))
      ⟨offset, bigEndian 2 number⟩ :=
  stores_hton16_of_numberOr offset hnumber rfl

theorem stores_hton (number : ℚ) :
    Stores (setHton offset default) (some (.number number))
      ⟨offset, bigEndian 4 (tobit number).toNat⟩ := by
  intro mem base
  rw [← Memory.setWord_bswap]
  rfl

end Setters

section Copies

variable (src : Memory) (base offset : Nat)

theorem stores_getByte (default : ℚ) :
    Stores (setByte offset default) (some (getByte offset src base))
      ⟨offset, src.load (base + offset) 1⟩ := by
  have hbyte := stores_byte offset default (src.word (base + offset) 1).toNat
  rw [Memory.toNat_word_one, UInt8.ofNat_toNat] at hbyte
  rw [getByte, Memory.toNat_word_one]
  exact hbyte

/-- A number can also be stored in another place. -/
theorem stores_getHton16_at (target : Nat) (default : ℚ) :
    Stores (setHton16 target default) (some (getHton16 offset src base))
      ⟨target, bigEndian 2 (netShort src (base + offset))⟩ := by
  rw [getHton16_eq]
  exact stores_hton16 target default (netShort_lt src (base + offset))

theorem stores_getHton16 (default : ℚ) :
    Stores (setHton16 offset default) (some (getHton16 offset src base))
      ⟨offset, src.load (base + offset) 2⟩ := by
  rw [← bigEndian_netShort]
  exact stores_getHton16_at src base offset offset default

theorem stores_getHton (default : ℚ) :
    Stores (setHton offset default) (some (getHton offset src base))
      ⟨offset, src.load (base + offset) 4⟩ := by
  intro mem base'
  have hword : (bswap (tobit (bswap ((src.word (base + offset) 4).setWidth 32)).toInt)).setWidth
      (8 * 4) = src.word (base + offset) 4 := by
    rw [tobit_toInt, bswap_bswap_setWidth]
  rw [← Memory.setWord_word_eq_store, ← hword]
  rfl

theorem stores_getAddress :
    Stores (EtherHeader.setAddress offset) (some (EtherHeader.getAddress offset src base))
      ⟨offset, src.load (base + offset) 6⟩ := by
  intro mem base'
  exact congrArg some (MacAddr.setString_getString mem src (base' + offset) (base + offset))

end Copies

section Short

variable {src : Memory} {base offset : Nat}

/-- A header holds what is copied from it. -/
theorem holdsField_load (src : Memory) (base offset size : Nat) :
    HoldsField src base ⟨offset, src.load (base + offset) size⟩ := by
  rw [HoldsField, Memory.length_load]

theorem holdsField_short_iff {number : Nat} (hnumber : number < 2 ^ 16) :
    HoldsField src base ⟨offset, bigEndian 2 number⟩ ↔ netShort src (base + offset) = number := by
  rw [HoldsField, length_bigEndian, ← bigEndian_netShort]
  exact ⟨bigEndian_inj (netShort_lt src _) hnumber, fun heq => by rw [heq]⟩

/-- A number is equal to its lower bits if it has no others. -/
theorem holdsField_low_iff (count : Nat) :
    HoldsField src base ⟨offset, bigEndian 2 (netShort src (base + offset) % 2 ^ count)⟩ ↔
      netShort src (base + offset) < 2 ^ count := by
  have hlt := netShort_lt src (base + offset)
  rw [holdsField_short_iff ((Nat.mod_le _ _).trans_lt hlt), eq_comm, Nat.mod_eq_iff_lt
    (Nat.two_pow_pos count).ne']

end Short

/-- Running setters that store bytes leaves all of them in the header. -/
theorem runSetters_holds {name : String} {args : NamedArgs} {base : Nat}
    {steps : List (String × Setter)} {fields kept : List FieldBytes}
    (hsteps : List.Forall₂ (fun step field => Stores step.2 (args (name ++ step.1)) field) steps
      fields)
    (hapart : (fields.map FieldBytes.slot).Pairwise Apart)
    (hkept : ∀ slot ∈ kept.map FieldBytes.slot, ∀ slot' ∈ fields.map FieldBytes.slot,
      Apart slot slot')
    {mem : Memory} (hholds : Holds mem base kept) :
    ∃ mem', runSetters base name args steps mem = some mem' ∧ Holds mem' base (kept ++ fields) := by
  induction hsteps generalizing kept mem with
  | nil => exact ⟨mem, rfl, by simpa using hholds⟩
  | @cons step field steps fields hstep _ ih =>
      obtain ⟨hfirst, hrest⟩ := List.pairwise_cons.mp hapart
      have hnext : Holds (mem.store (base + field.offset) field.bytes) base (kept ++ [field]) := by
        intro other hother
        rcases List.mem_append.mp hother with hmem | hmem
        · exact (hholds other hmem).store
            (hkept _ (List.mem_map_of_mem hmem) _ List.mem_cons_self)
        · rw [List.mem_singleton.mp hmem]
          exact holdsField_store mem base field
      have hkept' : ∀ slot ∈ (kept ++ [field]).map FieldBytes.slot,
          ∀ slot' ∈ fields.map FieldBytes.slot, Apart slot slot' := by
        intro slot hslot slot' hslot'
        rw [List.map_append, List.mem_append, List.map_singleton, List.mem_singleton] at hslot
        rcases hslot with hmem | rfl
        · exact hkept slot hmem slot' (List.mem_cons_of_mem _ hslot')
        · exact hfirst slot' hslot'
      obtain ⟨mem', hrun, hall⟩ := ih hrest hkept' hnext
      rw [List.append_assoc, List.singleton_append] at hall
      exact ⟨mem', by simp [runSetters, hstep mem base, hrun], hall⟩

end Libmoon.Packet
