import Libmoon.Lpm.Bitmask
import Libmoon.Packet.Fields

/-! # Decrementing the TTL of a batch

`decrementTTL` goes through the packets of a batch, decrements the TTL where a bit of the input
mask is set, and sets a bit of the output mask unless the TTL has become zero. The masks may be
one and the same.
-/

namespace Libmoon.Lpm

open Foundation Packet

variable {Mask Ref : Type}

/-- The packets' bytes and the bitmasks. -/
structure TtlState (Mask Ref : Type) where
  mem : Memory
  masks : Ref → Mask

/-- A packet of a batch. -/
structure Pkt where
  data : ℕ
  length : ℕ

/-- `pkt:getIPPacket().ip4` -/
def Pkt.ip4 (pkt : Pkt) : ℕ := pkt.data + headerSize .ethernet none

section Loop

variable [DecidableEq Ref] (bitmask : BitmaskFunctions Mask) (inMask outMask : Ref)

/-- `out_mask[i] = y` -/
def TtlState.setOut (state : TtlState Mask Ref) (i y : ℕ) : TtlState Mask Ref :=
  { state with
    masks := Function.update state.masks outMask (bitmask.newindex (state.masks outMask) i y) }

/-- One round of the loop. -/
def decrementOne (i : ℕ) (pkt : Pkt) (state : TtlState Mask Ref) : Option (TtlState Mask Ref) :=
  if bitmask.index (state.masks inMask) i then
    match Ip4Header.getTTL state.mem pkt.ip4 with
    | .number ttl => do
        let mem ← Ip4Header.setTTL (some (.number (ttl - 1))) state.mem pkt.ip4
        let state := { state with mem := mem }
        some (state.setOut bitmask outMask i (if ttl - 1 ≠ 0 then 1 else 0))
    | _ => none
  else
    some (state.setOut bitmask outMask i 0)

/-- The loop over the packets from the `i`-th one on. -/
def decrementFrom (i : ℕ) : List Pkt → TtlState Mask Ref → Option (TtlState Mask Ref)
  | [], state => some state
  | pkt :: rest, state => do
      let state ← decrementOne bitmask inMask outMask i pkt state
      decrementFrom (i + 1) rest state

/-- `decrementTTL` -/
def decrementTTL (pkts : List Pkt) (ipv4 : Option Bool) (state : TtlState Mask Ref) :
    Except String (TtlState Mask Ref) :=
  if ipv4.getD true then
    match decrementFrom bitmask inMask outMask 1 pkts state with
    | some state => .ok state
    | none => .error "attempt to perform arithmetic on a value that is no number"
  else
    .error "TTL decrement for ipv6 not yet implemented"

end Loop

/-! ## One packet -/

theorem getTTL_eq (mem : Memory) (base : ℕ) :
    Ip4Header.getTTL mem base = .number (mem (base + 8)).toNat := by
  rw [Ip4Header.getTTL, getByte, Memory.toNat_word_one]

theorem ofInt_pred (byte : UInt8) :
    BitVec.ofInt (8 * 1) ((byte.toNat : ℤ) - 1) = (byte - 1).toBitVec := by
  rw [Int.sub_eq_add_neg, BitVec.ofInt_add]
  simp [BitVec.sub_eq_add_neg]

/-- A TTL of zero wraps around. -/
theorem setTTL_pred (mem : Memory) (base : ℕ) :
    Ip4Header.setTTL (some (.number ((mem (base + 8)).toNat - 1))) mem base =
      some (Function.update mem (base + 8) (mem (base + 8) - 1)) := by
  have htruncate : truncate (((mem (base + 8)).toNat : ℚ) - 1) =
      ((mem (base + 8)).toNat : ℤ) - 1 := by
    exact_mod_cast truncate_intCast (((mem (base + 8)).toNat : ℤ) - 1)
  rw [Ip4Header.setTTL, setByte, numberOr, Option.bind_eq_bind, Option.bind_some, htruncate,
    ofInt_pred]
  refine congrArg some ?_
  funext i
  by_cases hi : i = base + 8
  · subst hi
    rw [Function.update_self, Memory.setWord, if_pos (by omega), Nat.sub_self, Nat.mul_zero]
    exact congrArg UInt8.ofBitVec BitVec.extractLsb'_eq_self
  · rw [Function.update_of_ne hi, Memory.setWord_of_not_mem _ (by omega)]

/-! ## A batch -/

/-- The TTL of a packet. -/
def ttl (mem : Memory) (pkt : Pkt) : ℕ := (mem (pkt.ip4 + 8)).toNat

variable {bitmask : BitmaskFunctions Mask} {inMask outMask : Ref}
  {state state' state'' : TtlState Mask Ref} {pkt : Pkt} {pkts : List Pkt} {i : ℕ}

/-- What one round does. -/
structure DecrementedOne (bitmask : BitmaskFunctions Mask) (inMask outMask : Ref) (i : ℕ)
    (pkt : Pkt) (state state' : TtlState Mask Ref) : Prop where
  size_eq : bitmask.size (state'.masks outMask) = bitmask.size (state.masks outMask)
  masks_of_ne : ∀ ref, ref ≠ outMask → state'.masks ref = state.masks ref
  index_of_ne : ∀ j < bitmask.size (state.masks outMask), j ≠ i →
    bitmask.index (state'.masks outMask) (j + 1) = bitmask.index (state.masks outMask) (j + 1)
  index_iff : bitmask.index (state'.masks outMask) (i + 1) ↔
    bitmask.index (state.masks inMask) (i + 1) ∧ ttl state.mem pkt ≠ 1
  mem_eq : state'.mem = if bitmask.index (state.masks inMask) (i + 1) then
    Function.update state.mem (pkt.ip4 + 8) (state.mem (pkt.ip4 + 8) - 1) else state.mem

namespace DecrementedOne

variable (hone : DecrementedOne bitmask inMask outMask i pkt state state')

include hone

/-- The other bits of the input mask are read later. -/
theorem inMask_eq {j : ℕ} (hj : j < bitmask.size (state.masks outMask)) (hne : j ≠ i) :
    bitmask.index (state'.masks inMask) (j + 1) = bitmask.index (state.masks inMask) (j + 1) := by
  -- one mask for both: the round has written its own bit only
  by_cases hsame : inMask = outMask
  · rw [hsame]
    exact hone.index_of_ne j hj hne
  · rw [hone.masks_of_ne _ hsame]

theorem mem_of_ne {a : ℕ} (hne : bitmask.index (state.masks inMask) (i + 1) → a ≠ pkt.ip4 + 8) :
    state'.mem a = state.mem a := by
  rw [hone.mem_eq]
  split
  next hindex => exact Function.update_of_ne (hne hindex) _ _
  next => rfl

theorem mem_ttl (hindex : bitmask.index (state.masks inMask) (i + 1)) :
    state'.mem (pkt.ip4 + 8) = state.mem (pkt.ip4 + 8) - 1 := by
  rw [hone.mem_eq, if_pos hindex, Function.update_self]

end DecrementedOne

/-- What the loop does to the packets from the `i`-th one on. Bits of packets in front of them
are left alone, so that the masks may be the same. -/
structure Decremented (bitmask : BitmaskFunctions Mask) (inMask outMask : Ref) (i : ℕ)
    (pkts : List Pkt) (state state' : TtlState Mask Ref) : Prop where
  index_of_lt : ∀ j < i, bitmask.index (state'.masks outMask) (j + 1) =
    bitmask.index (state.masks outMask) (j + 1)
  index_iff : ∀ k pkt, pkts[k]? = some pkt →
    (bitmask.index (state'.masks outMask) (i + k + 1) ↔
      bitmask.index (state.masks inMask) (i + k + 1) ∧ ttl state.mem pkt ≠ 1)
  mem_of_ne : ∀ a, (∀ k pkt, pkts[k]? = some pkt →
    bitmask.index (state.masks inMask) (i + k + 1) → a ≠ pkt.ip4 + 8) →
      state'.mem a = state.mem a
  mem_ttl : ∀ k pkt, pkts[k]? = some pkt → bitmask.index (state.masks inMask) (i + k + 1) →
    state'.mem (pkt.ip4 + 8) = state.mem (pkt.ip4 + 8) - 1

theorem Decremented.nil : Decremented bitmask inMask outMask i [] state state where
  index_of_lt _ _ := rfl
  index_iff _ _ hpkt := by cases hpkt
  mem_of_ne _ _ := rfl
  mem_ttl _ _ hpkt := by cases hpkt

/-- A round and the rounds after it. -/
theorem Decremented.cons (hone : DecrementedOne bitmask inMask outMask i pkt state state')
    (hrest : Decremented bitmask inMask outMask (i + 1) pkts state' state'')
    (hsize : i + 1 + pkts.length ≤ bitmask.size (state.masks outMask))
    (hne : ∀ other ∈ pkts, other.ip4 ≠ pkt.ip4) :
    Decremented bitmask inMask outMask i (pkt :: pkts) state state'' := by
  have hplace (k : ℕ) : i + (k + 1) + 1 = i + 1 + k + 1 := by omega
  -- what later rounds read is as it was before this one
  have hin (k : ℕ) (other : Pkt) (hother : pkts[k]? = some other) :
      bitmask.index (state'.masks inMask) (i + 1 + k + 1) =
        bitmask.index (state.masks inMask) (i + 1 + k + 1) := by
    have hk := (List.getElem?_eq_some_iff.mp hother).1
    exact hone.inMask_eq (by omega) (by omega)
  have hother (k : ℕ) (other : Pkt) (hother : pkts[k]? = some other) :
      state'.mem (other.ip4 + 8) = state.mem (other.ip4 + 8) := by
    have hip4 := hne other (List.mem_of_getElem? hother)
    exact hone.mem_of_ne fun _ => by omega
  constructor
  case index_of_lt =>
    intro j hj
    rw [hrest.index_of_lt j (by omega), hone.index_of_ne j (by omega) (by omega)]
  case index_iff =>
    intro k other hk
    cases k with
    | zero =>
        cases hk
        rw [Nat.add_zero, hrest.index_of_lt i (Nat.lt_succ_self i)]
        exact hone.index_iff
    | succ k =>
        rw [List.getElem?_cons_succ] at hk
        rw [hplace, hrest.index_iff k other hk, hin k other hk, ttl, ttl, hother k other hk]
  case mem_of_ne =>
    intro a ha
    rw [hrest.mem_of_ne a ?_]
    · exact hone.mem_of_ne (ha 0 pkt rfl)
    · intro k other hk hindex
      rw [hin k other hk, ← hplace] at hindex
      exact ha (k + 1) other hk hindex
  case mem_ttl =>
    intro k other hk hindex
    cases k with
    | zero =>
        cases hk
        rw [hrest.mem_of_ne]
        · exact hone.mem_ttl hindex
        · intro k other hk _
          have hip4 := hne other (List.mem_of_getElem? hk)
          omega
    | succ k =>
        rw [List.getElem?_cons_succ] at hk
        rw [hplace, ← hin k other hk] at hindex
        rw [hrest.mem_ttl k other hk hindex, hother k other hk]

section Run

variable [DecidableEq Ref]

/-- One round without the accessors. -/
theorem decrementOne_eq : decrementOne bitmask inMask outMask i pkt state =
    some (TtlState.setOut bitmask outMask
      { state with
        mem := if bitmask.index (state.masks inMask) i then
          Function.update state.mem (pkt.ip4 + 8) (state.mem (pkt.ip4 + 8) - 1) else state.mem }
      i (if bitmask.index (state.masks inMask) i ∧ ttl state.mem pkt ≠ 1 then 1 else 0)) := by
  cases hindex : bitmask.index (state.masks inMask) i with
  | true =>
      have hzero : ((ttl state.mem pkt : ℚ) - 1 ≠ 0) = (ttl state.mem pkt ≠ 1) := by
        rw [sub_ne_zero]
        exact_mod_cast rfl
      rw [decrementOne, if_pos hindex, getTTL_eq]
      dsimp only
      rw [setTTL_pred, Option.bind_eq_bind, Option.bind_some]
      refine congrArg some (congrArg _ (if_congr ?_ rfl rfl))
      rw [← ttl, hzero, and_iff_right rfl]
  | false =>
      rw [decrementOne, if_neg (ne_true_of_eq_false hindex), if_neg Bool.false_ne_true,
        if_neg fun hboth => Bool.false_ne_true hboth.left]

theorem setOut_masks (y : ℕ) : (state.setOut bitmask outMask i y).masks outMask =
    bitmask.newindex (state.masks outMask) i y :=
  Function.update_self _ _ _

theorem decrementOne_spec (hi : i < bitmask.size (state.masks outMask)) :
    ∃ state', decrementOne bitmask inMask outMask (i + 1) pkt state = some state' ∧
      DecrementedOne bitmask inMask outMask i pkt state state' := by
  refine ⟨_, decrementOne_eq, ?_, ?_, ?_, ?_, rfl⟩
  · rw [setOut_masks]
    exact BitmaskFunctions.size_newindex _ hi
  · intro ref hne
    exact Function.update_of_ne hne _ _
  · intro j hj hne
    rw [setOut_masks]
    exact BitmaskFunctions.index_newindex_of_ne _ hi hj hne
  · rw [setOut_masks, BitmaskFunctions.index_newindex _ hi, ite_ne_right_iff]
    exact and_iff_left one_ne_zero

/-- The loop comes to its end. -/
theorem decrementFrom_spec (hsize : i + pkts.length ≤ bitmask.size (state.masks outMask))
    (hpkts : pkts.Pairwise fun pkt other => other.ip4 ≠ pkt.ip4) :
    ∃ state', decrementFrom bitmask inMask outMask (i + 1) pkts state = some state' ∧
      Decremented bitmask inMask outMask i pkts state state' := by
  induction pkts generalizing i state with
  | nil => exact ⟨state, rfl, .nil⟩
  | cons pkt rest ih =>
      obtain ⟨hne, hrest⟩ := List.pairwise_cons.mp hpkts
      rw [List.length_cons] at hsize
      obtain ⟨next, hnext, hone⟩ := @decrementOne_spec _ _ bitmask inMask outMask state pkt i _
        (by omega)
      obtain ⟨state', hrun, hdecremented⟩ := @ih next (i + 1)
        (by rw [hone.size_eq]; omega) hrest
      refine ⟨state', ?_, hdecremented.cons hone (by omega) hne⟩
      rw [decrementFrom, hnext]
      exact hrun

end Run

/-! ## The filter -/

/-- Bits of the output mask, TTLs and unmasked packets are as they should be. -/
def FiltersExpired (bitmask : BitmaskFunctions Mask) (inMask outMask : Ref) (pkts : List Pkt)
    (state state' : TtlState Mask Ref) : Prop :=
  ∀ k pkt, pkts[k]? = some pkt →
    (bitmask.index (state'.masks outMask) (k + 1) ↔
      bitmask.index (state.masks inMask) (k + 1) ∧ 1 < ttl state.mem pkt) ∧
    (bitmask.index (state.masks inMask) (k + 1) →
      (ttl state'.mem pkt : ℤ) = ttl state.mem pkt - 1 ∧
        ttl state'.mem pkt ≤ ttl state.mem pkt) ∧
    (¬ bitmask.index (state.masks inMask) (k + 1) →
      ∀ a, pkt.data ≤ a → a < pkt.data + pkt.length → state'.mem a = state.mem a)

theorem toNat_pred_eq_iff (byte : UInt8) :
    ((byte - 1).toNat : ℤ) = byte.toNat - 1 ↔ byte.toNat ≠ 0 := by
  have hlt := byte.toNat_lt
  rw [UInt8.toNat_sub]
  simp only [UInt8.toNat_one]
  omega

theorem ip4_eq (pkt : Pkt) : pkt.ip4 = pkt.data + 14 := rfl

/-- Packets that do not overlap have their headers in different places. -/
theorem pairwise_ip4 (hlength : ∀ pkt ∈ pkts, 14 + 20 ≤ pkt.length)
    (hdisjoint : pkts.Pairwise fun pkt other =>
      pkt.data + pkt.length ≤ other.data ∨ other.data + other.length ≤ pkt.data) :
    pkts.Pairwise fun pkt other => other.ip4 ≠ pkt.ip4 := by
  refine hdisjoint.imp_of_mem ?_
  intro pkt other hpkt hother hapart heq
  have hpkt' := hlength pkt hpkt
  have hother' := hlength other hother
  rw [ip4_eq, ip4_eq] at heq
  omega

/-- The TTL of another packet is no byte of a packet. -/
theorem ttl_outside (hlength : ∀ pkt ∈ pkts, 14 + 20 ≤ pkt.length)
    (hdisjoint : pkts.Pairwise fun pkt other =>
      pkt.data + pkt.length ≤ other.data ∨ other.data + other.length ≤ pkt.data)
    {j k a : ℕ} {other : Pkt} (hpkt : pkts[k]? = some pkt) (hother : pkts[j]? = some other)
    (hne : j ≠ k) (hge : pkt.data ≤ a) (hlt : a < pkt.data + pkt.length) :
    a ≠ other.ip4 + 8 := by
  have hlength' := hlength other (List.mem_of_getElem? hother)
  obtain ⟨hk, rfl⟩ := List.getElem?_eq_some_iff.mp hpkt
  obtain ⟨hj, rfl⟩ := List.getElem?_eq_some_iff.mp hother
  rw [ip4_eq]
  rw [List.pairwise_iff_getElem] at hdisjoint
  rcases Nat.lt_or_gt_of_ne hne with hjk | hkj
  · have hapart := hdisjoint j k hj hk hjk
    omega
  · have hapart := hdisjoint k j hk hj hkj
    omega

/-- A TTL of zero becomes 255, and the packet is let through. -/
theorem ttl_ne_zero_of_filters
    (hdecremented : Decremented bitmask inMask outMask 0 pkts state state')
    (hfilters : FiltersExpired bitmask inMask outMask pkts state state') {k : ℕ}
    (hpkt : pkts[k]? = some pkt) (hin : bitmask.index (state.masks inMask) (k + 1)) :
    ttl state.mem pkt ≠ 0 := by
  intro hzero
  have hindex := Nat.zero_add k ▸ hdecremented.index_iff k pkt hpkt
  have hgt := ((hfilters k pkt hpkt).1.mp (hindex.mpr ⟨hin, by omega⟩)).2
  omega

section Filter

variable [DecidableEq Ref]

/-- Without `ipv4 = false` a batch is gone through. -/
theorem decrementTTL_spec {ipv4 : Option Bool} (hipv4 : ipv4 ≠ some false)
    (hout : pkts.length ≤ bitmask.size (state.masks outMask))
    (hpkts : pkts.Pairwise fun pkt other => other.ip4 ≠ pkt.ip4) :
    ∃ state', decrementTTL bitmask inMask outMask pkts ipv4 state = .ok state' ∧
      Decremented bitmask inMask outMask 0 pkts state state' := by
  obtain ⟨state', hrun, hdecremented⟩ := @decrementFrom_spec _ _ bitmask inMask outMask state pkts
    0 _ (by omega) hpkts
  refine ⟨state', ?_, hdecremented⟩
  have hdefault : ipv4.getD true = true := by
    cases ipv4 with
    | none => rfl
    | some flag =>
        cases flag with
        | false => exact absurd rfl hipv4
        | true => rfl
  rw [decrementTTL, if_pos hdefault, hrun]

/-- A batch is filtered as it should be unless the TTL of a masked packet is zero already. -/
theorem decrementTTL_filters_iff {ipv4 : Option Bool} (hipv4 : ipv4 ≠ some false)
    (hout : pkts.length ≤ bitmask.size (state.masks outMask))
    (hlength : ∀ pkt ∈ pkts, 14 + 20 ≤ pkt.length)
    (hdisjoint : pkts.Pairwise fun pkt other =>
      pkt.data + pkt.length ≤ other.data ∨ other.data + other.length ≤ pkt.data) :
    (∃ state', decrementTTL bitmask inMask outMask pkts ipv4 state = .ok state' ∧
        FiltersExpired bitmask inMask outMask pkts state state') ↔
      ∀ k pkt, pkts[k]? = some pkt → bitmask.index (state.masks inMask) (k + 1) →
        ttl state.mem pkt ≠ 0 := by
  obtain ⟨state', hrun, hdecremented⟩ := @decrementTTL_spec _ _ bitmask inMask outMask state pkts
    _ _ hipv4 hout (pairwise_ip4 hlength hdisjoint)
  constructor
  · rintro ⟨state'', hrun', hfilters⟩ k pkt hpkt hin
    rw [hrun] at hrun'
    cases hrun'
    exact ttl_ne_zero_of_filters hdecremented hfilters hpkt hin
  · intro hne
    refine ⟨state', hrun, ?_⟩
    intro k pkt hpkt
    refine ⟨?_, ?_, ?_⟩
    · have hindex := Nat.zero_add k ▸ hdecremented.index_iff k pkt hpkt
      -- not 1 and not 0 is greater than 1
      rw [hindex]
      refine and_congr_right fun hin => ?_
      have hne := hne k pkt hpkt hin
      omega
    · intro hin
      have hmem := hdecremented.mem_ttl k pkt hpkt (by rwa [Nat.zero_add])
      have hpred : (ttl state'.mem pkt : ℤ) = ttl state.mem pkt - 1 := by
        rw [ttl, hmem]
        exact (toNat_pred_eq_iff _).mpr (hne k pkt hpkt hin)
      exact ⟨hpred, by omega⟩
    · intro hin a hge hlt
      apply hdecremented.mem_of_ne
      intro j other hother hother'
      refine ttl_outside hlength hdisjoint hpkt hother ?_ hge hlt
      rintro rfl
      rw [Nat.zero_add] at hother'
      exact hin hother'

end Filter

/-- A bitmask that is the list of its bits. -/
def listMask : BitmaskFunctions (List Bool) where
  size := List.length
  getBit mask n := if mask.getD n false then 1 else 0
  setBit mask n := mask.set n true
  clearBit mask n := mask.set n false
  size_setBit _ _ _ := List.length_set
  size_clearBit _ _ _ := List.length_set
  getBit_setBit mask n hn := by simp [hn]
  getBit_clearBit mask n hn := by simp [hn]
  getBit_setBit_of_ne mask n k _ _ hne := by simp [hne.symm]
  getBit_clearBit_of_ne mask n k _ _ hne := by simp [hne.symm]

/-- Packets of 64 bytes, one after the other, all of whose bytes are the same. -/
def uniform (byte : UInt8) (mask : List Bool) : TtlState (List Bool) Bool :=
  ⟨fun _ => byte, fun _ => mask⟩

theorem decrementTTL_filters_iff_two :
    (∃ state', decrementTTL listMask true true [⟨0, 64⟩, ⟨64, 64⟩] none (uniform 1 [true, false]) =
          .ok state' ∧
        FiltersExpired listMask true true [⟨0, 64⟩, ⟨64, 64⟩] (uniform 1 [true, false]) state') ↔
      ∀ k pkt, [(⟨0, 64⟩ : Pkt), ⟨64, 64⟩][k]? = some pkt →
        listMask.index ((uniform 1 [true, false]).masks true) (k + 1) →
          ttl (uniform 1 [true, false]).mem pkt ≠ 0 :=
  decrementTTL_filters_iff (by decide) (by decide) (by simp) (by simp)

/-- A packet whose TTL has expired is sent on with a TTL of 255. -/
theorem decrementTTL_zero :
    (∃ state', decrementTTL listMask true false [⟨0, 64⟩] none (uniform 0 [true]) = .ok state' ∧
      listMask.index (state'.masks false) 1 = true ∧ ttl state'.mem ⟨0, 64⟩ = 255) ∧
    ¬ ∃ state', decrementTTL listMask true false [⟨0, 64⟩] none (uniform 0 [true]) = .ok state' ∧
      FiltersExpired listMask true false [⟨0, 64⟩] (uniform 0 [true]) state' := by
  obtain ⟨state', hrun, hdecremented⟩ := @decrementTTL_spec _ _ listMask true false
    (uniform 0 [true]) [⟨0, 64⟩] _ none (by decide) (by decide) (List.pairwise_singleton _ _)
  constructor
  · refine ⟨state', hrun, ?_, ?_⟩
    · exact (hdecremented.index_iff 0 _ rfl).mpr ⟨by decide, by decide⟩
    · rw [ttl, hdecremented.mem_ttl 0 _ rfl (by decide)]
      decide
  · rintro ⟨state'', hrun', hfilters⟩
    rw [hrun] at hrun'
    cases hrun'
    exact ttl_ne_zero_of_filters hdecremented hfilters (k := 0) rfl (by decide) (by decide)

end Libmoon.Lpm
