import Libmoon.Ipsec.Registers
import Libmoon.Packet.Ip4Text

/-! # Security tables

Eight functions write and read the tables of keys, addresses and security parameter indices.
Each of them selects an entry, puts a command together from what the index register holds, and
writes it behind the values that are to be stored or before it reads what has been loaded.
-/

namespace Libmoon.Ipsec

open Foundation Libmoon.Packet

/-- Select a table, where there is one to select. -/
def selectTable (previous : ℤ) : Option ℕ → Except LuaError ℤ
  | some table => setBits32 previous 2 1 table
  | none => .ok previous

/-- Select an entry. -/
def selectEntry (previous : ℤ) (table : Option ℕ) (idx : ℤ) : Except LuaError ℤ := do
  let value ← selectTable previous table
  setBits32 value 12 3 idx

/-- Clear READ and set WRITE. -/
def writeCommand (previous : ℤ) (table : Option ℕ) (idx : ℤ) : Except LuaError ℤ := do
  let value ← selectEntry previous table idx
  let value ← clearBit32 value 30
  setBit32 value 31

/-- Set READ and clear WRITE. -/
def readCommand (previous : ℤ) (table : Option ℕ) (idx : ℤ) : Except LuaError ℤ := do
  let value ← selectEntry previous table idx
  let value ← setBit32 value 30
  clearBit32 value 31

/-- The words of a key, from the highest one on, and of a salt. -/
def keyValues (key3 key2 key1 key0 saltReg : ℕ) (key salt : String) : List (ℕ × Option ℤ) :=
  [(key3, tonumber16 (sub key 1 8)), (key2, tonumber16 (sub key 9 16)),
    (key1, tonumber16 (sub key 17 24)), (key0, tonumber16 (sub key 25 32)),
    (saltReg, tonumber16 salt)]

section Functions

variable (hardware : Hardware) (inetPton : String → Option (List UInt8))

def txSetKey (idx : ℤ) (key salt : String) : Access Unit := do
  fatalIf (idx > 1023 ∨ idx < 0) "Idx must be in range 0-1023"
  fatalIf (key.toList.length ≠ 32) "Key must be 128 bit (hex string)."
  fatalIf (salt.toList.length ≠ 8) "Salt must be 32 bit (hex string)."
  let value ← lift (writeCommand (← readReg32 ipstxidx) none idx)
  writeRegs hardware (keyValues ipstxkey3 ipstxkey2 ipstxkey1 ipstxkey0 ipstxsalt key salt)
  writeReg32 hardware ipstxidx (some value)

def txGetKey (idx : ℤ) : Access (String × String) := do
  fatalIf (idx > 1023 ∨ idx < 0) "Idx must be in range 0-1023"
  let value ← lift (readCommand (← readReg32 ipstxidx) none idx)
  writeReg32 hardware ipstxidx (some value)
  let key3 ← readReg32 ipstxkey3
  let key2 ← readReg32 ipstxkey2
  let key1 ← readReg32 ipstxkey1
  let key0 ← readReg32 ipstxkey0
  let salt ← readReg32 ipstxsalt
  pure (uhex32 key3 ++ uhex32 key2 ++ uhex32 key1 ++ uhex32 key0, uhex32 salt)

def rxSetKey (idx : ℤ) (key salt : String) (ipVer : ℤ) (proto : String) (decrypt : Option ℤ) :
    Access Unit := do
  fatalIf (idx > 1023 ∨ idx < 0) "Idx must be in range 0-1023"
  fatalIf (key.toList.length ≠ 32) "Key must be 128 bit (hex string)."
  fatalIf (salt.toList.length ≠ 8) "Salt must be 32 bit (hex string)."
  fatalIf (ipVer ≠ 4 ∧ ipVer ≠ 6) "IP version must be either 4 or 6"
  let ipv6 : ℕ := if ipVer = 4 then 0 else 1
  fatalIf (proto ≠ "esp" ∧ proto ≠ "ah") "Protocol must be either 'esp' or 'ah'"
  let esp : ℕ := if proto = "esp" then 1 else 0
  let espMode := decrypt.getD 0
  fatalIf (espMode ≠ 1 ∧ espMode ≠ 0) "ESP Decrypt must be either 0 or 1"
  let value ← lift (writeCommand (← readReg32 ipsrxidx) (some 0x3) idx)
  let mode ← lift (setBit32 (← readReg32 ipsrxmod) 0)
  let mode ← lift (setBits32 mode 2 2 esp)
  let mode ← lift (setBits32 mode 3 3 espMode)
  let mode ← lift (setBits32 mode 4 4 ipv6)
  writeRegs hardware (keyValues ipsrxkey3 ipsrxkey2 ipsrxkey1 ipsrxkey0 ipsrxsalt key salt ++
    [(ipsrxmod, some mode)])
  writeReg32 hardware ipsrxidx (some value)

/-- What `rx_get_key` returns. -/
structure RxKey where
  key : String
  salt : String
  valid : ℤ
  proto : ℤ
  decrypt : ℤ
  ipv6 : ℤ
deriving DecidableEq

def rxGetKey (idx : ℤ) : Access RxKey := do
  fatalIf (idx > 1023 ∨ idx < 0) "Idx must be in range 0-1023"
  let value ← lift (selectEntry (← readReg32 ipsrxidx) (some 0x3) idx)
  let value ← lift (setBit32 value 30)
  -- the write is a second expression of the assignment, and comes before it
  let _cleared ← lift (clearBit32 value 31)
  writeReg32 hardware ipsrxidx (some value)
  let key3 ← readReg32 ipsrxkey3
  let key2 ← readReg32 ipsrxkey2
  let key1 ← readReg32 ipsrxkey1
  let key0 ← readReg32 ipsrxkey0
  let salt ← readReg32 ipsrxsalt
  let mode ← readReg32 ipsrxmod
  pure {
    key := uhex32 key3 ++ uhex32 key2 ++ uhex32 key1 ++ uhex32 key0
    salt := uhex32 salt
    valid := ((bits mode &&& 0x01#32) >>> 0).toInt
    proto := ((bits mode &&& 0x04#32) >>> 2).toInt
    decrypt := ((bits mode &&& 0x08#32) >>> 3).toInt
    ipv6 := ((bits mode &&& 0x10#32) >>> 4).toInt }

/-- The words of an address from the last one to the first. -/
def ipWords : Option IpAddress → Except LuaError (List ℤ)
  | some (.ip4 ip) => .ok [(bswap (tobit ip)).toInt, 0x0, 0x0, 0x0]
  | some (.ip6 ip) => .ok [(bswap (ip.getD 0 0)).toInt, (bswap (ip.getD 1 0)).toInt,
      (bswap (ip.getD 2 0)).toInt, (bswap (ip.getD 3 0)).toInt]
  | none => .error .nilIndex

def rxSetIp (idx : ℤ) (ipAddr : String) : Access Unit := do
  fatalIf (idx > 127 ∨ idx < 0) "Idx must be in range 0-127"
  let words ← lift (ipWords (parseIPAddress inetPton ipAddr).1)
  let value ← lift (writeCommand (← readReg32 ipsrxidx) (some 0x1) idx)
  writeRegs hardware ([ipsrxipaddr3, ipsrxipaddr2, ipsrxipaddr1, ipsrxipaddr0].zip (words.map some))
  writeReg32 hardware ipsrxidx (some value)

/-- The string of an address that is put together from words. -/
def ipString (isIpv4 : Bool) (ip3 ip2 ip1 ip0 : BitVec 32) : String :=
  let blank : Memory := fun _ => 0
  if isIpv4 then Ip4Addr.getString (blank.setWord 0 (ip3.setWidth (8 * 4))) 0
  else
    let ip6 := blank.setWord 12 (ip3.setWidth (8 * 4))
    let ip6 := ip6.setWord 8 (ip2.setWidth (8 * 4))
    let ip6 := ip6.setWord 4 (ip1.setWidth (8 * 4))
    let ip6 := ip6.setWord 0 (ip0.setWidth (8 * 4))
    Ip6Addr.getString ip6 0

def rxGetIp (idx : ℤ) (isIpv4 : Option Bool) : Access (String × Bool) := do
  fatalIf (idx > 127 ∨ idx < 0) "Idx must be in range 0-127"
  let isIpv4 := isIpv4.getD true
  let value ← lift (readCommand (← readReg32 ipsrxidx) (some 0x1) idx)
  writeReg32 hardware ipsrxidx (some value)
  let ip3 ← readReg32 ipsrxipaddr3
  let ip2 ← readReg32 ipsrxipaddr2
  let ip1 ← readReg32 ipsrxipaddr1
  let ip0 ← readReg32 ipsrxipaddr0
  pure (ipString isIpv4 (bits ip3) (bits ip2) (bits ip1) (bits ip0), isIpv4)

def rxSetSpi (idx spi ipIdx : ℤ) : Access Unit := do
  fatalIf (idx > 1023 ∨ idx < 0) "Idx must be in range 0-1023"
  fatalIf (spi > 0xFFFFFFFF ∨ spi < 0) "Spi must be in range 0x0-0xFFFFFFFF"
  fatalIf (ipIdx > 127 ∨ ipIdx < 0) "IP_Idx must be in range 0-127"
  let value ← lift (writeCommand (← readReg32 ipsrxidx) (some 0x2) idx)
  let ipIdx ← lift (setBits32 (← readReg32 ipsrxipidx) 6 0 ipIdx)
  writeRegs hardware [(ipsrxspi, some (bswap (bits spi)).toInt), (ipsrxipidx, some ipIdx)]
  writeReg32 hardware ipsrxidx (some value)

def rxGetSpi (idx : ℤ) : Access (ℤ × ℤ) := do
  fatalIf (idx > 1023 ∨ idx < 0) "Idx must be in range 0-1023"
  let value ← lift (readCommand (← readReg32 ipsrxidx) (some 0x2) idx)
  writeReg32 hardware ipsrxidx (some value)
  let spi ← readReg32 ipsrxspi
  let ipIdx ← readReg32 ipsrxipidx
  pure ((bswap (bits spi)).toInt, (bits ipIdx &&& 0x7f#32).toInt)

end Functions

/-! ## Command words -/

section Commands

variable {table : Table} {idx : ℤ}

/-- A part of a word is a number that has the same bits. -/
theorem toNat_extractLsb'_of_testBit {word : BitVec 32} {place width number : ℕ}
    (hnumber : number < 2 ^ width)
    (hbits : ∀ i < width, word.getLsbD (place + i) = number.testBit i) :
    (word.extractLsb' place width).toNat = number := by
  have heq : word.extractLsb' place width = BitVec.ofNat width number := by
    apply BitVec.eq_of_getLsbD_eq
    intro i hi
    rw [BitVec.getLsbD_extractLsb', BitVec.getLsbD_ofNat, hbits i hi]
  rw [heq, BitVec.toNat_ofNat, Nat.mod_eq_of_lt hnumber]

theorem selector_lt (table : Table) : ∀ number ∈ table.selector, number < 2 ^ 2 := by
  cases table <;> decide

/-- What the index register holds behind the fields stays. -/
theorem selectEntry_spec (previous : ℤ) (table : Table) {number : ℕ} (hnumber : number < 2 ^ 10) :
    ∃ value, selectEntry previous table.selector number = .ok value ∧
      (∀ i < 10, (bits value).getLsbD (3 + i) = number.testBit i) ∧
      (∀ selected ∈ table.selector, ∀ i < 2,
        (bits value).getLsbD (1 + i) = selected.testBit i) ∧
      ∀ i < 32, ¬ (3 ≤ i ∧ i ≤ 12) → (table.selector = none ∨ i ≠ 1 ∧ i ≠ 2) →
        (bits value).getLsbD i = (bits previous).getLsbD i := by
  have htable : ∃ value, selectTable previous table.selector = .ok value ∧
      (∀ selected ∈ table.selector, ∀ i < 2,
        (bits value).getLsbD (1 + i) = selected.testBit i) ∧
      ∀ i < 32, (table.selector = none ∨ i ≠ 1 ∧ i ≠ 2) →
        (bits value).getLsbD i = (bits previous).getLsbD i := by
    cases hselector : table.selector with
    | none => exact ⟨previous, rfl, by simp, fun _ _ _ => rfl⟩
    | some selected =>
        obtain ⟨value, hvalue, hbits⟩ := @setBits32_spec previous 2 1 selected (by decide)
          (by decide) (selector_lt table selected hselector)
        refine ⟨value, hvalue, ?_, ?_⟩
        · intro chosen hchosen i hi
          obtain rfl := Option.mem_some.mp hchosen
          rw [hbits (1 + i) (by omega), if_pos ⟨by omega, by omega⟩, Nat.add_sub_cancel_left]
        · intro i hi hkept
          have hne : i ≠ 1 ∧ i ≠ 2 := by simpa using hkept
          rw [hbits i hi, if_neg (by omega)]
  obtain ⟨selected, hselected, hfield, hothers⟩ := htable
  obtain ⟨value, hvalue, hbits⟩ := @setBits32_spec selected 12 3 number (by decide) (by decide)
    hnumber
  refine ⟨value, ?_, ?_, ?_, ?_⟩
  · rw [selectEntry, hselected]
    exact hvalue
  · intro i hi
    rw [hbits (3 + i) (by omega), if_pos ⟨by omega, by omega⟩, Nat.add_sub_cancel_left]
  · intro chosen hchosen i hi
    rw [hbits (1 + i) (by omega), if_neg (by omega), hfield chosen hchosen i hi]
  · intro i hi hindex hkept
    rw [hbits i hi, if_neg hindex, hothers i hi hkept]

/-- A command word, from the bits of what has been selected. -/
theorem wellFormed_of_bits {previous value word : ℤ} {stores : Bool} {number : ℕ}
    (hnumber : number < 2 ^ 10)
    (hindex : ∀ i < 10, (bits value).getLsbD (3 + i) = number.testBit i)
    (hselector : ∀ selected ∈ table.selector, ∀ i < 2,
      (bits value).getLsbD (1 + i) = selected.testBit i)
    (hkept : ∀ i < 32, ¬ (3 ≤ i ∧ i ≤ 12) → (table.selector = none ∨ i ≠ 1 ∧ i ≠ 2) →
      (bits value).getLsbD i = (bits previous).getLsbD i)
    (hwrite : (bits word).getLsbD 31 = stores) (hread : (bits word).getLsbD 30 = !stores)
    (hword : ∀ i < 30, (bits word).getLsbD i = (bits value).getLsbD i) :
    WellFormed (bits previous) table stores number (bits word) := by
  refine ⟨hwrite, hread, ?_, ?_, ?_⟩
  · rw [toNat_extractLsb'_of_testBit hnumber]
    intro i hi
    rw [hword _ (by omega), hindex i hi]
  · intro selected hselected
    apply toNat_extractLsb'_of_testBit (selector_lt table selected hselected)
    intro i hi
    rw [hword _ (by omega), hselector selected hselected i hi]
  · intro i hi hfield hother
    rw [hword i hi, hkept i (by omega) hfield hother]

theorem writeCommand_spec (previous : ℤ) (table : Table) (hlow : 0 ≤ idx) (hhigh : idx ≤ 1023) :
    ∃ word, writeCommand previous table.selector idx = .ok word ∧
      WellFormed (bits previous) table true idx (bits word) := by
  obtain ⟨number, rfl⟩ := Int.eq_ofNat_of_zero_le hlow
  have hnumber : number < 2 ^ 10 := by omega
  obtain ⟨value, hvalue, hindex, hselector, hkept⟩ := selectEntry_spec previous table hnumber
  obtain ⟨cleared, hcleared, hclear⟩ := clearBit32_spec value (show 30 < 32 by decide)
  obtain ⟨word, hword, hset⟩ := setBit32_spec cleared (show 31 < 32 by decide)
  refine ⟨word, ?_, wellFormed_of_bits hnumber hindex hselector hkept ?_ ?_ ?_⟩
  · rw [Nat.cast_ofNat] at hcleared hword
    simp only [writeCommand, hvalue, hcleared, hword, bind, Except.bind]
  · rw [hset 31 (by decide), if_pos rfl]
  · rw [hset 30 (by decide), if_neg (by decide), hclear 30 (by decide), if_pos rfl]
    rfl
  · intro i hi
    rw [hset i (by omega), if_neg (by omega), hclear i (by omega), if_neg (by omega)]

theorem readCommand_spec (previous : ℤ) (table : Table) (hlow : 0 ≤ idx) (hhigh : idx ≤ 1023) :
    ∃ word, readCommand previous table.selector idx = .ok word ∧
      WellFormed (bits previous) table false idx (bits word) := by
  obtain ⟨number, rfl⟩ := Int.eq_ofNat_of_zero_le hlow
  have hnumber : number < 2 ^ 10 := by omega
  obtain ⟨value, hvalue, hindex, hselector, hkept⟩ := selectEntry_spec previous table hnumber
  obtain ⟨marked, hmarked, hset⟩ := setBit32_spec value (show 30 < 32 by decide)
  obtain ⟨word, hword, hclear⟩ := clearBit32_spec marked (show 31 < 32 by decide)
  refine ⟨word, ?_, wellFormed_of_bits hnumber hindex hselector hkept ?_ ?_ ?_⟩
  · rw [Nat.cast_ofNat] at hmarked hword
    simp only [readCommand, hvalue, hmarked, hword, bind, Except.bind]
  · rw [hclear 31 (by decide), if_pos rfl]
  · rw [hclear 30 (by decide), if_neg (by decide), hset 30 (by decide), if_pos rfl]
    rfl
  · intro i hi
    rw [hclear i (by omega), if_neg (by omega), hset i (by omega), if_neg (by omega)]

/-- The command of `rx_get_key` is right if WRITE was clear before. -/
theorem rxGetKey_word_spec (previous : ℤ) (hlow : 0 ≤ idx) (hhigh : idx ≤ 1023) :
    ∃ value word, selectEntry previous (some 0x3) idx = .ok value ∧ setBit32 value 30 = .ok word ∧
      (WellFormed (bits previous) .rxKey false idx (bits word) ↔
        (bits previous).getLsbD 31 = false) := by
  obtain ⟨number, rfl⟩ := Int.eq_ofNat_of_zero_le hlow
  have hnumber : number < 2 ^ 10 := by omega
  obtain ⟨value, hvalue, hindex, hselector, hkept⟩ := selectEntry_spec previous .rxKey hnumber
  obtain ⟨word, hword, hset⟩ := setBit32_spec value (show 30 < 32 by decide)
  have hprevious : (bits word).getLsbD 31 = (bits previous).getLsbD 31 := by
    rw [hset 31 (by decide), if_neg (by decide),
      hkept 31 (by decide) (by decide) (.inr (by decide))]
  refine ⟨value, word, hvalue, hword, ?_⟩
  constructor
  · intro hcommand
    rw [← hprevious, hcommand.write]
  · intro hclear
    refine wellFormed_of_bits hnumber hindex hselector hkept (hprevious.trans hclear) ?_ ?_
    · rw [hset 30 (by decide), if_pos rfl]
      rfl
    · intro i hi
      rw [hset i (by omega), if_neg (by omega)]

end Commands

/-! ## Calls -/

inductive Call where
  | txSetKey (idx : ℤ) (key salt : String)
  | txGetKey (idx : ℤ)
  | rxSetKey (idx : ℤ) (key salt : String) (ipVer : ℤ) (proto : String) (decrypt : Option ℤ)
  | rxGetKey (idx : ℤ)
  | rxSetIp (idx : ℤ) (ipAddr : String)
  | rxGetIp (idx : ℤ) (isIpv4 : Option Bool)
  | rxSetSpi (idx spi ipIdx : ℤ)
  | rxGetSpi (idx : ℤ)

inductive Answer where
  | done
  | txKey (key salt : String)
  | rxKey (key : RxKey)
  | ip (ip : String) (isIpv4 : Bool)
  | spi (spi ipIdx : ℤ)
deriving DecidableEq

namespace Call

def table : Call → Table
  | txSetKey .. | txGetKey .. => .txKey
  | rxSetKey .. | rxGetKey .. => .rxKey
  | rxSetIp .. | rxGetIp .. => .rxIp
  | rxSetSpi .. | rxGetSpi .. => .rxSpi

def idx : Call → ℤ
  | txSetKey idx .. | txGetKey idx | rxSetKey idx .. | rxGetKey idx | rxSetIp idx _
  | rxGetIp idx _ | rxSetSpi idx .. | rxGetSpi idx => idx

/-- The call is one of a setter. -/
def stores : Call → Bool
  | txSetKey .. | rxSetKey .. | rxSetIp .. | rxSetSpi .. => true
  | _ => false

def run (hardware : Hardware) (inetPton : String → Option (List UInt8)) : Call → Access Answer
  | txSetKey idx key salt => do
      Ipsec.txSetKey hardware idx key salt
      pure .done
  | txGetKey idx => do
      let result ← Ipsec.txGetKey hardware idx
      pure (.txKey result.1 result.2)
  | rxSetKey idx key salt ipVer proto decrypt => do
      Ipsec.rxSetKey hardware idx key salt ipVer proto decrypt
      pure .done
  | rxGetKey idx => do
      let key ← Ipsec.rxGetKey hardware idx
      pure (.rxKey key)
  | rxSetIp idx ipAddr => do
      Ipsec.rxSetIp hardware inetPton idx ipAddr
      pure .done
  | rxGetIp idx isIpv4 => do
      let result ← Ipsec.rxGetIp hardware idx isIpv4
      pure (.ip result.1 result.2)
  | rxSetSpi idx spi ipIdx => do
      Ipsec.rxSetSpi hardware idx spi ipIdx
      pure .done
  | rxGetSpi idx => do
      let result ← Ipsec.rxGetSpi hardware idx
      pure (.spi result.1 result.2)

end Call

/-- A key and a salt that can be set. -/
def KeyText (key salt : String) : Prop :=
  key.toList.length = 32 ∧ salt.toList.length = 8 ∧
    ∀ part ∈ [sub key 1 8, sub key 9 16, sub key 17 24, sub key 25 32, salt],
      tonumber16 part ≠ none

instance (key salt : String) : Decidable (KeyText key salt) :=
  inferInstanceAs (Decidable (_ ∧ _))

/-- The arguments of the call are valid. -/
def Call.Valid (inetPton : String → Option (List UInt8)) : Call → Prop
  | .txSetKey idx key salt => (0 ≤ idx ∧ idx ≤ 1023) ∧ KeyText key salt
  | .rxSetKey idx key salt ipVer proto decrypt => (0 ≤ idx ∧ idx ≤ 1023) ∧ KeyText key salt ∧
      (ipVer = 4 ∨ ipVer = 6) ∧ (proto = "esp" ∨ proto = "ah") ∧
        (decrypt.getD 0 = 1 ∨ decrypt.getD 0 = 0)
  | .rxSetIp idx ipAddr => (0 ≤ idx ∧ idx ≤ 127) ∧ (parseIPAddress inetPton ipAddr).1 ≠ none
  | .rxGetIp idx _ => 0 ≤ idx ∧ idx ≤ 127
  | .rxSetSpi idx spi ipIdx => (0 ≤ idx ∧ idx ≤ 1023) ∧ (0 ≤ spi ∧ spi ≤ 0xFFFFFFFF) ∧
      (0 ≤ ipIdx ∧ ipIdx ≤ 127)
  | .txGetKey idx | .rxGetKey idx | .rxGetSpi idx => 0 ≤ idx ∧ idx ≤ 1023

instance (inetPton : String → Option (List UInt8)) (call : Call) :
    Decidable (call.Valid inetPton) :=
  match call with
  | .txSetKey .. | .rxSetKey .. | .rxSetIp .. | .rxGetIp .. | .rxSetSpi .. | .txGetKey _
  | .rxGetKey _ | .rxGetSpi _ => inferInstanceAs (Decidable (_ ∧ _))

end Libmoon.Ipsec
