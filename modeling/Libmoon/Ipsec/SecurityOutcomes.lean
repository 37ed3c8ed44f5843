import Libmoon.Ipsec.SecurityTables

/-! # What the table functions do

A setter with valid arguments stores one entry and leaves the others alone; with others it
stores nothing. A getter returns what it finds in the entry. This takes commands that are
well formed, and one of the getters does not always write such a command.
-/

namespace Libmoon.Ipsec

open Foundation Libmoon.Packet

/-- The last command of a call is well formed. -/
def Commands (table : Table) (stores : Bool) (idx : ℤ) (port port' : Port) : Prop :=
  ∃ word, port'.lastWrite table.indexRegister = some word ∧
    WellFormed (port.regs table.indexRegister) table stores idx word

/-- An entry has been set. -/
structure Sets (table : Table) (idx : ℤ) (good : Entry → Prop) (port port' : Port) : Prop where
  command : Commands table true idx port port'
  tables : ∃ entry, good entry ∧
    port'.tables = (port.setEntry table (BitVec.ofInt 10 idx) entry).tables

theorem Sets.mono {table : Table} {idx : ℤ} {good good' : Entry → Prop} {port port' : Port}
    (hsets : Sets table idx good port port') (hgood : ∀ entry, good entry → good' entry) :
    Sets table idx good' port port' := by
  obtain ⟨hcommand, entry, hentry, htables⟩ := hsets
  exact ⟨hcommand, entry, hgood entry hentry, htables⟩

/-- A word is the number that a string stands for. -/
def Holds (entry : Entry) (reg : ℕ) (text : String) : Prop :=
  ∃ number, tonumber16 text = some number ∧ entry reg = bits number

/-- The registers of a table hold a key and a salt. -/
structure HoldsKey (entry : Entry) (key3 key2 key1 key0 saltReg : ℕ) (key salt : String) :
    Prop where
  key3 : Holds entry key3 (sub key 1 8)
  key2 : Holds entry key2 (sub key 9 16)
  key1 : Holds entry key1 (sub key 17 24)
  key0 : Holds entry key0 (sub key 25 32)
  salt : Holds entry saltReg salt

section Setters

variable {hardware : Hardware} {inetPton : String → Option (List UInt8)} {port : Port} {idx : ℤ}

/-- The command of a setter is made from the one before. -/
theorem outcome_command_bind {β : Type} (table : Table) {next : ℤ → Access β} {returns : Prop}
    {post : β → Port → Prop} {stopped : Port → Prop} (hlow : 0 ≤ idx) (hhigh : idx ≤ 1023)
    (hnext : ∀ value, WellFormed (port.regs table.indexRegister) table true idx (bits value) →
      Outcome (next value) port returns post stopped) :
    Outcome (do
        let value ← lift (writeCommand (← readReg32 table.indexRegister) table.selector idx)
        next value) port returns post stopped := by
  refine outcome_readReg32_bind ?_
  refine outcome_lift_bind (writeCommand_spec _ table hlow hhigh) fun value hcommand => ?_
  rw [bits_toNat] at hcommand
  exact hnext value hcommand

/-- Prepare the registers of a table and store them. -/
theorem outcome_set {table : Table} {values : List (ℕ × Option ℤ)} {value : ℤ} {before : Port}
    (hvalues : values.map Prod.fst = table.window) (hbefore : before.tables = port.tables)
    (hcommand : WellFormed (port.regs table.indexRegister) table true idx (bits value)) :
    Outcome (do
        writeRegs hardware values
        writeReg32 hardware table.indexRegister (some value)) before
      (∀ val ∈ values.map Prod.snd, val ≠ none)
      (fun _ port' => Sets table idx
        (fun entry => ∀ reg val, (reg, some val) ∈ values → entry reg = bits val) port port')
      (fun port' => port'.tables = port.tables) := by
  have hnodup : (values.map Prod.fst).Nodup := by
    rw [hvalues]
    cases table <;> decide
  have hregs : ∀ reg ∈ values.map Prod.fst, reg ≠ ipstxidx ∧ reg ≠ ipsrxidx := by
    rw [hvalues]
    cases table <;> decide
  have hstage : Outcome (writeRegs hardware values) before
      (∀ val ∈ values.map Prod.snd, val ≠ none) (fun _ staged => Staged values before staged)
      (fun port' => port'.tables = port.tables) := by
    rw [← hbefore]
    exact outcome_writeRegs hregs
  have hstore : ∀ staged, Staged values before staged →
      Outcome (writeReg32 hardware table.indexRegister (some value)) staged True
        (fun _ port' => Sets table idx
          (fun entry => ∀ reg val, (reg, some val) ∈ values → entry reg = bits val) port port')
        (fun port' => port'.tables = port.tables) := by
    intro staged hstaged
    refine (outcome_store hcommand).mono Iff.rfl fun _ port' _ hport' => ?_
    refine ⟨⟨bits value, hport'.1, hcommand⟩,
      Function.update staged.regs table.indexRegister (bits value), ?_, ?_⟩
    · intro reg val hmem
      have hreg : reg ∈ table.window := hvalues ▸ List.mem_map_of_mem hmem
      have hne : reg ≠ table.indexRegister :=
        fun heq => indexRegister_not_mem_window table (heq ▸ hreg)
      rw [Function.update_of_ne hne]
      exact hstaged.values hnodup reg val hmem
    · rw [hport'.2]
      simp only [Card.setEntry, hstaged.tables, hbefore]
  exact .of_iff (and_iff_left trivial) (hstage.bind fun _ => hstore)

theorem keyText_iff {key3 key2 key1 key0 saltReg : ℕ} {key salt : String} :
    KeyText key salt ↔ ¬ (key.toList.length ≠ 32) ∧ ¬ (salt.toList.length ≠ 8) ∧
      ∀ val ∈ (keyValues key3 key2 key1 key0 saltReg key salt).map Prod.snd, val ≠ none := by
  simp [KeyText, keyValues]

theorem holdsKey_of_values {entry : Entry} {key3 key2 key1 key0 saltReg : ℕ} {key salt : String}
    (htext : KeyText key salt)
    (hvalues : ∀ reg val, (reg, some val) ∈ keyValues key3 key2 key1 key0 saltReg key salt →
      entry reg = bits val) :
    HoldsKey entry key3 key2 key1 key0 saltReg key salt := by
  have hholds : ∀ reg part, (reg, tonumber16 part) ∈
      keyValues key3 key2 key1 key0 saltReg key salt → tonumber16 part ≠ none →
        Holds entry reg part := by
    intro reg part hmem hsome
    obtain ⟨number, hnumber⟩ := Option.ne_none_iff_exists'.mp hsome
    exact ⟨number, hnumber, hvalues reg number (hnumber ▸ hmem)⟩
  simp only [KeyText, List.forall_mem_cons] at htext
  obtain ⟨-, -, hkey3, hkey2, hkey1, hkey0, hsalt, -⟩ := htext
  exact ⟨hholds _ _ (by simp [keyValues]) hkey3, hholds _ _ (by simp [keyValues]) hkey2,
    hholds _ _ (by simp [keyValues]) hkey1, hholds _ _ (by simp [keyValues]) hkey0,
    hholds _ _ (by simp [keyValues]) hsalt⟩

theorem outcome_txSetKey (key salt : String) :
    Outcome (txSetKey hardware idx key salt) port ((0 ≤ idx ∧ idx ≤ 1023) ∧ KeyText key salt)
      (fun _ port' => Sets .txKey idx (fun entry =>
        HoldsKey entry ipstxkey3 ipstxkey2 ipstxkey1 ipstxkey0 ipstxsalt key salt) port port')
      (fun port' => port'.tables = port.tables) := by
  have houtcome : Outcome (txSetKey hardware idx key salt) port
      (¬ (idx > 1023 ∨ idx < 0) ∧ ¬ (key.toList.length ≠ 32) ∧ ¬ (salt.toList.length ≠ 8) ∧
        ∀ val ∈ (keyValues ipstxkey3 ipstxkey2 ipstxkey1 ipstxkey0 ipstxsalt key salt).map
          Prod.snd, val ≠ none)
      (fun _ port' => Sets .txKey idx (fun entry => ∀ reg val, (reg, some val) ∈
        keyValues ipstxkey3 ipstxkey2 ipstxkey1 ipstxkey0 ipstxsalt key salt →
          entry reg = bits val) port port')
      (fun port' => port'.tables = port.tables) := by
    refine outcome_fatalIf_bind rfl fun hidx => outcome_fatalIf_bind rfl fun _ =>
      outcome_fatalIf_bind rfl fun _ => ?_
    refine outcome_command_bind .txKey (by omega) (by omega) fun value hcommand => ?_
    exact @outcome_set hardware port idx .txKey _ value port rfl rfl hcommand
  rw [← keyText_iff] at houtcome
  refine houtcome.mono (and_congr_left' (by omega)) fun _ port' hreturns hsets => ?_
  exact hsets.mono fun entry hvalues => holdsKey_of_values hreturns.2 hvalues

/-- The flags of a security association. -/
structure HoldsMode (entry : Entry) (ipVer : ℤ) (proto : String) (decrypt : Option ℤ) : Prop where
  valid : (entry ipsrxmod).getLsbD 0 = true
  proto : (entry ipsrxmod).getLsbD 2 = decide (proto = "esp")
  decrypt : (entry ipsrxmod).getLsbD 3 = decide (decrypt.getD 0 = 1)
  ipv6 : (entry ipsrxmod).getLsbD 4 = decide (ipVer = 6)

theorem setBits32_flag (reg32 : ℤ) {place : ℕ} (hplace : place < 32) (flag : Prop)
    [Decidable flag] :
    ∃ value, setBits32 reg32 place place ((if flag then 1 else 0 : ℕ) : ℤ) = .ok value ∧
      ∀ i < 32, (bits value).getLsbD i =
        if i = place then decide flag else (bits reg32).getLsbD i := by
  have hlt : (if flag then 1 else 0 : ℕ) < 2 ^ (place - place + 1) := by
    rw [Nat.sub_self]
    split <;> decide
  obtain ⟨value, hvalue, hbits⟩ := setBits32_spec reg32 (Nat.le_refl place) hplace hlt
  refine ⟨value, hvalue, fun i hi => ?_⟩
  rw [hbits i hi]
  by_cases heq : i = place
  · rw [if_pos (by omega), if_pos heq, heq, Nat.sub_self]
    split
    next hflag => simp [hflag]
    next hflag => simp [hflag]
  · rw [if_neg (by omega), if_neg heq]

theorem outcome_mode_bind {β : Type} {ipVer : ℤ} {proto : String} {decrypt : Option ℤ}
    (hipVer : ipVer = 4 ∨ ipVer = 6) (hdecrypt : decrypt.getD 0 = 1 ∨ decrypt.getD 0 = 0)
    {next : ℤ → Access β} {returns : Prop} {post : β → Port → Prop} {stopped : Port → Prop}
    (hnext : ∀ mode, (∀ entry : Entry, entry ipsrxmod = bits mode →
      HoldsMode entry ipVer proto decrypt) → Outcome (next mode) port returns post stopped) :
    Outcome (do
        let mode ← lift (setBit32 (← readReg32 ipsrxmod) 0)
        let mode ← lift (setBits32 mode 2 2 (if proto = "esp" then 1 else 0 : ℕ))
        let mode ← lift (setBits32 mode 3 3 (decrypt.getD 0))
        let mode ← lift (setBits32 mode 4 4 (if ipVer = 4 then 0 else 1 : ℕ))
        next mode) port returns post stopped := by
  have hvalid := setBit32_spec (port.regs ipsrxmod).toNat (show 0 < 32 by decide)
  have hproto (mode : ℤ) := setBits32_flag mode (show 2 < 32 by decide) (proto = "esp")
  have hmode (mode : ℤ) := setBits32_flag mode (show 3 < 32 by decide) (decrypt.getD 0 = 1)
  have hversion (mode : ℤ) := setBits32_flag mode (show 4 < 32 by decide) (¬ ipVer = 4)
  have hespMode : ((if decrypt.getD 0 = 1 then 1 else 0 : ℕ) : ℤ) = decrypt.getD 0 := by
    split
    next hone => rw [hone, Nat.cast_one]
    next hone =>
      rw [Nat.cast_zero]
      omega
  rw [Nat.cast_zero] at hvalid
  simp only [Nat.cast_ofNat, hespMode, ite_not] at hproto hmode hversion
  refine outcome_readReg32_bind (outcome_lift_bind hvalid ?_)
  intro validMode hvalidBits
  refine outcome_lift_bind (hproto validMode) ?_
  intro protoMode hprotoBits
  refine outcome_lift_bind (hmode protoMode) ?_
  intro decryptMode hdecryptBits
  refine outcome_lift_bind (hversion decryptMode) ?_
  intro mode hmodeBits
  -- later fields leave the earlier ones alone
  refine hnext mode fun entry hreg => ⟨?_, ?_, ?_, ?_⟩
  · rw [hreg, hmodeBits 0 (by decide), if_neg (by decide), hdecryptBits 0 (by decide),
      if_neg (by decide), hprotoBits 0 (by decide), if_neg (by decide),
      hvalidBits 0 (by decide), if_pos rfl]
  · rw [hreg, hmodeBits 2 (by decide), if_neg (by decide), hdecryptBits 2 (by decide),
      if_neg (by decide), hprotoBits 2 (by decide), if_pos rfl]
  · rw [hreg, hmodeBits 3 (by decide), if_neg (by decide), hdecryptBits 3 (by decide),
      if_pos rfl]
  · rw [hreg, hmodeBits 4 (by decide), if_pos rfl]
    exact decide_eq_decide.mpr (by omega)

theorem outcome_rxSetKey (key salt : String) (ipVer : ℤ) (proto : String) (decrypt : Option ℤ) :
    Outcome (rxSetKey hardware idx key salt ipVer proto decrypt) port
      ((0 ≤ idx ∧ idx ≤ 1023) ∧ KeyText key salt ∧ (ipVer = 4 ∨ ipVer = 6) ∧
        (proto = "esp" ∨ proto = "ah") ∧ (decrypt.getD 0 = 1 ∨ decrypt.getD 0 = 0))
      (fun _ port' => Sets .rxKey idx (fun entry =>
        HoldsKey entry ipsrxkey3 ipsrxkey2 ipsrxkey1 ipsrxkey0 ipsrxsalt key salt ∧
          HoldsMode entry ipVer proto decrypt) port port')
      (fun port' => port'.tables = port.tables) := by
  have houtcome : Outcome (rxSetKey hardware idx key salt ipVer proto decrypt) port
      (¬ (idx > 1023 ∨ idx < 0) ∧ ¬ (key.toList.length ≠ 32) ∧ ¬ (salt.toList.length ≠ 8) ∧
        ¬ (ipVer ≠ 4 ∧ ipVer ≠ 6) ∧ ¬ (proto ≠ "esp" ∧ proto ≠ "ah") ∧
        ¬ (decrypt.getD 0 ≠ 1 ∧ decrypt.getD 0 ≠ 0) ∧
        ∀ val ∈ (keyValues ipsrxkey3 ipsrxkey2 ipsrxkey1 ipsrxkey0 ipsrxsalt key salt).map
          Prod.snd, val ≠ none)
      (fun _ port' => Sets .rxKey idx (fun entry => (∀ reg val, (reg, some val) ∈
        keyValues ipsrxkey3 ipsrxkey2 ipsrxkey1 ipsrxkey0 ipsrxsalt key salt →
          entry reg = bits val) ∧ HoldsMode entry ipVer proto decrypt) port port')
      (fun port' => port'.tables = port.tables) := by
    refine outcome_fatalIf_bind rfl fun hidx => outcome_fatalIf_bind rfl fun _ =>
      outcome_fatalIf_bind rfl fun _ => outcome_fatalIf_bind rfl fun hipVer =>
      outcome_fatalIf_bind rfl fun _ => outcome_fatalIf_bind rfl fun hdecrypt => ?_
    refine outcome_command_bind .rxKey (by omega) (by omega) fun value hcommand => ?_
    refine outcome_mode_bind (by omega) (by omega) ?_
    intro mode hmode
    refine (@outcome_set hardware port idx .rxKey _ value port rfl rfl hcommand).mono
      (by simp [keyValues]) fun _ port' _ hsets => ?_
    refine hsets.mono fun entry hentry => ⟨?_, ?_⟩
    · exact fun reg val hmem => hentry reg val (List.mem_append_left _ hmem)
    · exact hmode entry (hentry ipsrxmod mode (by simp))
  refine houtcome.mono ?_ fun _ port' hreturns hsets => ?_
  · constructor
    · rintro ⟨hidx, hkey, hsalt, hipVer, hproto, hdecrypt, hvalues⟩
      exact ⟨by omega, keyText_iff.mpr ⟨hkey, hsalt, hvalues⟩, by omega, by tauto, by omega⟩
    · rintro ⟨hidx, htext, hipVer, hproto, hdecrypt⟩
      obtain ⟨hkey, hsalt, hvalues⟩ := keyText_iff.mp htext
      exact ⟨by omega, hkey, hsalt, by omega, by tauto, by omega, hvalues⟩
  · obtain ⟨-, hkey, hsalt, -, -, -, hvalues⟩ := hreturns
    have htext := keyText_iff.mpr ⟨hkey, hsalt, hvalues⟩
    exact hsets.mono fun entry hentry => ⟨holdsKey_of_values htext hentry.1, hentry.2⟩

/-- The words of an address are in the registers. -/
def HoldsIp (entry : Entry) (words : List ℤ) : Prop :=
  ∃ ip3 ip2 ip1 ip0, words = [ip3, ip2, ip1, ip0] ∧ entry ipsrxipaddr3 = bits ip3 ∧
    entry ipsrxipaddr2 = bits ip2 ∧ entry ipsrxipaddr1 = bits ip1 ∧ entry ipsrxipaddr0 = bits ip0

theorem ipWords_some (address : IpAddress) :
    ∃ ip3 ip2 ip1 ip0, ipWords (some address) = .ok [ip3, ip2, ip1, ip0] := by
  cases address with
  | ip4 ip => exact ⟨_, _, _, _, rfl⟩
  | ip6 ip => exact ⟨_, _, _, _, rfl⟩

theorem outcome_rxSetIp (ipAddr : String) :
    Outcome (rxSetIp hardware inetPton idx ipAddr) port
      ((0 ≤ idx ∧ idx ≤ 127) ∧ (parseIPAddress inetPton ipAddr).1 ≠ none)
      (fun _ port' => Sets .rxIp idx (fun entry => ∃ words,
        ipWords (parseIPAddress inetPton ipAddr).1 = .ok words ∧ HoldsIp entry words) port port')
      (fun port' => port'.tables = port.tables) := by
  have hiff : ¬ (idx > 127 ∨ idx < 0) ∧ (parseIPAddress inetPton ipAddr).1 ≠ none ↔
      (0 ≤ idx ∧ idx ≤ 127) ∧ (parseIPAddress inetPton ipAddr).1 ≠ none :=
    and_congr_left' (by omega)
  refine .of_iff hiff ?_
  refine outcome_fatalIf_bind rfl fun hidx => ?_
  cases hparse : (parseIPAddress inetPton ipAddr).1 with
  | none => exact .of_error rfl (not_not_intro rfl) rfl
  | some address =>
      obtain ⟨ip3, ip2, ip1, ip0, hwords⟩ := ipWords_some address
      have hlift : ∃ words, ipWords (some address) = .ok words ∧ words = [ip3, ip2, ip1, ip0] :=
        ⟨_, hwords, rfl⟩
      refine outcome_lift_bind hlift ?_
      rintro _ rfl
      refine outcome_command_bind .rxIp (by omega) (by omega) fun value hcommand => ?_
      refine (@outcome_set hardware port idx .rxIp _ value port rfl rfl hcommand).mono
        (by simp) fun _ port' _ hsets => ?_
      refine hsets.mono fun entry hentry => ⟨_, hwords, ip3, ip2, ip1, ip0, rfl, ?_⟩
      exact ⟨hentry _ _ (by simp), hentry _ _ (by simp), hentry _ _ (by simp),
        hentry _ _ (by simp)⟩

theorem outcome_rxSetSpi (spi ipIdx : ℤ) :
    Outcome (rxSetSpi hardware idx spi ipIdx) port
      ((0 ≤ idx ∧ idx ≤ 1023) ∧ (0 ≤ spi ∧ spi ≤ 0xFFFFFFFF) ∧ (0 ≤ ipIdx ∧ ipIdx ≤ 127))
      (fun _ port' => Sets .rxSpi idx (fun entry => entry ipsrxspi = bswap (bits spi) ∧
        ((entry ipsrxipidx &&& 0x7f#32).toNat : ℤ) = ipIdx) port port')
      (fun port' => port'.tables = port.tables) := by
  have hiff : ¬ (idx > 1023 ∨ idx < 0) ∧ ¬ (spi > 0xFFFFFFFF ∨ spi < 0) ∧
      ¬ (ipIdx > 127 ∨ ipIdx < 0) ∧ True ↔
        (0 ≤ idx ∧ idx ≤ 1023) ∧ (0 ≤ spi ∧ spi ≤ 0xFFFFFFFF) ∧ (0 ≤ ipIdx ∧ ipIdx ≤ 127) := by
    rw [and_true]
    omega
  refine .of_iff hiff ?_
  refine outcome_fatalIf_bind rfl fun hidx => outcome_fatalIf_bind rfl fun _ =>
    outcome_fatalIf_bind rfl fun hipIdx => ?_
  refine outcome_command_bind .rxSpi (by omega) (by omega) fun value hcommand => ?_
  obtain ⟨number, rfl⟩ := Int.eq_ofNat_of_zero_le (show 0 ≤ ipIdx by omega)
  have hfield := @setBits32_spec (port.regs ipsrxipidx).toNat 6 0 number (by decide) (by decide)
    (show number < 2 ^ 7 by omega)
  rw [Nat.cast_ofNat, Nat.cast_zero] at hfield
  refine outcome_readReg32_bind (outcome_lift_bind hfield ?_)
  intro field hbits
  refine (@outcome_set hardware port idx .rxSpi _ value port rfl rfl hcommand).mono
    (by simp) fun _ port' _ hsets => ?_
  refine hsets.mono fun entry hentry => ⟨?_, ?_⟩
  · rw [hentry ipsrxspi _ List.mem_cons_self, bits_toInt]
  · have hfield : ((bits field).extractLsb' 0 7).toNat = number := by
      apply toNat_extractLsb'_of_testBit (by omega)
      intro i hi
      rw [hbits (0 + i) (by omega), if_pos ⟨by omega, by omega⟩, Nat.zero_add, Nat.sub_zero]
    have hmask : (0x7f#32).toNat = 2 ^ 7 - 1 := rfl
    rw [BitVec.extractLsb'_toNat, Nat.shiftRight_zero] at hfield
    rw [hentry ipsrxipidx field (by simp), BitVec.toNat_and, hmask,
      Nat.and_two_pow_sub_one_eq_mod, hfield]

end Setters

/-- An entry has been read. -/
structure Gets (table : Table) (idx : ℤ) (port port' : Port) : Prop where
  command : Commands table false idx port port'
  tables : port'.tables = port.tables
  regs : ∀ reg ∈ table.window, port'.regs reg = port.tables table (BitVec.ofInt 10 idx) reg

/-- The string that is made of the words of a key. -/
def keyString (entry : Entry) (key3 key2 key1 key0 : ℕ) : String :=
  uhex32 (entry key3).toNat ++ uhex32 (entry key2).toNat ++ uhex32 (entry key1).toNat ++
    uhex32 (entry key0).toNat

/-- What `rx_get_key` makes of an entry. -/
def rxKeyOf (entry : Entry) : RxKey where
  key := keyString entry ipsrxkey3 ipsrxkey2 ipsrxkey1 ipsrxkey0
  salt := uhex32 (entry ipsrxsalt).toNat
  valid := ((entry ipsrxmod &&& 0x01#32) >>> 0).toInt
  proto := ((entry ipsrxmod &&& 0x04#32) >>> 2).toInt
  decrypt := ((entry ipsrxmod &&& 0x08#32) >>> 3).toInt
  ipv6 := ((entry ipsrxmod &&& 0x10#32) >>> 4).toInt

section Getters

variable {hardware : Hardware} {port : Port} {idx : ℤ} {stopped : Port → Prop}

/-- The check of an index, and a program after it that returns always. -/
theorem outcome_checkIdx_bind {β : Type} {bound : ℤ} {message : String} {next : Unit → Access β}
    {post : β → Port → Prop} (hport : stopped port)
    (hnext : 0 ≤ idx → idx ≤ bound → Outcome (next ()) port True post stopped) :
    Outcome (fatalIf (idx > bound ∨ idx < 0) message >>= next) port (0 ≤ idx ∧ idx ≤ bound) post
      stopped := by
  have hiff : ¬ (idx > bound ∨ idx < 0) ∧ True ↔ 0 ≤ idx ∧ idx ≤ bound := by
    rw [and_true]
    omega
  refine .of_iff hiff (outcome_fatalIf_bind hport fun hidx => ?_)
  exact hnext (by omega) (by omega)

/-- The command of a getter and what it loads. -/
theorem outcome_get {β : Type} (table : Table) {next : Unit → Access β} {post : β → Port → Prop}
    (hlow : 0 ≤ idx) (hhigh : idx ≤ 1023)
    (hnext : ∀ port', Gets table idx port port' → Outcome (next ()) port' True post stopped) :
    Outcome (do
        let value ← lift (readCommand (← readReg32 table.indexRegister) table.selector idx)
        writeReg32 hardware table.indexRegister (some value) >>= next) port True post stopped := by
  refine outcome_readReg32_bind ?_
  refine outcome_lift_bind (readCommand_spec _ table hlow hhigh) ?_
  intro value hcommand
  rw [bits_toNat] at hcommand
  refine (outcome_load table value).bind_of_returns fun _ port' hport' => ?_
  obtain ⟨htables, hregs⟩ := hport'.2 _ idx hcommand
  exact hnext port' ⟨⟨bits value, hport'.1, hcommand⟩, htables, hregs⟩

theorem outcome_txGetKey (hport : stopped port) :
    Outcome (txGetKey hardware idx) port (0 ≤ idx ∧ idx ≤ 1023)
      (fun answer port' => Gets .txKey idx port port' ∧ answer =
        (keyString (port.tables .txKey (BitVec.ofInt 10 idx)) ipstxkey3 ipstxkey2 ipstxkey1
            ipstxkey0, uhex32 (port.tables .txKey (BitVec.ofInt 10 idx) ipstxsalt).toNat))
      stopped := by
  refine outcome_checkIdx_bind hport fun hlow hhigh => ?_
  refine @outcome_get hardware port idx stopped _ .txKey _ _ hlow hhigh ?_
  intro port' hgets
  refine .of_ok rfl trivial ⟨hgets, ?_⟩
  have hregs := hgets.regs
  simp only [Table.window, List.forall_mem_cons] at hregs
  obtain ⟨hkey3, hkey2, hkey1, hkey0, hsalt, -⟩ := hregs
  rw [keyString, ← hkey3, ← hkey2, ← hkey1, ← hkey0, ← hsalt]

theorem outcome_rxGetIp (isIpv4 : Option Bool) (hport : stopped port) :
    Outcome (rxGetIp hardware idx isIpv4) port (0 ≤ idx ∧ idx ≤ 127)
      (fun answer port' => Gets .rxIp idx port port' ∧ answer =
        (ipString (isIpv4.getD true) (port.tables .rxIp (BitVec.ofInt 10 idx) ipsrxipaddr3)
          (port.tables .rxIp (BitVec.ofInt 10 idx) ipsrxipaddr2)
          (port.tables .rxIp (BitVec.ofInt 10 idx) ipsrxipaddr1)
          (port.tables .rxIp (BitVec.ofInt 10 idx) ipsrxipaddr0), isIpv4.getD true)) stopped := by
  refine outcome_checkIdx_bind hport fun hlow hhigh => ?_
  refine @outcome_get hardware port idx stopped _ .rxIp _ _ hlow (by omega) ?_
  intro port' hgets
  refine .of_ok rfl trivial ⟨hgets, ?_⟩
  have hregs := hgets.regs
  simp only [Table.window, List.forall_mem_cons] at hregs
  obtain ⟨hip3, hip2, hip1, hip0, -⟩ := hregs
  simp only [bits_toNat, hip3, hip2, hip1, hip0]

theorem outcome_rxGetSpi (hport : stopped port) :
    Outcome (rxGetSpi hardware idx) port (0 ≤ idx ∧ idx ≤ 1023)
      (fun answer port' => Gets .rxSpi idx port port' ∧ answer =
        ((bswap (port.tables .rxSpi (BitVec.ofInt 10 idx) ipsrxspi)).toInt,
          (port.tables .rxSpi (BitVec.ofInt 10 idx) ipsrxipidx &&& 0x7f#32).toInt)) stopped := by
  refine outcome_checkIdx_bind hport fun hlow hhigh => ?_
  refine @outcome_get hardware port idx stopped _ .rxSpi _ _ hlow hhigh ?_
  intro port' hgets
  refine .of_ok rfl trivial ⟨hgets, ?_⟩
  have hregs := hgets.regs
  simp only [Table.window, List.forall_mem_cons] at hregs
  obtain ⟨hspi, hipIdx, -⟩ := hregs
  simp only [bits_toNat, hspi, hipIdx]

/-- Where WRITE was set before, the command asks for both. -/
theorem outcome_rxGetKey (hport : stopped port) :
    Outcome (rxGetKey hardware idx) port (0 ≤ idx ∧ idx ≤ 1023)
      (fun answer port' =>
        (Commands .rxKey false idx port port' ↔ (port.regs ipsrxidx).getLsbD 31 = false) ∧
          ((port.regs ipsrxidx).getLsbD 31 = false → Gets .rxKey idx port port' ∧
            answer = rxKeyOf (port.tables .rxKey (BitVec.ofInt 10 idx)))) stopped := by
  refine outcome_checkIdx_bind hport fun hlow hhigh => ?_
  refine outcome_readReg32_bind ?_
  obtain ⟨value, word, hvalue, hword, hcommand⟩ :=
    rxGetKey_word_spec (port.regs ipsrxidx).toNat hlow hhigh
  rw [bits_toNat] at hcommand
  refine outcome_lift_bind ⟨value, hvalue, rfl⟩ ?_
  rintro _ rfl
  refine outcome_lift_bind ⟨word, hword, rfl⟩ ?_
  rintro _ rfl
  have hcleared := clearBit32_spec word (show 31 < 32 by decide)
  rw [Nat.cast_ofNat] at hcleared
  refine outcome_lift_bind hcleared fun _ _ => ?_
  refine (outcome_load .rxKey word).bind_of_returns fun _ port' hport' => ?_
  refine .of_ok rfl trivial ⟨?_, fun hclear => ?_⟩
  · rw [← hcommand]
    constructor
    · rintro ⟨written, hwritten, hformed⟩
      rw [hport'.1] at hwritten
      cases hwritten
      exact hformed
    · exact fun hformed => ⟨bits word, hport'.1, hformed⟩
  · have hformed := hcommand.mpr hclear
    obtain ⟨htables, hregs⟩ := hport'.2 _ idx hformed
    refine ⟨⟨⟨bits word, hport'.1, hformed⟩, htables, hregs⟩, ?_⟩
    simp only [Table.window, List.forall_mem_cons] at hregs
    obtain ⟨hkey3, hkey2, hkey1, hkey0, hsalt, hmod, -⟩ := hregs
    simp only [rxKeyOf, keyString, bits_toNat, hkey3, hkey2, hkey1, hkey0, hsalt, hmod]

end Getters

end Libmoon.Ipsec
