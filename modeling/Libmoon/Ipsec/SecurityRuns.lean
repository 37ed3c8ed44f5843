import Libmoon.Foundation.Machine
import Libmoon.Ipsec.SecurityOutcomes

/-! # Runs of table calls

Over a run of calls to the setters and getters of one port, a getter returns what the last
setter for its entry has stored. Two things are needed for this. WRITE has to be clear in the
index register before a key is read from the table of received packets, because the command
takes it over; and security parameter indices have to be positive as signed numbers.
-/

namespace Libmoon.Ipsec

open Foundation Libmoon.Packet

variable {hardware : Hardware} {inetPton : String → Option (List UInt8)} {port : Port}

/-! ## What is stored and what is returned -/

/-- The entry is the one that a setter stores. -/
def Stored (inetPton : String → Option (List UInt8)) (entry : Entry) : Call → Prop
  | .txSetKey _ key salt =>
      HoldsKey entry ipstxkey3 ipstxkey2 ipstxkey1 ipstxkey0 ipstxsalt key salt
  | .rxSetKey _ key salt ipVer proto decrypt =>
      HoldsKey entry ipsrxkey3 ipsrxkey2 ipsrxkey1 ipsrxkey0 ipsrxsalt key salt ∧
        HoldsMode entry ipVer proto decrypt
  | .rxSetIp _ ipAddr =>
      ∃ words, ipWords (parseIPAddress inetPton ipAddr).1 = .ok words ∧ HoldsIp entry words
  | .rxSetSpi _ spi ipIdx => entry ipsrxspi = bswap (bits spi) ∧
      ((entry ipsrxipidx &&& 0x7f#32).toNat : ℤ) = ipIdx
  | _ => False

/-- What a getter makes of an entry. -/
def answerOf (entry : Entry) : Call → Answer
  | .txGetKey _ => .txKey (keyString entry ipstxkey3 ipstxkey2 ipstxkey1 ipstxkey0)
      (uhex32 (entry ipstxsalt).toNat)
  | .rxGetKey _ => .rxKey (rxKeyOf entry)
  | .rxGetIp _ isIpv4 => .ip (ipString (isIpv4.getD true) (entry ipsrxipaddr3) (entry ipsrxipaddr2)
      (entry ipsrxipaddr1) (entry ipsrxipaddr0)) (isIpv4.getD true)
  | .rxGetSpi _ => .spi (bswap (entry ipsrxspi)).toInt (entry ipsrxipidx &&& 0x7f#32).toInt
  | _ => .done

/-- WRITE is clear before a key of received packets is read. -/
def WriteClear (port : Port) : Call → Prop
  | .rxGetKey _ => (port.regs ipsrxidx).getLsbD 31 = false
  | _ => True

instance (port : Port) (call : Call) : Decidable (WriteClear port call) :=
  match call with
  | .rxGetKey _ => inferInstanceAs (Decidable (_ = _))
  | .txSetKey .. | .rxSetKey .. | .rxSetIp .. | .rxGetIp .. | .rxSetSpi .. | .txGetKey _
  | .rxGetSpi _ => isTrue trivial

/-- What a valid call does. -/
structure Performs (inetPton : String → Option (List UInt8)) (call : Call) (port : Port)
    (answer : Answer) (port' : Port) : Prop where
  command : Commands call.table call.stores call.idx port port' ↔ WriteClear port call
  set : call.stores = true → ∃ entry, Stored inetPton entry call ∧
    port'.tables = (port.setEntry call.table (BitVec.ofInt 10 call.idx) entry).tables
  get : call.stores = false → WriteClear port call → port'.tables = port.tables ∧
    answer = answerOf (port.tables call.table (BitVec.ofInt 10 call.idx)) call

theorem Performs.of_sets {call : Call} {answer : Answer} {port' : Port}
    (hstores : call.stores = true) (hclear : WriteClear port call)
    (hsets : Sets call.table call.idx (fun entry => Stored inetPton entry call) port port') :
    Performs inetPton call port answer port' := by
  refine ⟨iff_of_true ?_ hclear, fun _ => hsets.tables, fun hnot => ?_⟩
  · rw [hstores]
    exact hsets.command
  · rw [hstores] at hnot
    cases hnot

theorem Performs.of_gets {call : Call} {answer : Answer} {port' : Port}
    (hstores : call.stores = false) (hclear : WriteClear port call)
    (hgets : Gets call.table call.idx port port')
    (hanswer : answer = answerOf (port.tables call.table (BitVec.ofInt 10 call.idx)) call) :
    Performs inetPton call port answer port' := by
  refine ⟨iff_of_true ?_ hclear, fun hset => ?_, fun _ _ => ⟨hgets.tables, hanswer⟩⟩
  · rw [hstores]
    exact hgets.command
  · rw [hstores] at hset
    cases hset

/-- Return something made of the value. -/
theorem outcome_return {α β : Type} {program : Access α} {answer : α → β} {returns : Prop}
    {post : α → Port → Prop} {post' : β → Port → Prop} {stopped : Port → Prop}
    (houtcome : Outcome program port returns post stopped)
    (hpost : ∀ value port', post value port' → post' (answer value) port') :
    Outcome (do
      let value ← program
      pure (answer value)) port returns post' stopped := by
  have hnext : ∀ value port', post value port' →
      Outcome (pure (answer value) : Access β) port' True post' stopped :=
    fun value port' hvalue => .of_ok rfl trivial (hpost value port' hvalue)
  exact .of_iff (and_iff_left trivial) (houtcome.bind hnext)

/-- A call returns exactly if its arguments are valid; otherwise the tables stay. -/
theorem outcome_run (call : Call) :
    Outcome (call.run hardware inetPton) port (call.Valid inetPton)
      (Performs inetPton call port) (fun port' => port'.tables = port.tables) := by
  cases call with
  | txSetKey idx key salt =>
      exact outcome_return (outcome_txSetKey key salt) fun _ _ hsets => .of_sets rfl trivial hsets
  | txGetKey idx =>
      refine outcome_return (outcome_txGetKey rfl) fun answer port' hgets => ?_
      exact .of_gets rfl trivial hgets.1 (by rw [hgets.2]; rfl)
  | rxSetKey idx key salt ipVer proto decrypt =>
      exact outcome_return (outcome_rxSetKey key salt ipVer proto decrypt) fun _ _ hsets =>
        .of_sets rfl trivial hsets
  | rxGetKey idx =>
      refine outcome_return (outcome_rxGetKey rfl) fun answer port' hgets => ?_
      refine ⟨hgets.1, nofun, fun _ hclear => ?_⟩
      obtain ⟨hentry, rfl⟩ := hgets.2 hclear
      exact ⟨hentry.tables, rfl⟩
  | rxSetIp idx ipAddr =>
      exact outcome_return (outcome_rxSetIp ipAddr) fun _ _ hsets => .of_sets rfl trivial hsets
  | rxGetIp idx isIpv4 =>
      refine outcome_return (outcome_rxGetIp isIpv4 rfl) fun answer port' hgets => ?_
      exact .of_gets rfl trivial hgets.1 (by rw [hgets.2]; rfl)
  | rxSetSpi idx spi ipIdx =>
      exact outcome_return (outcome_rxSetSpi spi ipIdx) fun _ _ hsets => .of_sets rfl trivial hsets
  | rxGetSpi idx =>
      refine outcome_return (outcome_rxGetSpi rfl) fun answer port' hgets => ?_
      exact .of_gets rfl trivial hgets.1 (by rw [hgets.2]; rfl)

/-! ## Answers -/

/-- What is returned for the digits that have been set: they are in lower case. -/
def canonical (text : String) : String := ((tonumber16 text).map uhex32).getD ""

/-- The same for the four parts of a key. -/
def canonicalKey (key : String) : String :=
  canonical (sub key 1 8) ++ canonical (sub key 9 16) ++ canonical (sub key 17 24) ++
    canonical (sub key 25 32)

/-- The sixteen bytes of an address in network order. IPv4 addresses are in the last four. -/
def addressBytes (inetPton : String → Option (List UInt8)) (ipAddr : String) : List UInt8 :=
  match parseIP4Address ipAddr with
  | some ip => List.replicate 12 0 ++ bigEndian 4 (tobit ip).toNat
  | none => Memory.load (fun i => ((inetPton ipAddr).getD []).getD i 0) 0 16

/-- The string of an address, given its sixteen bytes. -/
def addressText (isIpv4 : Bool) (bytes : List UInt8) : String :=
  let mem : Memory := Memory.store (fun _ => 0) 0 bytes
  if isIpv4 then Ip4Addr.getString mem 12 else Ip6Addr.getString mem 0

/-- The answer of a getter is what a setter has stored. -/
def Reports (inetPton : String → Option (List UInt8)) (answer : Answer) : Call → Call → Prop
  | .txSetKey _ key salt, .txGetKey _ => answer = .txKey (canonicalKey key) (canonical salt)
  | .rxSetKey _ key salt ipVer proto decrypt, .rxGetKey _ => answer = .rxKey {
      key := canonicalKey key
      salt := canonical salt
      valid := 1
      proto := if proto = "esp" then 1 else 0
      decrypt := decrypt.getD 0
      ipv6 := if ipVer = 6 then 1 else 0 }
  | .rxSetIp _ ipAddr, .rxGetIp _ isIpv4 => answer =
      .ip (addressText (isIpv4.getD true) (addressBytes inetPton ipAddr)) (isIpv4.getD true)
  | .rxSetSpi _ spi ipIdx, .rxGetSpi _ => answer = .spi spi ipIdx
  | _, _ => True

/-- Keys in lower case are returned as they are. -/
theorem canonical_of_lower {text : String} (hlength : text.toList.length = 8)
    (hlower : ∀ char ∈ text.toList, char ∈ lowerHexDigits) : canonical text = text := by
  obtain ⟨number, hnumber, htext⟩ := uhex32_of_lower hlength hlower
  rw [canonical, hnumber, Option.map_some, Option.getD_some, htext]

theorem canonicalKey_of_lower {key : String} (hlength : key.toList.length = 32)
    (hlower : ∀ char ∈ key.toList, char ∈ lowerHexDigits) : canonicalKey key = key := by
  have hpart {first last : ℕ} (hlast : last + 1 = first + 8) (hbound : last ≤ 32)
      (hpos : 0 < first) : canonical (sub key first last) = sub key first last := by
    apply canonical_of_lower
    · rw [sub, String.toList_ofList, List.length_take, List.length_drop, hlength]
      omega
    · intro char hchar
      rw [sub, String.toList_ofList] at hchar
      exact hlower char (List.mem_of_mem_drop (List.mem_of_mem_take hchar))
  rw [canonicalKey, hpart (by decide) (by decide) (by decide),
    hpart (by decide) (by decide) (by decide), hpart (by decide) (by decide) (by decide),
    hpart (by decide) (by decide) (by decide)]
  apply String.toList_inj.mp
  have hjoin (count : ℕ) : key.toList.take count ++ (key.toList.drop count).take 8 =
      key.toList.take (count + 8) := (List.take_add).symm
  have htext : (sub key 1 8).toList = key.toList.take 8 := by
    rw [sub, String.toList_ofList]
    rfl
  simp only [String.toList_append, htext]
  simp only [sub, String.toList_ofList]
  change key.toList.take 8 ++ (key.toList.drop 8).take 8 ++ (key.toList.drop 16).take 8 ++
    (key.toList.drop 24).take 8 = key.toList
  rw [hjoin, hjoin, hjoin]
  exact List.take_of_length_le (by omega)

/-! ## Reading what has been stored -/

theorem Holds.uhex32_eq {entry : Entry} {reg : ℕ} {text : String} (hholds : Holds entry reg text) :
    uhex32 (entry reg).toNat = canonical text := by
  obtain ⟨number, hnumber, hreg⟩ := hholds
  rw [canonical, hnumber, Option.map_some, Option.getD_some, uhex32, uhex32, bits_toNat, hreg]

theorem HoldsKey.keyString_eq {entry : Entry} {key3 key2 key1 key0 saltReg : ℕ} {key salt : String}
    (hholds : HoldsKey entry key3 key2 key1 key0 saltReg key salt) :
    keyString entry key3 key2 key1 key0 = canonicalKey key := by
  rw [keyString, hholds.key3.uhex32_eq, hholds.key2.uhex32_eq, hholds.key1.uhex32_eq,
    hholds.key0.uhex32_eq, canonicalKey]

/-- A single bit as a number. -/
theorem toInt_flag (word : BitVec 32) {place : ℕ} (hplace : place < 32) :
    ((word &&& (bits 0x1 <<< place)) >>> place).toInt = if word.getLsbD place then 1 else 0 := by
  have heq : (word &&& (bits 0x1 <<< place)) >>> place =
      (BitVec.ofBool (word.getLsbD place)).setWidth 32 := by
    apply BitVec.eq_of_getLsbD_eq
    intro i hi
    rw [BitVec.getLsbD_ushiftRight, BitVec.getLsbD_and, BitVec.getLsbD_setWidth,
      BitVec.getLsbD_ofBool, decide_eq_true hi, Bool.true_and]
    by_cases hzero : i = 0
    · rw [hzero, Nat.add_zero, getLsbD_bit hplace]
      simp
    · by_cases hlt : place + i < 32
      · rw [getLsbD_bit hlt]
        simp [hzero]
      · rw [BitVec.getLsbD_of_ge _ _ (Nat.le_of_not_lt hlt)]
        simp [hzero]
  rw [heq]
  cases word.getLsbD place <;> rfl

theorem HoldsMode.rxKeyOf_eq {entry : Entry} {key salt : String} {ipVer : ℤ} {proto : String}
    {decrypt : Option ℤ}
    (hkey : HoldsKey entry ipsrxkey3 ipsrxkey2 ipsrxkey1 ipsrxkey0 ipsrxsalt key salt)
    (hmode : HoldsMode entry ipVer proto decrypt)
    (hdecrypt : decrypt.getD 0 = 1 ∨ decrypt.getD 0 = 0) :
    rxKeyOf entry = {
      key := canonicalKey key
      salt := canonical salt
      valid := 1
      proto := if proto = "esp" then 1 else 0
      decrypt := decrypt.getD 0
      ipv6 := if ipVer = 6 then 1 else 0 } := by
  have hvalid := toInt_flag (entry ipsrxmod) (show 0 < 32 by decide)
  have hproto := toInt_flag (entry ipsrxmod) (show 2 < 32 by decide)
  have hflag := toInt_flag (entry ipsrxmod) (show 3 < 32 by decide)
  have hipv6 := toInt_flag (entry ipsrxmod) (show 4 < 32 by decide)
  rw [hmode.valid] at hvalid
  rw [hmode.proto] at hproto
  rw [hmode.decrypt] at hflag
  rw [hmode.ipv6] at hipv6
  rw [rxKeyOf, hkey.keyString_eq, hkey.salt.uhex32_eq, RxKey.mk.injEq]
  refine ⟨rfl, rfl, hvalid, ?_, ?_, ?_⟩
  · exact hproto.trans (by simp)
  · refine hflag.trans ?_
    rcases hdecrypt with hone | hzero
    · simp [hone]
    · simp [hzero]
  · exact hipv6.trans (by simp)

/-- The value is negative in the other half. -/
theorem toInt_bits_eq_iff {spi : ℤ} (hlow : 0 ≤ spi) (hhigh : spi ≤ 0xFFFFFFFF) :
    (bits spi).toInt = spi ↔ spi < 2 ^ 31 := by
  obtain ⟨number, rfl⟩ := Int.eq_ofNat_of_zero_le hlow
  rw [bits_natCast, BitVec.toInt_eq_toNat_cond, BitVec.toNat_ofNat]
  split <;> omega

/-- Swapped words make up the bytes of an address. -/
theorem ipString_bswap (isIpv4 : Bool) (word3 word2 word1 word0 : BitVec 32) :
    ipString isIpv4 (bswap word3) (bswap word2) (bswap word1) (bswap word0) =
      addressText isIpv4 (bigEndian 4 word0.toNat ++ (bigEndian 4 word1.toNat ++
        (bigEndian 4 word2.toNat ++ bigEndian 4 word3.toNat))) := by
  cases isIpv4 with
  | true =>
      -- the last four bytes are those of the first word
      have hfirst := Memory.load_store (fun _ => 0) 0 (bigEndian 4 word3.toNat)
      have hall := Memory.load_store (fun _ => 0) 0 (bigEndian 4 word0.toNat ++
        (bigEndian 4 word1.toNat ++ (bigEndian 4 word2.toNat ++ bigEndian 4 word3.toNat)))
      have hlast := (Memory.load_append_inv (Memory.load_append_inv
        (Memory.load_append_inv hall).2).2).2
      simp only [length_bigEndian] at hfirst hlast
      have hloads := hfirst.trans hlast.symm
      simp only [ipString, addressText, if_true, Memory.setWord_bswap, Ip4Addr.getString]
      exact congrArg (fun bytes => String.ofList (['.'].intercalate (bytes.map decimalByte))) hloads
  | false =>
      have hfront (mem : Memory) (start : ℕ) (word : BitVec 32) (rest : List UInt8) :
          (mem.store (start + 4) rest).store start (bigEndian 4 word.toNat) =
            mem.store start (bigEndian 4 word.toNat ++ rest) := by
        rw [← mem.store_in_front, length_bigEndian]
      simp only [ipString, addressText, Bool.false_eq_true, if_false, Memory.setWord_bswap]
      rw [hfront _ 8, hfront _ 4, hfront _ 0]

theorem HoldsIp.ipString_eq {entry : Entry} {words : List ℤ} {ipAddr : String}
    (hholds : HoldsIp entry words) (hwords : ipWords (parseIPAddress inetPton ipAddr).1 = .ok words)
    (isIpv4 : Bool) :
    ipString isIpv4 (entry ipsrxipaddr3) (entry ipsrxipaddr2) (entry ipsrxipaddr1)
      (entry ipsrxipaddr0) = addressText isIpv4 (addressBytes inetPton ipAddr) := by
  obtain ⟨ip3, ip2, ip1, ip0, rfl, hip3, hip2, hip1, hip0⟩ := hholds
  rw [hip3, hip2, hip1, hip0]
  unfold parseIPAddress at hwords
  unfold addressBytes
  cases hparse : parseIP4Address ipAddr with
  | some ip =>
      rw [hparse] at hwords
      simp only [ipWords, Except.ok.injEq, List.cons.injEq, and_true] at hwords
      obtain ⟨rfl, rfl, rfl, rfl⟩ := hwords
      have hzero : bits 0x0 = bswap 0#32 := rfl
      rw [bits_toInt, hzero, ipString_bswap]
      rfl
  | none =>
      rw [hparse] at hwords
      cases hbytes : inetPton ipAddr with
      | none => simp [parseIP6Address, hbytes, ipWords] at hwords
      | some bytes =>
          simp only [parseIP6Address, hbytes, Option.bind_eq_bind, Option.bind_some,
            Option.map_some, ipWords, Except.ok.injEq, List.cons.injEq, and_true] at hwords
          obtain ⟨rfl, rfl, rfl, rfl⟩ := hwords
          have hload (mem : Memory) (start : ℕ) :
              bigEndian 4 (bswap ((mem.word start 4).setWidth 32)).toNat = mem.load start 4 := by
            have hround := bigEndian_fromBigEndian (mem.load start 4)
            rw [Memory.length_load] at hround
            rw [Memory.toNat_bswap_word, hround]
          simp only [bits_toInt, List.getD_cons_zero, List.getD_cons_succ, ipString_bswap, hload]
          rfl

/-- The SPI is positive as a signed number. -/
def SmallSpi : Call → Prop
  | .rxSetSpi _ spi _ => spi < 2 ^ 31
  | _ => True

instance (call : Call) : Decidable (SmallSpi call) :=
  match call with
  | .rxSetSpi .. => inferInstanceAs (Decidable (_ < _))
  | .txSetKey .. | .rxSetKey .. | .rxSetIp .. | .rxGetIp .. | .rxGetKey _ | .txGetKey _
  | .rxGetSpi _ => isTrue trivial

theorem answer_spi_iff {entry : Entry} {idx idx' spi ipIdx : ℤ}
    (hvalid : (Call.rxSetSpi idx spi ipIdx).Valid inetPton)
    (hstored : Stored inetPton entry (.rxSetSpi idx spi ipIdx)) :
    answerOf entry (.rxGetSpi idx') = .spi spi ipIdx ↔ spi < 2 ^ 31 := by
  have hipIdx : (entry ipsrxipidx &&& 0x7f#32).toInt = ipIdx := by
    rw [BitVec.toInt_eq_toNat_of_lt, hstored.2]
    have hmask : (0x7f#32).toNat = 2 ^ 7 - 1 := rfl
    rw [BitVec.toNat_and, hmask, Nat.and_two_pow_sub_one_eq_mod]
    omega
  rw [answerOf, hstored.1, bswap_bswap, hipIdx, Answer.spi.injEq, and_iff_left rfl]
  exact toInt_bits_eq_iff hvalid.2.1.1 hvalid.2.1.2

theorem reports_of_stored {entry : Entry} {setter getter : Call} (hvalid : setter.Valid inetPton)
    (hstored : Stored inetPton entry setter) (hsmall : SmallSpi setter) :
    Reports inetPton (answerOf entry getter) setter getter := by
  cases setter with
  | txSetKey idx key salt =>
      cases getter with
      | txGetKey idx' =>
          have hholds : HoldsKey entry ipstxkey3 ipstxkey2 ipstxkey1 ipstxkey0 ipstxsalt key salt :=
            hstored
          rw [Reports, answerOf, hholds.keyString_eq, hholds.salt.uhex32_eq]
      | _ => trivial
  | rxSetKey idx key salt ipVer proto decrypt =>
      cases getter with
      | rxGetKey idx' =>
          exact congrArg Answer.rxKey (hstored.2.rxKeyOf_eq hstored.1 hvalid.2.2.2.2)
      | _ => trivial
  | rxSetIp idx ipAddr =>
      cases getter with
      | rxGetIp idx' isIpv4 =>
          obtain ⟨words, hwords, hholds⟩ := hstored
          rw [Reports, answerOf, hholds.ipString_eq hwords]
      | _ => trivial
  | rxSetSpi idx spi ipIdx =>
      cases getter with
      | rxGetSpi idx' => exact (answer_spi_iff hvalid hstored).mpr hsmall
      | _ => trivial
  | _ => cases hstored

/-! ## Runs -/

/-- The calls of one port. -/
def machine (hardware : Hardware) (inetPton : String → Option (List UInt8)) :
    Machine Port Call (Except LuaError Answer) where
  step port call :=
    match call.run hardware inetPton port with
    | .ok answer port' => (.ok answer, port')
    | .error error port' => (.error error, port')

/-- The call sets this entry. -/
def Call.SetsEntry (inetPton : String → Option (List UInt8)) (table : Table) (idx : ℤ)
    (call : Call) : Prop :=
  call.stores = true ∧ call.table = table ∧ call.idx = idx ∧ call.Valid inetPton

instance (table : Table) (idx : ℤ) (call : Call) : Decidable (call.SetsEntry inetPton table idx) :=
  inferInstanceAs (Decidable (_ ∧ _))

/-- The last call that has set an entry. -/
def lastSetter (inetPton : String → Option (List UInt8)) (calls : List Call) (table : Table)
    (idx : ℤ) : Option Call :=
  calls.reverse.find? fun call => call.SetsEntry inetPton table idx

theorem lastSetter_append (calls : List Call) (call : Call) (table : Table) (idx : ℤ) :
    lastSetter inetPton (calls ++ [call]) table idx =
      if call.SetsEntry inetPton table idx then some call
      else lastSetter inetPton calls table idx := by
  rw [lastSetter, List.reverse_append, List.reverse_singleton, List.singleton_append,
    List.find?_cons]
  by_cases hsets : call.SetsEntry inetPton table idx
  · simp [hsets]
  · simp [hsets, lastSetter]

theorem setsEntry_of_lastSetter {calls : List Call} {table : Table} {idx : ℤ} {setter : Call}
    (hlast : lastSetter inetPton calls table idx = some setter) :
    setter.SetsEntry inetPton table idx := by
  unfold lastSetter at hlast
  have htrue := List.find?_some hlast
  exact of_decide_eq_true htrue

theorem Call.Valid.idx_mem {call : Call} (hvalid : call.Valid inetPton) :
    0 ≤ call.idx ∧ call.idx ≤ 1023 := by
  cases call <;> simp only [Call.Valid] at hvalid <;> simp only [Call.idx] <;> omega

theorem ofInt_ne {first second : ℤ} (hfirst : 0 ≤ first ∧ first ≤ 1023)
    (hsecond : 0 ≤ second ∧ second ≤ 1023) (hne : first ≠ second) :
    BitVec.ofInt 10 first ≠ BitVec.ofInt 10 second := by
  intro heq
  have hnat := congrArg BitVec.toNat heq
  simp only [BitVec.toNat_ofInt] at hnat
  omega

/-- Entries that are not set stay. -/
theorem setEntry_tables_of_ne {card : Card} {table table' : Table} {index index' : BitVec 10}
    {entry : Entry} (hne : table' = table → index' ≠ index) :
    (card.setEntry table index entry).tables table' index' = card.tables table' index' := by
  by_cases htable : table' = table
  · subst htable
    simp only [Card.setEntry, Function.update_self, Function.update_of_ne (hne rfl)]
  · simp only [Card.setEntry, Function.update_of_ne htable]

/-- The tables hold what has been set last. -/
def Remembers (inetPton : String → Option (List UInt8)) (past : List Call) (port : Port) : Prop :=
  ∀ table idx setter, lastSetter inetPton past table idx = some setter →
    SmallSpi setter ∧ Stored inetPton (port.tables table (BitVec.ofInt 10 idx)) setter

/-- What a valid call needs. -/
def Guard (inetPton : String → Option (List UInt8)) (port : Port) (call : Call) : Prop :=
  call.Valid inetPton → WriteClear port call ∧ SmallSpi call

instance (port : Port) (call : Call) : Decidable (Guard inetPton port call) :=
  inferInstanceAs (Decidable (_ → _))

theorem Remembers.step {past : List Call} {call : Call} (hremembers : Remembers inetPton past port)
    (hguard : Guard inetPton port call) :
    Remembers inetPton (past ++ [call]) ((machine hardware inetPton).step port call).2 := by
  have houtcome := @outcome_run hardware inetPton port call
  intro table idx setter hlast
  rw [lastSetter_append] at hlast
  by_cases hvalid : call.Valid inetPton
  · obtain ⟨answer, port', hrun, hperforms⟩ := houtcome.returned hvalid
    obtain ⟨hclear, hsmall⟩ := hguard hvalid
    simp only [machine, hrun]
    by_cases hsets : call.SetsEntry inetPton table idx
    · -- the entry is the one that has just been set
      rw [if_pos hsets] at hlast
      obtain rfl := Option.some.inj hlast
      obtain ⟨hstores, rfl, rfl, -⟩ := hsets
      obtain ⟨entry, hstored, htables⟩ := hperforms.set hstores
      refine ⟨hsmall, ?_⟩
      simp only [htables, Card.setEntry, Function.update_self]
      exact hstored
    · rw [if_neg hsets] at hlast
      have hsame : port'.tables table (BitVec.ofInt 10 idx) =
          port.tables table (BitVec.ofInt 10 idx) := by
        cases hstores : call.stores with
        | false => rw [(hperforms.get hstores hclear).1]
        | true =>
            obtain ⟨-, -, hidx, hsetter⟩ := setsEntry_of_lastSetter hlast
            obtain ⟨entry, -, htables⟩ := hperforms.set hstores
            rw [htables]
            refine setEntry_tables_of_ne fun htable => ?_
            refine ofInt_ne (hidx ▸ hsetter.idx_mem) hvalid.idx_mem fun heq => ?_
            exact hsets ⟨hstores, htable.symm, heq.symm, hvalid⟩
      rw [hsame]
      exact hremembers table idx setter hlast
  · obtain ⟨error, port', hrun, htables⟩ := houtcome.failed hvalid
    rw [if_neg fun hsets => hvalid hsets.2.2.2] at hlast
    simp only [machine, hrun, htables]
    exact hremembers table idx setter hlast

/-- A run in which every call meets the guard remembers what has been set. -/
theorem Remembers.after {past calls : List Call} (hremembers : Remembers inetPton past port)
    (halong : (machine hardware inetPton).Along (Guard inetPton) port calls) :
    Remembers inetPton (past ++ calls) ((machine hardware inetPton).after port calls) := by
  induction calls generalizing past port with
  | nil =>
      rw [List.append_nil]
      exact hremembers
  | cons call rest ih =>
      have hrest := ih (hremembers.step halong.1) halong.2
      rw [List.append_assoc] at hrest
      exact hrest

/-- A call ends with the command that it is meant to write. -/
def CommandRight (hardware : Hardware) (inetPton : String → Option (List UInt8)) (port : Port)
    (call : Call) : Prop :=
  ∃ answer port', call.run hardware inetPton port = .ok answer port' ∧
    Commands call.table call.stores call.idx port port'

/-- The command is right, and the answer is what has been set last. -/
def CallRight (hardware : Hardware) (inetPton : String → Option (List UInt8)) (past : List Call)
    (port : Port) (call : Call) : Prop :=
  ∃ answer port', call.run hardware inetPton port = .ok answer port' ∧
    Commands call.table call.stores call.idx port port' ∧
    ∀ setter, call.stores = false → lastSetter inetPton past call.table call.idx = some setter →
      Reports inetPton answer setter call

theorem commandRight_iff {call : Call} (hvalid : call.Valid inetPton) :
    CommandRight hardware inetPton port call ↔ WriteClear port call := by
  obtain ⟨answer, port', hrun, hperforms⟩ :=
    (@outcome_run hardware inetPton port call).returned hvalid
  rw [← hperforms.command]
  constructor
  · rintro ⟨answer', port'', hrun', hcommand⟩
    rw [hrun] at hrun'
    cases hrun'
    exact hcommand
  · exact fun hcommand => ⟨answer, port', hrun, hcommand⟩

theorem callRight_of_remembers {past : List Call} {call : Call}
    (hremembers : Remembers inetPton past port) (hguard : Guard inetPton port call)
    (hvalid : call.Valid inetPton) : CallRight hardware inetPton past port call := by
  obtain ⟨answer, port', hrun, hperforms⟩ :=
    (@outcome_run hardware inetPton port call).returned hvalid
  obtain ⟨hclear, -⟩ := hguard hvalid
  refine ⟨answer, port', hrun, hperforms.command.mpr hclear, fun setter hstores hlast => ?_⟩
  obtain ⟨hsmall, hstored⟩ := hremembers _ _ _ hlast
  obtain ⟨-, -, -, hsetter⟩ := setsEntry_of_lastSetter hlast
  rw [(hperforms.get hstores hclear).2]
  exact reports_of_stored hsetter hstored hsmall

/-- In a run that begins with any tables, every call is right. -/
theorem callRight_of_along {calls first : List Call} {call : Call}
    (halong : (machine hardware inetPton).Along (Guard inetPton) port calls)
    (hfirst : first ++ [call] <+: calls) (hvalid : call.Valid inetPton) :
    CallRight hardware inetPton first ((machine hardware inetPton).after port first) call := by
  have hpast := halong.of_initial hfirst
  rw [Machine.along_append] at hpast
  have hempty : Remembers inetPton [] port := by
    intro table idx setter hlast
    cases hlast
  have hremembers := hempty.after hpast.1
  rw [List.nil_append] at hremembers
  exact callRight_of_remembers hremembers hpast.2.1 hvalid

/-- An SPI that has just been set is returned if it is positive as a signed number. -/
theorem rxGetSpi_after_set_iff {idx spi ipIdx : ℤ}
    (hvalid : (Call.rxSetSpi idx spi ipIdx).Valid inetPton) :
    ((machine hardware inetPton).step
        ((machine hardware inetPton).step port (.rxSetSpi idx spi ipIdx)).2 (.rxGetSpi idx)).1 =
      .ok (.spi spi ipIdx) ↔ spi < 2 ^ 31 := by
  obtain ⟨answer, port', hrun, hperforms⟩ :=
    (@outcome_run hardware inetPton port (.rxSetSpi idx spi ipIdx)).returned hvalid
  have hget : (Call.rxGetSpi idx).Valid inetPton := hvalid.1
  obtain ⟨answer', port'', hrun', hperforms'⟩ :=
    (@outcome_run hardware inetPton port' (.rxGetSpi idx)).returned hget
  obtain ⟨entry, hstored, htables⟩ := hperforms.set rfl
  have hentry : port'.tables .rxSpi (BitVec.ofInt 10 idx) = entry := by
    rw [htables]
    simp only [Card.setEntry, Call.table, Call.idx, Function.update_self]
  have hanswer : answer' = answerOf entry (.rxGetSpi idx) := by
    rw [← hentry]
    exact (hperforms'.get rfl trivial).2
  simp only [machine, hrun, hrun', Except.ok.injEq, hanswer]
  exact answer_spi_iff hvalid hstored

/-- The command of a call is right unless a key of received packets is read while WRITE is set.
In a run in which this does not happen and all SPIs are below `2 ^ 31`, every command is right and
every getter returns what has been set last. Others are not returned. -/
theorem securityTables_right_iff (hardware : Hardware)
    (inetPton : String → Option (List UInt8)) (port : Port) :
    (∀ call : Call, call.Valid inetPton →
        (CommandRight hardware inetPton port call ↔ WriteClear port call)) ∧
      (∀ calls, (machine hardware inetPton).Along (Guard inetPton) port calls →
        ∀ first call, first ++ [call] <+: calls → call.Valid inetPton →
          CallRight hardware inetPton first ((machine hardware inetPton).after port first) call) ∧
      ∀ idx spi ipIdx, (Call.rxSetSpi idx spi ipIdx).Valid inetPton →
        (((machine hardware inetPton).step ((machine hardware inetPton).step port
            (.rxSetSpi idx spi ipIdx)).2 (.rxGetSpi idx)).1 = .ok (.spi spi ipIdx) ↔
          spi < 2 ^ 31) :=
  ⟨fun _ => commandRight_iff, fun _ halong _ _ => callRight_of_along halong,
    fun _ _ _ => rxGetSpi_after_set_iff⟩

/-- A port whose index register still holds the command of a setter. -/
def afterSetter : Port where
  regs reg := if reg = ipsrxidx then 0x80000006#32 else 0
  tables _ _ _ := 0
  writes := []

theorem rxGetKey_not_commandRight : ¬ ∀ (hardware : Hardware)
    (inetPton : String → Option (List UInt8)) (port : Port) (call : Call),
      call.Valid inetPton → CommandRight hardware inetPton port call := by
  intro hall
  let hardware : Hardware := ⟨fun _ _ word => word, fun card _ _ => card⟩
  have hvalid : (Call.rxGetKey 0).Valid fun _ => none := ⟨by decide, by decide⟩
  have hclear : (afterSetter.regs ipsrxidx).getLsbD 31 = false :=
    (commandRight_iff hvalid).mp (hall hardware (fun _ => none) afterSetter _ hvalid)
  revert hclear
  decide

end Libmoon.Ipsec
