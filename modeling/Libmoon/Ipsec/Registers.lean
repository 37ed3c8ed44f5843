import Libmoon.Foundation.Outcome
import Libmoon.Ipsec.RegisterBits
import Mathlib.Logic.Function.Basic

/-! # Tables behind registers

The security tables of the network card are reached through registers. A command that is
written to an index register selects an entry of a table; it stores the registers of the
table to the entry or loads them from it. What the index register reads afterwards is left
open, and so is what a command does that asks for both, for neither, or for no table.
-/

namespace Libmoon.Ipsec

open Foundation

def ipstxidx : ℕ := 0x00008900
def ipstxkey3 : ℕ := 0x00008914
def ipstxkey2 : ℕ := 0x00008910
def ipstxkey1 : ℕ := 0x0000890C
def ipstxkey0 : ℕ := 0x00008908
def ipstxsalt : ℕ := 0x00008904

def ipsrxidx : ℕ := 0x00008E00
def ipsrxkey3 : ℕ := 0x00008E28
def ipsrxkey2 : ℕ := 0x00008E24
def ipsrxkey1 : ℕ := 0x00008E20
def ipsrxkey0 : ℕ := 0x00008E1C
def ipsrxsalt : ℕ := 0x00008E2C
def ipsrxmod : ℕ := 0x00008E30

def ipsrxipaddr3 : ℕ := 0x00008E10
def ipsrxipaddr2 : ℕ := 0x00008E0C
def ipsrxipaddr1 : ℕ := 0x00008E08
def ipsrxipaddr0 : ℕ := 0x00008E04

def ipsrxspi : ℕ := 0x00008E14
def ipsrxipidx : ℕ := 0x00008E18

/-! ## The card -/

inductive Table where
  | txKey | rxIp | rxSpi | rxKey
deriving DecidableEq, Repr

namespace Table

/-- The registers that hold an entry. -/
def window : Table → List ℕ
  | txKey => [ipstxkey3, ipstxkey2, ipstxkey1, ipstxkey0, ipstxsalt]
  | rxIp => [ipsrxipaddr3, ipsrxipaddr2, ipsrxipaddr1, ipsrxipaddr0]
  | rxSpi => [ipsrxspi, ipsrxipidx]
  | rxKey => [ipsrxkey3, ipsrxkey2, ipsrxkey1, ipsrxkey0, ipsrxsalt, ipsrxmod]

/-- The register that takes the commands. -/
def indexRegister : Table → ℕ
  | txKey => ipstxidx
  | _ => ipsrxidx

/-- What the table field selects the table with, where there is one. -/
def selector : Table → Option ℕ
  | txKey => none
  | rxIp => some 0x1
  | rxSpi => some 0x2
  | rxKey => some 0x3

end Table

/-- An entry has a word for each register of its table. -/
abbrev Entry : Type := ℕ → BitVec 32

/-- The registers of a port and the tables behind them. -/
structure Card where
  regs : ℕ → BitVec 32
  tables : Table → BitVec 10 → Entry

/-- What is not known about the card. -/
structure Hardware where
  /-- What an index register reads after a command. -/
  settle : Card → ℕ → BitVec 32 → BitVec 32
  /-- What is done by a command that has no meaning. -/
  other : Card → ℕ → BitVec 32 → Card

/-- The table that a command is for. -/
def selectedTable (reg : ℕ) (word : BitVec 32) : Option Table :=
  if reg = ipstxidx then some .txKey
  else match (word.extractLsb' 1 2).toNat with
    | 1 => some .rxIp
    | 2 => some .rxSpi
    | 3 => some .rxKey
    | _ => none

namespace Card

/-- Set an entry. -/
def setEntry (card : Card) (table : Table) (index : BitVec 10) (entry : Entry) : Card :=
  { card with
    tables := Function.update card.tables table (Function.update (card.tables table) index entry) }

/-- Overwrite the registers of a table. -/
def loadEntry (card : Card) (table : Table) (index : BitVec 10) : Card :=
  { card with
    regs := fun reg => if reg ∈ table.window then card.tables table index reg else card.regs reg }

/-- Bit 31 is WRITE, bit 30 is READ. -/
def command (card : Card) (hardware : Hardware) (reg : ℕ) (word : BitVec 32) : Card :=
  match selectedTable reg word, word.getLsbD 31, word.getLsbD 30 with
  | some table, true, false => card.setEntry table (word.extractLsb' 3 10) card.regs
  | some table, false, true => card.loadEntry table (word.extractLsb' 3 10)
  | _, _, _ => hardware.other card reg word

def write (card : Card) (hardware : Hardware) (reg : ℕ) (word : BitVec 32) : Card :=
  let card := { card with regs := Function.update card.regs reg word }
  if reg = ipstxidx ∨ reg = ipsrxidx then
    let card := card.command hardware reg word
    { card with regs := Function.update card.regs reg (hardware.settle card reg word) }
  else card

end Card

/-- A card and what has been written to its registers, the latest first. -/
structure Port extends Card where
  writes : List (ℕ × BitVec 32)

/-- The last word that has been written to a register. -/
def Port.lastWrite (port : Port) (reg : ℕ) : Option (BitVec 32) := port.writes.lookup reg

/-! ## Access to the registers -/

/-- What has been written before an error stays. -/
abbrev Access : Type → Type := EStateM LuaError Port

/-- `log:fatal` under a condition. -/
def fatalIf (wrong : Prop) [Decidable wrong] (message : String) : Access Unit := fun port =>
  if wrong then .error (.fatal message) port else .ok () port

def lift {α : Type} (result : Except LuaError α) : Access α := fun port =>
  match result with
  | .ok value => .ok value port
  | .error error => .error error port

/-- `dpdkc.read_reg32`. -/
def readReg32 (reg : ℕ) : Access ℤ := fun port => .ok (port.regs reg).toNat port

/-- `dpdkc.write_reg32`. -/
def writeReg32 (hardware : Hardware) (reg : ℕ) (val : Option ℤ) : Access Unit := fun port =>
  match val with
  | some val =>
      .ok () ⟨port.toCard.write hardware reg (bits val), (reg, bits val) :: port.writes⟩
  | none => .error .nilConversion port

/-- Several calls of `dpdkc.write_reg32`. -/
def writeRegs (hardware : Hardware) : List (ℕ × Option ℤ) → Access Unit
  | [] => pure ()
  | (reg, val) :: rest => do
      writeReg32 hardware reg val
      writeRegs hardware rest

/-! ## Commands -/

/-- A command that stores an entry, or loads one, and keeps what else was in the register. -/
structure WellFormed (previous : BitVec 32) (table : Table) (stores : Bool) (idx : ℤ)
    (word : BitVec 32) : Prop where
  write : word.getLsbD 31 = stores
  read : word.getLsbD 30 = !stores
  index : ((word.extractLsb' 3 10).toNat : ℤ) = idx
  selector : ∀ number ∈ table.selector, (word.extractLsb' 1 2).toNat = number
  kept : ∀ i < 30, ¬ (3 ≤ i ∧ i ≤ 12) → (table.selector = none ∨ i ≠ 1 ∧ i ≠ 2) →
    word.getLsbD i = previous.getLsbD i

namespace WellFormed

variable {previous word : BitVec 32} {table : Table} {stores : Bool} {idx : ℤ}

theorem index_eq (hcommand : WellFormed previous table stores idx word) :
    word.extractLsb' 3 10 = BitVec.ofInt 10 idx := by
  rw [← hcommand.index, BitVec.ofInt_natCast, BitVec.ofNat_toNat, BitVec.setWidth_eq]

theorem selectedTable_eq (hcommand : WellFormed previous table stores idx word) :
    selectedTable table.indexRegister word = some table := by
  have hselector := hcommand.selector
  cases table with
  | txKey => rfl
  | _ =>
      have hnumber := hselector _ rfl
      rw [selectedTable, if_neg (by decide), hnumber]
      rfl

theorem command_store (hcommand : WellFormed previous table true idx word) (card : Card)
    (hardware : Hardware) :
    card.command hardware table.indexRegister word =
      card.setEntry table (BitVec.ofInt 10 idx) card.regs := by
  rw [Card.command, hcommand.selectedTable_eq, hcommand.write, hcommand.read, hcommand.index_eq]
  rfl

theorem command_load (hcommand : WellFormed previous table false idx word) (card : Card)
    (hardware : Hardware) :
    card.command hardware table.indexRegister word =
      card.loadEntry table (BitVec.ofInt 10 idx) := by
  rw [Card.command, hcommand.selectedTable_eq, hcommand.write, hcommand.read, hcommand.index_eq]
  rfl

end WellFormed

theorem indexRegister_not_mem_window (table : Table) : table.indexRegister ∉ table.window := by
  cases table <;> decide

theorem indexRegister_eq (table : Table) :
    table.indexRegister = ipstxidx ∨ table.indexRegister = ipsrxidx := by
  cases table <;> decide

/-! ## Outcomes -/

section Outcomes

variable {hardware : Hardware} {port : Port} {stopped : Port → Prop}

section Bind

variable {α β : Type} {next : α → Access β} {returns : Prop} {post : β → Port → Prop}

theorem outcome_fatalIf_bind {wrong : Prop} [Decidable wrong] {message : String}
    {next : Unit → Access β} (hport : stopped port)
    (hnext : ¬ wrong → Outcome (next ()) port returns post stopped) :
    Outcome (fatalIf wrong message >>= next) port (¬ wrong ∧ returns) post stopped := by
  have hcheck : Outcome (fatalIf wrong message) port (¬ wrong)
      (fun _ port' => ¬ wrong ∧ port' = port) stopped := by
    by_cases hwrong : wrong
    · exact .of_error (if_pos hwrong) (not_not_intro hwrong) hport
    · exact .of_ok (if_neg hwrong) hwrong ⟨hwrong, rfl⟩
  refine hcheck.bind ?_
  rintro _ _ ⟨hwrong, rfl⟩
  exact hnext hwrong

theorem outcome_lift_bind {result : Except LuaError α} {good : α → Prop}
    (hresult : ∃ value, result = .ok value ∧ good value)
    (hnext : ∀ value, good value → Outcome (next value) port returns post stopped) :
    Outcome (lift result >>= next) port returns post stopped := by
  obtain ⟨value, rfl, hgood⟩ := hresult
  have hrun : (lift (.ok value) >>= next) port = next value port := rfl
  exact .of_run_eq hrun (hnext value hgood)

theorem outcome_readReg32_bind {reg : ℕ} {next : ℤ → Access β}
    (hnext : Outcome (next (port.regs reg).toNat) port returns post stopped) :
    Outcome (readReg32 reg >>= next) port returns post stopped := by
  have hrun : (readReg32 reg >>= next) port = next (port.regs reg).toNat port := rfl
  exact .of_run_eq hrun hnext

end Bind

/-- Registers that are prepared for a command. -/
structure Staged (values : List (ℕ × Option ℤ)) (port port' : Port) : Prop where
  tables : port'.tables = port.tables
  others : ∀ reg ∉ values.map Prod.fst, port'.regs reg = port.regs reg
  values : (values.map Prod.fst).Nodup → ∀ reg val, (reg, some val) ∈ values →
    port'.regs reg = bits val

/-- One more register in front. -/
theorem Staged.cons {values : List (ℕ × Option ℤ)} {reg : ℕ} {val : ℤ} {next port' : Port}
    (hstaged : Staged values next port') (htables : next.tables = port.tables)
    (hregs : next.regs = Function.update port.regs reg (bits val)) :
    Staged ((reg, some val) :: values) port port' := by
  refine ⟨hstaged.tables.trans htables, ?_, ?_⟩
  · intro other hother
    simp only [List.map_cons, List.mem_cons, not_or] at hother
    rw [hstaged.others other hother.2, hregs, Function.update_of_ne hother.1]
  · intro hnodup other val' hmem
    simp only [List.map_cons, List.nodup_cons] at hnodup
    rcases List.mem_cons.mp hmem with heq | hmem
    · obtain ⟨rfl, hval⟩ := Prod.mk.inj heq
      cases hval
      rw [hstaged.others other hnodup.1, hregs, Function.update_self]
    · exact hstaged.values hnodup.2 other val' hmem

theorem outcome_writeRegs {values : List (ℕ × Option ℤ)}
    (hvalues : ∀ reg ∈ values.map Prod.fst, reg ≠ ipstxidx ∧ reg ≠ ipsrxidx) :
    Outcome (writeRegs hardware values) port (∀ val ∈ values.map Prod.snd, val ≠ none)
      (fun _ port' => Staged values port port') (fun port' => port'.tables = port.tables) := by
  induction values generalizing port with
  | nil =>
      exact .of_ok rfl (by simp) ⟨rfl, fun _ _ => rfl, by simp⟩
  | cons head values ih =>
      obtain ⟨reg, val⟩ := head
      simp only [List.map_cons, List.forall_mem_cons] at hvalues ⊢
      cases val with
      | none => exact .of_error rfl (fun hall => hall.1 rfl) rfl
      | some val =>
          have hwrite : port.toCard.write hardware reg (bits val) =
              { port.toCard with regs := Function.update port.regs reg (bits val) } :=
            if_neg (by simp [hvalues.1])
          have hfirst : Outcome (writeReg32 hardware reg (some val)) port True
              (fun _ port' => port'.tables = port.tables ∧
                port'.regs = Function.update port.regs reg (bits val))
              (fun port' => port'.tables = port.tables) := by
            refine .of_ok rfl trivial ?_
            simp only [hwrite, and_self]
          refine hfirst.bind_of_returns fun _ next hnext => ?_
          have hrest := @ih next hvalues.2
          rw [hnext.1] at hrest
          exact hrest.mono (by simp) fun _ port' _ hstaged => hstaged.cons hnext.1 hnext.2

/-- A well-formed command stores the registers to the entry. -/
theorem outcome_store {previous : BitVec 32} {table : Table} {idx value : ℤ}
    (hcommand : WellFormed previous table true idx (bits value)) :
    Outcome (writeReg32 hardware table.indexRegister (some value)) port True
      (fun _ port' => port'.lastWrite table.indexRegister = some (bits value) ∧
        port'.tables = (port.setEntry table (BitVec.ofInt 10 idx)
          (Function.update port.regs table.indexRegister (bits value))).tables) stopped := by
  refine .of_ok rfl trivial ⟨by simp [Port.lastWrite], ?_⟩
  simp only [Card.write, if_pos (indexRegister_eq table), hcommand.command_store]
  rfl

/-- A command loads the entry to the registers if it is well formed. -/
theorem outcome_load (table : Table) (value : ℤ) :
    Outcome (writeReg32 hardware table.indexRegister (some value)) port True
      (fun _ port' => port'.lastWrite table.indexRegister = some (bits value) ∧
        ∀ previous idx, WellFormed previous table false idx (bits value) →
          port'.tables = port.tables ∧ ∀ reg ∈ table.window,
            port'.regs reg = port.tables table (BitVec.ofInt 10 idx) reg) stopped := by
  refine .of_ok rfl trivial ⟨by simp [Port.lastWrite], ?_⟩
  intro previous idx hcommand
  simp only [Card.write, if_pos (indexRegister_eq table), hcommand.command_load]
  refine ⟨rfl, fun reg hreg => ?_⟩
  have hne : reg ≠ table.indexRegister :=
    fun heq => indexRegister_not_mem_window table (heq ▸ hreg)
  rw [Function.update_of_ne hne]
  exact if_pos hreg

end Outcomes

end Libmoon.Ipsec
