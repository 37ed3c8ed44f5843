import Libmoon.Foundation.Machine
import Mathlib.Algebra.GroupWithZero.Nat
import Mathlib.Algebra.Order.BigOperators.Group.List
import Mathlib.Tactic.IntervalCases
import Mathlib.Tactic.Ring

/-! # Receive counters of the i40e driver

The hardware counts in registers of 32 and 48 bits that are never reset. The
driver keeps, for each of them, the value it extended the register to at its last
reading, and takes the next difference from that. Here the extended values are
compared with counters that do not wrap. The numbers of the driver are integers
below `2^50`, which a Lua number holds exactly.
-/

namespace Libmoon.I40e

open Foundation

/-! ## Reading the registers -/

/-- The common end of `readCtr32` and `readCtr48`. -/
def extendCtr (modulus val last : ℤ) : ℤ :=
  let diff := val - last
  last + if diff < 0 then modulus + diff else diff

def readCtr32 (val : BitVec 32) (last : ℤ) : ℤ := extendCtr (2 ^ 32) val.toNat last

inductive LuaError where
  /-- `self` is no parameter of `readCtr48`. -/
  | indexGlobalSelf
deriving DecidableEq

/-- The high word is read before and after the low one. -/
def readCtr48 (h l h2 : BitVec 32) (last : ℤ) : Except LuaError ℤ :=
  if h2 ≠ h then
    .error .indexGlobalSelf
  else
    .ok (extendCtr (2 ^ 48) (l.toNat + h.toNat * 2 ^ 32) last)

/-- What the calls of `read_reg32` return, in their order. -/
structure Readings where
  uprc : BitVec 32
  mprc : BitVec 32
  bprc : BitVec 32
  gorch : BitVec 32
  gorcl : BitVec 32
  gorch2 : BitVec 32

structure Device where
  uprc : ℤ
  mprc : ℤ
  bprc : ℤ
  gorc : ℤ
  initPkts : ℤ
  initBytes : ℤ
deriving DecidableEq

/-- `dev:init`. -/
def Device.init (reads : Readings) : Except LuaError Device := do
  let initPkts := readCtr32 reads.uprc 0 + readCtr32 reads.mprc 0 + readCtr32 reads.bprc 0
  let initBytes ← readCtr48 reads.gorch reads.gorcl reads.gorch2 0
  return { uprc := 0, mprc := 0, bprc := 0, gorc := 0, initPkts, initBytes }

/-- `dev:getRxStats`: the packets, the octets and the device afterwards. -/
def Device.getRxStats (self : Device) (reads : Readings) : Except LuaError ((ℤ × ℤ) × Device) := do
  let uprc := readCtr32 reads.uprc self.uprc
  let mprc := readCtr32 reads.mprc self.mprc
  let bprc := readCtr32 reads.bprc self.bprc
  let gorc ← readCtr48 reads.gorch reads.gorcl reads.gorch2 self.gorc
  return ((uprc + mprc + bprc - self.initPkts, gorc - self.initBytes),
    { self with uprc, mprc, bprc, gorc })

/-! ## The hardware -/

/-- Unicast, multicast and broadcast packets, and octets. -/
inductive Counter where
  | uprc
  | mprc
  | bprc
  | gorc
deriving DecidableEq

def Counter.modulus : Counter → ℕ
  | .gorc => 2 ^ 48
  | _ => 2 ^ 32

/-- One number for each counter. -/
def Counts := Counter → ℕ

def Counts.zero : Counts := fun _ => 0

def Counts.add (counts more : Counts) : Counts := fun counter => counts counter + more counter

def Counts.packets (counts : Counts) : ℕ := counts .uprc + counts .mprc + counts .bprc

/-- The contents of the registers where nothing is counted while they are read. -/
def Counts.readings (totals : Counts) : Readings where
  uprc := BitVec.ofNat 32 (totals .uprc)
  mprc := BitVec.ofNat 32 (totals .mprc)
  bprc := BitVec.ofNat 32 (totals .bprc)
  gorch := BitVec.ofNat 32 (totals .gorc % 2 ^ 48 / 2 ^ 32)
  gorcl := BitVec.ofNat 32 (totals .gorc)
  gorch2 := BitVec.ofNat 32 (totals .gorc % 2 ^ 48 / 2 ^ 32)

/-- The device and what its registers would hold if they did not wrap. -/
structure Nic where
  totals : Counts
  dev : Device

/-- The packets and octets that are reported. -/
abbrev RxStats := Except LuaError (ℤ × ℤ)

/-- One poll. Each register is read at a moment of its own; the call says by how
much it has advanced since it was read last. -/
def Nic.poll (nic : Nic) (advance : Counts) : RxStats × Nic :=
  let totals := nic.totals.add advance
  match nic.dev.getRxStats totals.readings with
  | .error error => (.error error, { nic with totals })
  | .ok (stats, dev) => (.ok stats, ⟨totals, dev⟩)

def polling : Machine Nic Counts RxStats where
  step := Nic.poll

/-- What the polls are to report: all that was received since the registers were first read. -/
def tally : Machine Counts Counts RxStats where
  step received advance :=
    let received := received.add advance
    (.ok (received.packets, received .gorc), received)

/-- The second result is not below the first one. -/
def NotBelow : RxStats → RxStats → Prop
  | .ok first, .ok second => first.1 ≤ second.1 ∧ first.2 ≤ second.2
  | _, _ => False

/-- The device is initialised and all polls after that are exact and never decrease. -/
def CountsExactly (start : Counts) (polls : List Counts) : Prop :=
  ∃ dev, Device.init start.readings = .ok dev ∧
    polling.answers ⟨start, dev⟩ polls = tally.answers .zero polls ∧
    (polling.answers ⟨start, dev⟩ polls).Pairwise NotBelow

/-- No register wraps before the first poll, and none wraps a second time. -/
def SingleLateWrap (start : Counts) : List Counts → Prop
  | [] => True
  | first :: rest => ∀ counter : Counter,
      start counter + first counter < counter.modulus ∧
        start counter + first counter + (rest.map fun advance => advance counter).sum <
          2 * counter.modulus

/-! ## One reading -/

theorem extendCtr_zero {val : ℤ} (hval : 0 ≤ val) (modulus : ℤ) : extendCtr modulus val 0 = val := by
  simp only [extendCtr]
  split <;> omega

section Extension

variable {modulus total advance : ℕ}

/-- A register is extended to what was counted, or to less by a multiple of the modulus. -/
theorem extendCtr_total (htotal : total < 2 * modulus) (hadvance : advance < modulus) :
    extendCtr modulus ((total + advance) % modulus : ℕ) total ≤ (total + advance : ℕ) ∧
      (extendCtr modulus ((total + advance) % modulus : ℕ) total = (total + advance : ℕ) ↔
        total + advance < 2 * modulus) := by
  have hdiv := Nat.div_add_mod (total + advance) modulus
  have hmod : (total + advance) % modulus < modulus := Nat.mod_lt _ (by omega)
  have hwraps : (total + advance) / modulus < 3 := by
    rw [Nat.div_lt_iff_lt_mul (by omega)]
    omega
  generalize (total + advance) % modulus = val at hdiv hmod ⊢
  generalize (total + advance) / modulus = wraps at hdiv hwraps
  simp only [extendCtr]
  -- the register holds the count less this many moduli
  interval_cases wraps <;> split <;> omega

end Extension

/-- The field of the device that belongs to a counter. -/
def Device.last (dev : Device) : Counter → ℤ
  | .uprc => dev.uprc
  | .mprc => dev.mprc
  | .bprc => dev.bprc
  | .gorc => dev.gorc

theorem readCtr32_ofNat (total : ℕ) (last : ℤ) :
    readCtr32 (BitVec.ofNat 32 total) last = extendCtr (2 ^ 32) (total % 2 ^ 32 : ℕ) last := by
  rw [readCtr32, BitVec.toNat_ofNat]

theorem readCtr48_quiet (total : ℕ) (last : ℤ) :
    readCtr48 (BitVec.ofNat 32 (total % 2 ^ 48 / 2 ^ 32)) (BitVec.ofNat 32 total)
        (BitVec.ofNat 32 (total % 2 ^ 48 / 2 ^ 32)) last =
      .ok (extendCtr (2 ^ 48) (total % 2 ^ 48 : ℕ) last) := by
  have hwords : ((total % 2 ^ 32 : ℕ) : ℤ) +
      ((total % 2 ^ 48 / 2 ^ 32 % 2 ^ 32 : ℕ) : ℤ) * 2 ^ 32 = (total % 2 ^ 48 : ℕ) := by omega
  rw [readCtr48, if_neg (not_not.mpr rfl), BitVec.toNat_ofNat, BitVec.toNat_ofNat, hwords]

/-- The initialisation reads the contents of the registers. -/
theorem init_readings {start : Counts} (hstart : ∀ counter, start counter < counter.modulus) :
    ∃ dev, Device.init start.readings = .ok dev ∧ (∀ counter, dev.last counter = 0) ∧
      dev.initPkts = start.packets ∧ dev.initBytes = start .gorc := by
  have hkept : ∀ counter, ((start counter % counter.modulus : ℕ) : ℤ) = start counter :=
    fun counter => congrArg Nat.cast (Nat.mod_eq_of_lt (hstart counter))
  refine ⟨_, by
    simp only [Device.init, Counts.readings, readCtr48_quiet]
    rfl, ?_, ?_, ?_⟩
  · intro counter
    cases counter <;> rfl
  · simp only [readCtr32_ofNat, extendCtr_zero (Int.natCast_nonneg _), Counts.packets]
    push_cast
    exact congr_arg₂ _ (congr_arg₂ _ (hkept .uprc) (hkept .mprc)) (hkept .bprc)
  · simp only [extendCtr_zero (Int.natCast_nonneg _)]
    exact hkept .gorc

/-- What a poll does to the device and what it answers. -/
theorem poll_eq (nic : Nic) (advance : Counts) :
    let totals := nic.totals.add advance
    let dev := (nic.poll advance).2.dev
    (nic.poll advance).1 = .ok (dev.last .uprc + dev.last .mprc + dev.last .bprc -
        nic.dev.initPkts, dev.last .gorc - nic.dev.initBytes) ∧
      (nic.poll advance).2.totals = totals ∧
      dev.initPkts = nic.dev.initPkts ∧ dev.initBytes = nic.dev.initBytes ∧
      ∀ counter, dev.last counter =
        extendCtr counter.modulus (totals counter % counter.modulus : ℕ)
          (nic.dev.last counter) := by
  simp only [Nic.poll, Device.getRxStats, Counts.readings, readCtr48_quiet, readCtr32_ofNat]
  refine ⟨rfl, rfl, rfl, rfl, ?_⟩
  intro counter
  cases counter <;> rfl

/-! ## Whole runs -/

section Runs

variable {start : Counts}

/-- What holds after every poll, whether it was exact or not. -/
structure Counting (start : Counts) (nic : Nic) (received : Counts) : Prop where
  totals : ∀ counter, nic.totals counter = start counter + received counter
  initPkts : nic.dev.initPkts = start.packets
  initBytes : nic.dev.initBytes = start .gorc

variable {nic : Nic} {received : Counts}

theorem Counting.poll (hcounting : Counting start nic received) (advance : Counts) :
    Counting start (nic.poll advance).2 (received.add advance) := by
  obtain ⟨-, htotals, hpkts, hbytes, -⟩ := poll_eq nic advance
  refine ⟨?_, hpkts.trans hcounting.initPkts, hbytes.trans hcounting.initBytes⟩
  intro counter
  rw [htotals, Counts.add, Counts.add, hcounting.totals, Nat.add_assoc]

/-- Where no extended value is too large, a poll is exact exactly if all of them are:
errors of the three packet counters cannot cancel. -/
theorem Counting.answer_eq_iff (hcounting : Counting start nic received) (advance : Counts)
    (hbound : ∀ counter, (nic.poll advance).2.dev.last counter ≤
      (nic.poll advance).2.totals counter) :
    (nic.poll advance).1 = (tally.step received advance).1 ↔
      ∀ counter, (nic.poll advance).2.dev.last counter =
        (nic.poll advance).2.totals counter := by
  have hnext := (hcounting.poll advance).totals
  have hanswer := (poll_eq nic advance).1
  have huprc := hbound .uprc
  have hmprc := hbound .mprc
  have hbprc := hbound .bprc
  rw [hanswer, hcounting.initPkts, hcounting.initBytes]
  simp only [tally, Counts.packets, Except.ok.injEq, Prod.mk.injEq]
  simp only [hnext] at huprc hmprc hbprc ⊢
  push_cast at huprc hmprc hbprc ⊢
  constructor
  · intro hexact counter
    cases counter <;> omega
  · intro hexact
    have huprc := hexact .uprc
    have hmprc := hexact .mprc
    have hbprc := hexact .bprc
    have hgorc := hexact .gorc
    omega

/-- The extended values are those of counters that do not wrap, and have wrapped once at most. -/
structure Tracks (nic : Nic) : Prop where
  last : ∀ counter, nic.dev.last counter = nic.totals counter
  wraps : ∀ counter : Counter, nic.totals counter < 2 * counter.modulus

/-- A poll of a device that tracks its registers. -/
theorem Tracks.poll (htracks : Tracks nic) (hcounting : Counting start nic received)
    {advance : Counts} (hadvance : ∀ counter : Counter, advance counter < counter.modulus) :
    ((nic.poll advance).1 = (tally.step received advance).1 ↔
        ∀ counter : Counter, nic.totals counter + advance counter < 2 * counter.modulus) ∧
      ((∀ counter : Counter, nic.totals counter + advance counter < 2 * counter.modulus) →
        Tracks (nic.poll advance).2) := by
  obtain ⟨-, htotals, -, -, hlast⟩ := poll_eq nic advance
  have hextended := fun counter =>
    extendCtr_total (htracks.wraps counter) (hadvance counter)
  have hvalue : ∀ counter, (nic.poll advance).2.dev.last counter =
      extendCtr counter.modulus ((nic.totals counter + advance counter) % counter.modulus : ℕ)
        (nic.totals counter) := by
    intro counter
    rw [hlast, htracks.last]
    rfl
  constructor
  · rw [hcounting.answer_eq_iff]
    · refine forall_congr' fun counter => ?_
      rw [hvalue, htotals, ← (hextended counter).2]
      rfl
    · intro counter
      rw [hvalue, htotals]
      exact (hextended counter).1
  · intro hwraps
    refine ⟨?_, ?_⟩
    · intro counter
      rw [hvalue, htotals]
      exact (hextended counter).2.mpr (hwraps counter)
    · rw [htotals]
      exact hwraps

/-- From there on all polls are exact exactly if no register wraps once more. -/
theorem Tracks.answers_eq_iff (htracks : Tracks nic) (hcounting : Counting start nic received)
    {polls : List Counts}
    (hadvance : ∀ advance ∈ polls, ∀ counter : Counter, advance counter < counter.modulus) :
    polling.answers nic polls = tally.answers received polls ↔
      ∀ counter : Counter,
        nic.totals counter + (polls.map fun advance => advance counter).sum <
          2 * counter.modulus := by
  induction polls generalizing nic received with
  | nil =>
      refine iff_of_true rfl fun counter => ?_
      simpa using htracks.wraps counter
  | cons advance rest ih =>
      obtain ⟨hfirst, hnext⟩ := htracks.poll hcounting (hadvance advance List.mem_cons_self)
      have htotals := (poll_eq nic advance).2.1
      simp only [Machine.answers, List.cons.injEq, List.map_cons, List.sum_cons]
      constructor
      · rintro ⟨hanswer, hanswers⟩ counter
        have hwraps := hfirst.mp hanswer
        have hrest := (ih (hnext hwraps) (hcounting.poll advance)
          fun later hlater => hadvance later (List.mem_cons_of_mem _ hlater)).mp hanswers counter
        rw [htotals, Counts.add] at hrest
        omega
      · intro hwraps
        have hwrap : ∀ counter : Counter,
            nic.totals counter + advance counter < 2 * counter.modulus := by
          intro counter
          have hcounter := hwraps counter
          omega
        refine ⟨hfirst.mpr hwrap, (ih (hnext hwrap) (hcounting.poll advance)
          fun later hlater => hadvance later (List.mem_cons_of_mem _ hlater)).mpr ?_⟩
        intro counter
        rw [htotals, Counts.add, Nat.add_assoc]
        exact hwraps counter

/-- The first poll takes the differences from zero, so it reads the registers as they are. -/
theorem first_poll (hcounting : Counting start nic received)
    (hlast : ∀ counter, nic.dev.last counter = 0) (advance : Counts) :
    ((nic.poll advance).1 = (tally.step received advance).1 ↔
        ∀ counter : Counter, nic.totals counter + advance counter < counter.modulus) ∧
      ((∀ counter : Counter, nic.totals counter + advance counter < counter.modulus) →
        Tracks (nic.poll advance).2) := by
  obtain ⟨-, htotals, -, -, hextended⟩ := poll_eq nic advance
  have hpositive : ∀ counter : Counter, 0 < counter.modulus := by
    intro counter
    cases counter <;> exact Nat.two_pow_pos _
  have hvalue : ∀ counter : Counter, (nic.poll advance).2.dev.last counter =
      ((nic.totals counter + advance counter) % counter.modulus : ℕ) := by
    intro counter
    rw [hextended, hlast, extendCtr_zero (Int.natCast_nonneg _)]
    rfl
  constructor
  · rw [hcounting.answer_eq_iff]
    · refine forall_congr' fun counter => ?_
      rw [hvalue, htotals, Counts.add, Nat.cast_inj, Nat.mod_eq_iff_lt (hpositive counter).ne']
    · intro counter
      rw [hvalue, htotals]
      exact_mod_cast Nat.mod_le _ _
  · intro hwraps
    refine ⟨?_, ?_⟩
    · intro counter
      rw [hvalue, htotals, Nat.mod_eq_of_lt (hwraps counter)]
      rfl
    · intro counter
      rw [htotals, Counts.add]
      have hcounter := hwraps counter
      omega

end Runs

theorem tally_notBelow (received : Counts) (polls : List Counts) :
    (∀ answer ∈ tally.answers received polls,
        NotBelow (.ok (received.packets, received .gorc)) answer) ∧
      (tally.answers received polls).Pairwise NotBelow := by
  induction polls generalizing received with
  | nil => exact ⟨nofun, .nil⟩
  | cons advance rest ih =>
      obtain ⟨hbelow, hpairwise⟩ := ih (received.add advance)
      refine ⟨?_, .cons hbelow hpairwise⟩
      -- what was received before the first poll of the list is not more than after it
      have hfirst : NotBelow (.ok (received.packets, received .gorc))
          (.ok ((received.add advance).packets, (received.add advance) .gorc)) := by
        simp only [NotBelow, Counts.packets, Counts.add]
        push_cast
        omega
      intro answer hanswer
      rcases List.mem_cons.mp hanswer with rfl | hlater
      · exact hfirst
      · have hafter := hbelow answer hlater
        cases answer with
        | error error => exact hafter
        | ok stats => exact ⟨hfirst.1.trans hafter.1, hfirst.2.trans hafter.2⟩

/-- The statistics are exact exactly in the runs in which no register wraps before
the first poll and none wraps twice. -/
theorem countsExactly_iff {start : Counts} {polls : List Counts}
    (hstart : ∀ counter : Counter, start counter < counter.modulus)
    (hadvance : ∀ advance ∈ polls, ∀ counter : Counter, advance counter < counter.modulus) :
    CountsExactly start polls ↔ SingleLateWrap start polls := by
  obtain ⟨dev, hinit, hlast, hpkts, hbytes⟩ := init_readings hstart
  have hcounting : Counting start ⟨start, dev⟩ .zero := ⟨fun _ => rfl, hpkts, hbytes⟩
  have hexact : CountsExactly start polls ↔
      polling.answers ⟨start, dev⟩ polls = tally.answers .zero polls := by
    constructor
    · rintro ⟨dev', hinit', hanswers, -⟩
      obtain rfl := Except.ok.inj (hinit.symm.trans hinit')
      exact hanswers
    · intro hanswers
      refine ⟨dev, hinit, hanswers, ?_⟩
      rw [hanswers]
      exact (tally_notBelow .zero polls).2
  rw [hexact]
  cases polls with
  | nil => exact iff_of_true rfl trivial
  | cons first rest =>
      obtain ⟨hfirst, htracks⟩ := first_poll hcounting hlast first
      have hrest := fun hwraps => (htracks hwraps).answers_eq_iff (hcounting.poll first)
        fun later hlater => hadvance later (List.mem_cons_of_mem _ hlater)
      simp only [(poll_eq ⟨start, dev⟩ first).2.1] at hrest
      simp only [Machine.answers, List.cons.injEq, SingleLateWrap, forall_and]
      constructor
      · rintro ⟨hanswer, hanswers⟩
        exact ⟨hfirst.mp hanswer, (hrest (hfirst.mp hanswer)).mp hanswers⟩
      · rintro ⟨hwraps, htwice⟩
        exact ⟨hfirst.mpr hwraps, (hrest hwraps).mpr htwice⟩

/-- Packet registers that are about to wrap. -/
def nearlyFull : Counts
  | .gorc => 0
  | _ => 2 ^ 32 - 10

/-- Every register advances by the same number. -/
def steady (number : ℕ) : Counts := fun _ => number

/-- The packet registers wrap between the two polls. -/
theorem countsExactly_one_wrap : CountsExactly nearlyFull [steady 5, steady 100] := by
  refine (countsExactly_iff ?_ ?_).mpr ?_
  · intro counter
    cases counter <;> decide
  · intro advance hadvance counter
    rcases List.mem_pair.mp hadvance with rfl | rfl <;> cases counter <;> decide
  · intro counter
    cases counter <;> decide

/-- The packet registers wrap before the first poll, which then reports a negative number. -/
theorem not_countsExactly_early_wrap :
    ¬ ∀ (start : Counts) (polls : List Counts),
      (∀ counter : Counter, start counter < counter.modulus) →
        (∀ advance ∈ polls, ∀ counter : Counter, advance counter < counter.modulus) →
          (∀ counter, start counter + (polls.map fun advance => advance counter).sum < 2 ^ 53) →
            CountsExactly start polls := by
  intro halways
  obtain ⟨dev, hinit, hanswers, -⟩ := halways nearlyFull [steady 100]
    (by intro counter; cases counter <;> decide)
    (by
      intro advance hadvance counter
      obtain rfl := List.mem_singleton.mp hadvance
      cases counter <;> decide)
    (by intro counter; cases counter <;> decide)
  have hread : Device.init nearlyFull.readings = .ok ⟨0, 0, 0, 0, 3 * (2 ^ 32 - 10), 0⟩ := by
    decide
  obtain rfl := Except.ok.inj (hread.symm.trans hinit)
  exact absurd hanswers (by decide)

end Libmoon.I40e
