import Mathlib.Data.ENat.Lattice
import Mathlib.Data.List.Induction
import Mathlib.Tactic.Common

/-! # The run-time limit

Tasks run until a signal arrives or a configured time has passed, and some of them a little
longer: they ask whether the program would still be running if it were earlier. Times are
values of the TSC. The earlier time is a subtraction of 64-bit integers, and the greatest of
them stands for a limit that is not set.
-/

namespace Libmoon.InterTask

/-- `stop_at` and `signal_at`. -/
structure Lifecycle where
  stopAt : UInt64
  signalAt : UInt64
deriving DecidableEq

/-- `(uint64_t) -1`. -/
def never : UInt64 := -1

/-- The initial values. -/
def Lifecycle.initial : Lifecycle := ⟨never, never⟩

/-- What happens to the limits, each with the TSC that is read then. -/
inductive LifecycleEvent where
  | setRuntime (runTime : UInt32) (rdtsc : UInt64)
  | signal (rdtsc : UInt64)
deriving DecidableEq

/-- The cycles of some milliseconds. -/
def cyclesOf (tscHz : UInt64) (milliseconds : UInt32) : UInt64 :=
  milliseconds.toUInt64 * tscHz / 1000

namespace Lifecycle

/-- `handler`. It aborts on a second signal. -/
def handler (state : Lifecycle) (rdtsc : UInt64) : Option Lifecycle :=
  if state.signalAt ≠ never then none else some { state with signalAt := rdtsc }

/-- `set_runtime`. -/
def setRuntime (tscHz : UInt64) (state : Lifecycle) (runTime : UInt32) (rdtsc : UInt64) :
    Lifecycle :=
  { state with stopAt := rdtsc + cyclesOf tscHz runTime }

/-- `is_running`. -/
def isRunning (tscHz : UInt64) (state : Lifecycle) (extraTime : UInt32) (rdtsc : UInt64) : Bool :=
  let extraTimeCycles := cyclesOf tscHz extraTime
  let time := rdtsc - extraTimeCycles
  state.signalAt > time && state.stopAt > time

def step (tscHz : UInt64) (state : Lifecycle) : LifecycleEvent → Option Lifecycle
  | .setRuntime runTime rdtsc => some (state.setRuntime tscHz runTime rdtsc)
  | .signal rdtsc => state.handler rdtsc

/-- The limits after a history, unless the program has been aborted. -/
def run (tscHz : UInt64) (history : List LifecycleEvent) : Option Lifecycle :=
  history.foldlM (step tscHz) initial

end Lifecycle

/-! ## Limits over the integers -/

/-- The cycles of some milliseconds, with no bound on the product. -/
def exactCycles (tscHz : UInt64) (milliseconds : UInt32) : ℕ :=
  milliseconds.toNat * tscHz.toNat / 1000

/-- When the signal arrives. -/
def LifecycleEvent.signalTime : LifecycleEvent → Option ℕ
  | .signal rdtsc => some rdtsc.toNat
  | .setRuntime .. => none

/-- When a `set_runtime` makes the tasks stop. -/
def LifecycleEvent.stopTime (tscHz : UInt64) : LifecycleEvent → Option ℕ
  | .setRuntime runTime rdtsc => some (rdtsc.toNat + exactCycles tscHz runTime)
  | .signal _ => none

/-- The time of the signal. -/
def signalTime (history : List LifecycleEvent) : Option ℕ :=
  history.findSome? LifecycleEvent.signalTime

/-- The stop time is that of the last `set_runtime`. -/
def stopTime (tscHz : UInt64) (history : List LifecycleEvent) : Option ℕ :=
  history.reverse.findSome? (LifecycleEvent.stopTime tscHz)

/-- A time that may not be set, which is infinite then. -/
def finiteOrTop (time : Option ℕ) : ℕ∞ := time.elim ⊤ (↑)

/-- The earlier of the two times. -/
noncomputable def limit (tscHz : UInt64) (history : List LifecycleEvent) : ℕ∞ :=
  min (finiteOrTop (signalTime history)) (finiteOrTop (stopTime tscHz history))

/-! ## What is stored -/

/-- No product of the history takes more than 64 bits. -/
def LifecycleEvent.Fits (tscHz : UInt64) : LifecycleEvent → Prop
  | .setRuntime runTime _ => runTime.toNat * tscHz.toNat < 2 ^ 64
  | .signal _ => True

instance (tscHz : UInt64) (event : LifecycleEvent) : Decidable (event.Fits tscHz) :=
  match event with
  | .setRuntime .. => inferInstanceAs (Decidable (_ < _))
  | .signal _ => isTrue trivial

theorem toNat_cyclesOf {tscHz : UInt64} {milliseconds : UInt32}
    (hproduct : milliseconds.toNat * tscHz.toNat < 2 ^ 64) :
    (cyclesOf tscHz milliseconds).toNat = exactCycles tscHz milliseconds := by
  rw [cyclesOf, UInt64.toNat_div, UInt64.toNat_mul, UInt32.toNat_toUInt64,
    Nat.mod_eq_of_lt hproduct]
  rfl

/-- The limits as they are kept in 64 bits. -/
structure Stores (state : Lifecycle) (signal stop : Option ℕ) : Prop where
  signal : state.signalAt.toNat = signal.getD (2 ^ 64 - 1)
  stop : state.stopAt.toNat = (stop.map (· % 2 ^ 64)).getD (2 ^ 64 - 1)

theorem stores_setRuntime {tscHz : UInt64} {state : Lifecycle} {signal stop : Option ℕ}
    (hstores : Stores state signal stop) {runTime : UInt32}
    (hproduct : runTime.toNat * tscHz.toNat < 2 ^ 64) (rdtsc : UInt64) :
    Stores (state.setRuntime tscHz runTime rdtsc) signal
      (some (rdtsc.toNat + exactCycles tscHz runTime)) where
  signal := hstores.signal
  stop := by
    rw [Lifecycle.setRuntime, UInt64.toNat_add, toNat_cyclesOf hproduct]
    rfl

theorem stores_handler {state : Lifecycle} {stop : Option ℕ} (hstores : Stores state none stop)
    (rdtsc : UInt64) :
    ∃ state', state.handler rdtsc = some state' ∧ Stores state' (some rdtsc.toNat) stop := by
  have hnever : state.signalAt = never := UInt64.toNat_inj.mp hstores.signal
  refine ⟨{ state with signalAt := rdtsc }, ?_, rfl, hstores.stop⟩
  rw [Lifecycle.handler, if_neg (not_not_intro hnever)]

/-- The number of signals. -/
def signals (history : List LifecycleEvent) : ℕ :=
  history.countP fun event => event.signalTime.isSome

theorem stores_run {tscHz : UInt64} {history : List LifecycleEvent}
    (hfits : ∀ event ∈ history, event.Fits tscHz) (hsignals : signals history ≤ 1) :
    ∃ state, Lifecycle.run tscHz history = some state ∧
      Stores state (signalTime history) (stopTime tscHz history) := by
  induction history using List.reverseRecOn with
  | nil => exact ⟨.initial, rfl, rfl, rfl⟩
  | append_singleton history event ih =>
      rw [signals, List.countP_append] at hsignals
      obtain ⟨state, hrun, hstores⟩ := ih
        (fun earlier hearlier => hfits earlier (List.mem_append_left _ hearlier))
        (Nat.le_of_add_right_le hsignals)
      have hevent : event.Fits tscHz := hfits event (by simp)
      have hstop : stopTime tscHz (history ++ [event]) =
          (event.stopTime tscHz).or (stopTime tscHz history) := by
        rw [stopTime, List.reverse_concat, List.findSome?_cons]
        cases event <;> rfl
      have hsignal : signalTime (history ++ [event]) =
          (signalTime history).or event.signalTime := by
        simp [signalTime]
      have hnext : Lifecycle.run tscHz (history ++ [event]) = state.step tscHz event := by
        rw [Lifecycle.run] at hrun
        simp [Lifecycle.run, List.foldlM_append, hrun]
      rw [hnext, hstop, hsignal]
      cases event with
      | setRuntime runTime rdtsc =>
          refine ⟨_, rfl, ?_⟩
          rw [LifecycleEvent.signalTime, Option.or_none]
          exact stores_setRuntime hstores hevent rdtsc
      | signal rdtsc =>
          -- it is the first one
          have hzero : signals history = 0 := Nat.le_zero.mp (Nat.le_of_succ_le_succ hsignals)
          have hnone : signalTime history = none := by
            rw [signalTime, List.findSome?_eq_none_iff]
            intro earlier hearlier
            simpa using List.countP_eq_zero.mp hzero earlier hearlier
          rw [hnone] at hstores ⊢
          exact stores_handler hstores rdtsc

/-! ## The comparison -/

/-- The subtraction does not wrap, the greatest number is not compared with a limit that is
not set, and the stop time has not been cut off, unless the signal comes first. Where the
subtraction wraps, what is stored has to be greater still. -/
def Comparable (tscHz : UInt64) (history : List LifecycleEvent) (state : Lifecycle)
    (extraTime : UInt32) (rdtsc : UInt64) : Prop :=
  let extra := exactCycles tscHz extraTime
  let time := rdtsc.toNat
  if extra ≤ time then
    (signalTime history = none → stopTime tscHz history = none → time - extra ≠ 2 ^ 64 - 1) ∧
      ∀ stop ∈ stopTime tscHz history, 2 ^ 64 ≤ stop → time - extra + 2 ^ 64 < stop ∨
        ∃ signal ∈ signalTime history, signal ≤ time - extra
  else
    2 ^ 64 + time < state.signalAt.toNat + extra ∧ 2 ^ 64 + time < state.stopAt.toNat + extra

instance (tscHz : UInt64) (history : List LifecycleEvent) (state : Lifecycle)
    (extraTime : UInt32) (rdtsc : UInt64) :
    Decidable (Comparable tscHz history state extraTime rdtsc) :=
  inferInstanceAs (Decidable (if exactCycles tscHz extraTime ≤ rdtsc.toNat then _ ∧ _ else _ ∧ _))

theorem lt_finiteOrTop_iff {time : Option ℕ} {now extra : ℕ} :
    (now : ℕ∞) < finiteOrTop time + extra ↔ ∀ value ∈ time, now < value + extra := by
  cases time with
  | none => simp [finiteOrTop]
  | some value =>
      simp only [finiteOrTop, Option.elim_some, Option.mem_def, Option.some.injEq, forall_eq']
      exact_mod_cast Iff.rfl

theorem lt_limit_iff {tscHz : UInt64} {history : List LifecycleEvent} {now extra : ℕ} :
    (now : ℕ∞) < limit tscHz history + extra ↔
      (∀ signal ∈ signalTime history, now < signal + extra) ∧
        ∀ stop ∈ stopTime tscHz history, now < stop + extra := by
  rw [limit, ← min_add_add_right, lt_min_iff, lt_finiteOrTop_iff, lt_finiteOrTop_iff]

theorem exactCycles_lt {tscHz : UInt64} {milliseconds : UInt32}
    (hproduct : milliseconds.toNat * tscHz.toNat < 2 ^ 64) :
    exactCycles tscHz milliseconds < 2 ^ 55 := by
  rw [exactCycles]
  omega

theorem Lifecycle.isRunning_iff {tscHz : UInt64} (state : Lifecycle) {extraTime : UInt32}
    (hproduct : extraTime.toNat * tscHz.toNat < 2 ^ 64) (rdtsc : UInt64) :
    state.isRunning tscHz extraTime rdtsc = true ↔
      (2 ^ 64 - exactCycles tscHz extraTime + rdtsc.toNat) % 2 ^ 64 < state.signalAt.toNat ∧
        (2 ^ 64 - exactCycles tscHz extraTime + rdtsc.toNat) % 2 ^ 64 < state.stopAt.toNat := by
  simp only [isRunning, Bool.and_eq_true, decide_eq_true_eq, gt_iff_lt, UInt64.lt_iff_toNat_lt,
    UInt64.toNat_sub, toNat_cyclesOf hproduct]

theorem signalTime_lt {history : List LifecycleEvent} {signal : ℕ}
    (hsignal : signalTime history = some signal) : signal < 2 ^ 64 := by
  obtain ⟨event, -, hevent⟩ := List.exists_of_findSome?_eq_some hsignal
  cases event with
  | setRuntime runTime rdtsc => cases hevent
  | signal rdtsc =>
      cases hevent
      exact rdtsc.toNat_lt

theorem stopTime_lt {tscHz : UInt64} {history : List LifecycleEvent}
    (hfits : ∀ event ∈ history, event.Fits tscHz) {stop : ℕ}
    (hstop : stopTime tscHz history = some stop) : stop < 2 ^ 64 + 2 ^ 55 := by
  obtain ⟨event, hmem, hevent⟩ := List.exists_of_findSome?_eq_some hstop
  have hproduct := hfits event (List.mem_reverse.mp hmem)
  cases event with
  | signal rdtsc => cases hevent
  | setRuntime runTime rdtsc =>
      cases hevent
      exact Nat.add_lt_add rdtsc.toNat_lt (exactCycles_lt hproduct)

theorem isRunning_agrees_iff {tscHz : UInt64} {history : List LifecycleEvent}
    {state : Lifecycle} (hfits : ∀ event ∈ history, event.Fits tscHz)
    (hstores : Stores state (signalTime history) (stopTime tscHz history)) {extraTime : UInt32}
    (hproduct : extraTime.toNat * tscHz.toNat < 2 ^ 64) (rdtsc : UInt64) :
    (state.isRunning tscHz extraTime rdtsc = true ↔
        (rdtsc.toNat : ℕ∞) < limit tscHz history + exactCycles tscHz extraTime) ↔
      Comparable tscHz history state extraTime rdtsc := by
  rw [state.isRunning_iff hproduct, lt_limit_iff, Comparable]
  have hextra := exactCycles_lt hproduct
  have htime := rdtsc.toNat_lt
  have hsignalLt := @signalTime_lt history
  have hstopLt := @stopTime_lt tscHz history hfits
  obtain ⟨hsignalAt, hstopAt⟩ := hstores
  generalize signalTime history = signal at *
  generalize stopTime tscHz history = stop at *
  generalize exactCycles tscHz extraTime = extra at *
  -- the subtraction wraps or it does not
  by_cases hle : extra ≤ rdtsc.toNat
  · have hearlier : (2 ^ 64 - extra + rdtsc.toNat) % 2 ^ 64 = rdtsc.toNat - extra := by omega
    simp only [if_pos hle, hearlier, hsignalAt, hstopAt]
    cases signal with
    | none =>
        cases stop with
        | none =>
            simp
            omega
        | some stop =>
            simp at *
            omega
    | some signal =>
        cases stop with
        | none =>
            simp at *
            omega
        | some stop =>
            simp at *
            omega
  · have hwrapped : (2 ^ 64 - extra + rdtsc.toNat) % 2 ^ 64 = 2 ^ 64 - extra + rdtsc.toNat := by
      omega
    simp only [if_neg hle, hwrapped, hsignalAt, hstopAt]
    cases signal with
    | none =>
        cases stop with
        | none =>
            simp
            omega
        | some stop =>
            simp at *
            omega
    | some signal =>
        cases stop with
        | none =>
            simp at *
            omega
        | some stop =>
            simp at *
            omega

theorem exactCycles_mono (tscHz : UInt64) {shorter longer : UInt32} (hle : shorter ≤ longer) :
    exactCycles tscHz shorter ≤ exactCycles tscHz longer :=
  Nat.div_le_div_right (Nat.mul_le_mul_right _ (UInt32.le_iff_toNat_le.mp hle))

/-- The limit is compared over the integers exactly if the numbers can be compared. More
extra time then keeps the tasks running, and with the same limits they stay stopped. -/
theorem isRunning_right_iff (tscHz : UInt64) (history : List LifecycleEvent)
    (hfits : ∀ event ∈ history, event.Fits tscHz) (hsignals : signals history ≤ 1)
    (extraTime : UInt32) (hproduct : extraTime.toNat * tscHz.toNat < 2 ^ 64) (rdtsc : UInt64) :
    ∃ state, Lifecycle.run tscHz history = some state ∧
      ((state.isRunning tscHz extraTime rdtsc = true ↔
          (rdtsc.toNat : ℕ∞) < limit tscHz history + exactCycles tscHz extraTime) ↔
        Comparable tscHz history state extraTime rdtsc) ∧
      (∀ longer, extraTime ≤ longer → longer.toNat * tscHz.toNat < 2 ^ 64 →
        Comparable tscHz history state extraTime rdtsc →
        Comparable tscHz history state longer rdtsc →
        state.isRunning tscHz extraTime rdtsc = true → state.isRunning tscHz longer rdtsc = true) ∧
      ∀ later, rdtsc ≤ later → Comparable tscHz history state extraTime rdtsc →
        Comparable tscHz history state extraTime later →
        state.isRunning tscHz extraTime rdtsc = false →
          state.isRunning tscHz extraTime later = false := by
  obtain ⟨state, hrun, hstores⟩ := stores_run hfits hsignals
  have hagrees (time : UInt64) := isRunning_agrees_iff hfits hstores hproduct time
  refine ⟨state, hrun, hagrees rdtsc, ?_, ?_⟩
  · intro longer hlonger hproduct' hcomparable hcomparable' hrunning
    have hagrees' := isRunning_agrees_iff hfits hstores hproduct' rdtsc
    rw [hagrees'.mpr hcomparable']
    refine lt_of_lt_of_le (((hagrees rdtsc).mpr hcomparable).mp hrunning) ?_
    exact add_le_add_right (Nat.cast_le.mpr (exactCycles_mono tscHz hlonger)) _
  · intro later hlater hcomparable hcomparable' hstopped
    rw [← Bool.not_eq_true] at hstopped ⊢
    rw [(hagrees rdtsc).mpr hcomparable, not_lt] at hstopped
    rw [(hagrees later).mpr hcomparable', not_lt]
    exact hstopped.trans (Nat.cast_le.mpr (UInt64.le_iff_toNat_le.mp hlater))

/-- From three seconds on for one second, and half a second more. -/
theorem isRunning_right_at_half :
    ∃ state, Lifecycle.run 1000000000 [.setRuntime 1000 3000000000] = some state ∧
      (state.isRunning 1000000000 500 4200000000 = true ↔
        ((4200000000 : UInt64).toNat : ℕ∞) <
          limit 1000000000 [.setRuntime 1000 3000000000] + exactCycles 1000000000 500) := by
  obtain ⟨state, hrun, hagrees, -⟩ := isRunning_right_iff 1000000000
    [.setRuntime 1000 3000000000] (by decide) (by decide) 500 (by decide) 4200000000
  have hstate : Lifecycle.run 1000000000 [.setRuntime 1000 3000000000] =
      some ⟨4000000000, never⟩ := by decide
  rw [hstate] at hrun
  cases hrun
  exact ⟨_, hstate, hagrees.mpr (by decide)⟩

/-- The same with ten seconds more. At five seconds the tasks do not run. -/
theorem isRunning_wraps :
    ∃ state, Lifecycle.run 1000000000 [.setRuntime 1000 3000000000] = some state ∧
      ¬ (state.isRunning 1000000000 10000 5000000000 = true ↔
        ((5000000000 : UInt64).toNat : ℕ∞) <
          limit 1000000000 [.setRuntime 1000 3000000000] + exactCycles 1000000000 10000) := by
  refine ⟨⟨4000000000, never⟩, by decide, fun hagrees => ?_⟩
  rw [lt_limit_iff] at hagrees
  exact absurd (hagrees.mpr (by decide)) (by decide)

end Libmoon.InterTask
