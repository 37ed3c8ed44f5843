import Libmoon.Foundation.Machine
import Mathlib.Algebra.BigOperators.Group.Finset.Basic
import Mathlib.Algebra.Order.Floor.Ring
import Mathlib.Data.Rat.Floor
import Mathlib.Tactic.Ring

/-! # Rates of transmit queues

Where a driver cannot limit the rate of one queue, `txQueue:setRate` limits the whole device.
The rate of the device is kept as one number, to which every call adds its own. Rates are
such that their sums are exact, as those of whole Mbit/s are in floating point.
-/

namespace Libmoon.Device

open Foundation

/-- The members of a device that `txQueue:setRate` uses. -/
structure RateDev where
  customRateLimitPerQueue : Bool
  totalRate : Option ℚ
deriving DecidableEq

/-- `queue:setRate(rate, pktSize)` for one of the queues. -/
structure RateCall where
  qid : ℕ
  rate : ℚ
  pktSize : Option ℕ
deriving DecidableEq

/-- What a call has a device, a driver or the log do. -/
inductive RateEvent where
  | iceSetPpsQueue (qid : ℕ) (pps : Bool)
  | iceSetQBwLimit (qid : ℕ) (bw : ℤ)
  | setQueueRateLimit (qid : ℕ) (rate : ℚ)
  | warnPerDevice (totalRate : ℚ)
  | warnFailed (qid : ℕ) (rc : ℤ)
  | devSetRate (rate : ℚ) (pktSize : Option ℕ)
deriving DecidableEq

/-- What `rte_eth_set_queue_rate_limit` returns, and the error number of an operation that is
not supported. -/
structure RateDriver where
  setQueueRateLimit : ℕ → ℚ → ℤ
  NOTSUP : ℤ

/-- `txQueue:setRate` -/
def setRate (driver : RateDriver) (dev : RateDev) (call : RateCall) :
    List RateEvent × RateDev :=
  if dev.customRateLimitPerQueue then
    match call.pktSize with
    | some pktSize =>
        let bwLimit := call.rate * 1000000 / ((pktSize + 4) * 8) * 2 * 1000 / 1024
        ([.iceSetPpsQueue call.qid true, .iceSetQBwLimit call.qid ⌊bwLimit + 1 / 2⌋], dev)
    | none =>
        ([.iceSetPpsQueue call.qid false,
          .iceSetQBwLimit call.qid ⌊1000 * call.rate + 1 / 2⌋], dev)
  else
    let rc := driver.setQueueRateLimit call.qid call.rate
    let tried := RateEvent.setQueueRateLimit call.qid call.rate
    if rc = -driver.NOTSUP then
      -- what the queue contributed before is not taken off
      let totalRate := dev.totalRate.getD 0 + call.rate
      ([tried, .warnPerDevice totalRate, .devSetRate totalRate call.pktSize],
        { dev with totalRate := some totalRate })
    else if rc ≠ 0 then
      ([tried, .warnFailed call.qid rc], dev)
    else
      ([tried], dev)

/-- The queues of one device. -/
def txQueues (driver : RateDriver) : Machine RateDev RateCall (List RateEvent) where
  step := setRate driver

def RateEvent.devRate : RateEvent → Option ℚ
  | .devSetRate rate _ => some rate
  | _ => none

/-- The rate last passed to `dev:setRate`. -/
def lastPassed (events : List RateEvent) : Option ℚ :=
  (events.filterMap RateEvent.devRate).getLast?

/-! ## What the rate of the device should be -/

/-- The rate most recently set for a queue. -/
def mostRecent (calls : List RateCall) (qid : ℕ) : Option ℚ :=
  (calls.reverse.find? (·.qid = qid)).map RateCall.rate

/-- The queues configured so far. -/
def configured (calls : List RateCall) : Finset ℕ :=
  (calls.map RateCall.qid).toFinset

/-- The sum over the queues of the rates most recently set. -/
def sumOfRates (calls : List RateCall) : ℚ :=
  ∑ qid ∈ configured calls, (mostRecent calls qid).getD 0

theorem mostRecent_concat (calls : List RateCall) (call : RateCall) :
    mostRecent (calls ++ [call]) =
      Function.update (mostRecent calls) call.qid (some call.rate) := by
  funext qid
  rw [mostRecent, List.reverse_concat, List.find?_cons]
  by_cases hqid : call.qid = qid
  · subst hqid
    simp
  · rw [Function.update_of_ne (Ne.symm hqid)]
    simp [hqid, mostRecent]

theorem configured_concat (calls : List RateCall) (call : RateCall) :
    configured (calls ++ [call]) = insert call.qid (configured calls) := by
  ext qid
  simp [configured]

/-- A queue that was not configured has no rate. -/
theorem mostRecent_of_notMem {calls : List RateCall} {qid : ℕ} (hqid : qid ∉ configured calls) :
    mostRecent calls qid = none := by
  rw [mostRecent, Option.map_eq_none_iff, List.find?_eq_none]
  intro call hcall
  have hne : call.qid ≠ qid := by
    rintro rfl
    exact hqid (List.mem_toFinset.mpr (List.mem_map_of_mem (List.mem_reverse.mp hcall)))
  simpa using hne

/-- A call replaces the rate of its queue in the sum. -/
theorem sumOfRates_concat (calls : List RateCall) (call : RateCall) :
    sumOfRates (calls ++ [call]) =
      sumOfRates calls - (mostRecent calls call.qid).getD 0 + call.rate := by
  have hothers : ∑ qid ∈ (configured calls).erase call.qid,
      (mostRecent (calls ++ [call]) qid).getD 0 =
        ∑ qid ∈ (configured calls).erase call.qid, (mostRecent calls qid).getD 0 := by
    refine Finset.sum_congr rfl ?_
    intro qid hqid
    rw [mostRecent_concat, Function.update_of_ne (Finset.ne_of_mem_erase hqid)]
  -- both sums are taken apart into the queue of the call and the others
  have hnew : sumOfRates (calls ++ [call]) = call.rate +
      ∑ qid ∈ (configured calls).erase call.qid, (mostRecent calls qid).getD 0 := by
    rw [sumOfRates, configured_concat, ← Finset.add_sum_erase _ _ (Finset.mem_insert_self _ _),
      Finset.erase_insert_eq_erase, hothers, mostRecent_concat, Function.update_self]
    rfl
  have hold : sumOfRates calls = (mostRecent calls call.qid).getD 0 +
      ∑ qid ∈ (configured calls).erase call.qid, (mostRecent calls qid).getD 0 := by
    by_cases hqid : call.qid ∈ configured calls
    · exact (Finset.add_sum_erase _ _ hqid).symm
    · rw [mostRecent_of_notMem hqid, Finset.erase_eq_of_notMem hqid, sumOfRates]
      exact (zero_add _).symm
  rw [hnew, hold]
  ring

/-! ## What it is -/

section Fallback

variable {driver : RateDriver} {dev : RateDev}
  (hnotsup : ∀ qid rate, driver.setQueueRateLimit qid rate = -driver.NOTSUP)
  (hcustom : dev.customRateLimitPerQueue = false)

include hnotsup hcustom

theorem setRate_notsup (call : RateCall) :
    setRate driver dev call =
      ([.setQueueRateLimit call.qid call.rate, .warnPerDevice (dev.totalRate.getD 0 + call.rate),
        .devSetRate (dev.totalRate.getD 0 + call.rate) call.pktSize],
        { dev with totalRate := some (dev.totalRate.getD 0 + call.rate) }) := by
  simp [setRate, hnotsup, hcustom]

/-- The device gets the sum of all rates of all calls. -/
theorem lastPassed_answers {calls : List RateCall} (hne : calls ≠ []) :
    lastPassed ((txQueues driver).answers dev calls).flatten =
      some (dev.totalRate.getD 0 + (calls.map RateCall.rate).sum) := by
  induction calls generalizing dev with
  | nil => exact absurd rfl hne
  | cons call rest ih =>
      have hstep := setRate_notsup hnotsup hcustom call
      rw [Machine.answers, List.flatten_cons, lastPassed, List.filterMap_append,
        List.getLast?_append, List.map_cons, List.sum_cons]
      change ((lastPassed ((txQueues driver).answers (setRate driver dev call).2 rest).flatten).or
        (lastPassed (setRate driver dev call).1)) = _
      rw [hstep]
      -- the rate passed last is that of the last call
      cases rest with
      | nil =>
          rw [List.map_nil, List.sum_nil, add_zero]
          rfl
      | cons next rest =>
          rw [ih (by exact hcustom) (List.cons_ne_nil _ _)]
          simp [add_assoc]

end Fallback

/-- The sum of all rates is that of the latest rates when none was replaced but zero. -/
theorem sum_eq_sumOfRates_iff (calls : List RateCall) :
    (∀ first, first <+: calls → (first.map RateCall.rate).sum = sumOfRates first) ↔
      ∀ first call, first ++ [call] <+: calls → (mostRecent first call.qid).getD 0 = 0 := by
  have hstep (first : List RateCall) (call : RateCall)
      (hfirst : (first.map RateCall.rate).sum = sumOfRates first) :
      ((first ++ [call]).map RateCall.rate).sum = sumOfRates (first ++ [call]) ↔
        (mostRecent first call.qid).getD 0 = 0 := by
    rw [sumOfRates_concat, List.map_append, List.sum_append, hfirst]
    constructor
    · intro hsum
      simp only [List.map_cons, List.map_nil, List.sum_cons, List.sum_nil] at hsum
      linarith
    · intro hzero
      simp [hzero]
  constructor
  · intro hsums first call hcall
    exact (hstep first call (hsums first ((List.prefix_append _ _).trans hcall))).mp
      (hsums _ hcall)
  · intro hzero first
    induction first using List.reverseRecOn with
    | nil => exact fun _ => rfl
    | append_singleton first call ih =>
        intro hcall
        exact (hstep first call (ih ((List.prefix_append _ _).trans hcall))).mpr
          (hzero first call hcall)

/-- After every call the device has the sum of the rates most recently set, provided that a
queue is set again only from zero. -/
theorem setRate_tracks_iff {driver : RateDriver} {dev : RateDev}
    (hnotsup : ∀ qid rate, driver.setQueueRateLimit qid rate = -driver.NOTSUP)
    (hcustom : dev.customRateLimitPerQueue = false) (hfresh : dev.totalRate = none)
    (calls : List RateCall) :
    (∀ first, first <+: calls → first ≠ [] →
        lastPassed ((txQueues driver).answers dev first).flatten = some (sumOfRates first)) ↔
      ∀ first call, first ++ [call] <+: calls → (mostRecent first call.qid).getD 0 = 0 := by
  rw [← sum_eq_sumOfRates_iff]
  refine forall₂_congr fun first _ => ?_
  by_cases hne : first = []
  · subst hne
    exact iff_of_true (absurd rfl) rfl
  · rw [lastPassed_answers hnotsup hcustom hne, hfresh]
    simp [hne]

/-- A driver that limits no rates. -/
def unlimited : RateDriver := ⟨fun _ _ => -95, 95⟩

theorem setRate_tracks_iff_two :
    (∀ first, first <+: [⟨0, 100, none⟩, ⟨1, 50, none⟩] → first ≠ [] →
        lastPassed ((txQueues unlimited).answers ⟨false, none⟩ first).flatten =
          some (sumOfRates first)) ↔
      ∀ first call, first ++ [call] <+: [⟨0, 100, none⟩, ⟨1, 50, none⟩] →
        (mostRecent first call.qid).getD 0 = 0 :=
  setRate_tracks_iff (fun _ _ => rfl) rfl rfl _

/-- Setting a queue twice doubles the rate of the device. -/
theorem setRate_twice :
    (∀ qid rate, unlimited.setQueueRateLimit qid rate = -unlimited.NOTSUP) ∧
    lastPassed ((txQueues unlimited).answers ⟨false, none⟩
      [⟨0, 100, none⟩, ⟨0, 100, none⟩]).flatten = some 200 ∧
    sumOfRates [⟨0, 100, none⟩, ⟨0, 100, none⟩] = 100 ∧
    ¬ ∀ first, first <+: [⟨0, 100, none⟩, ⟨0, 100, none⟩] → first ≠ [] →
      lastPassed ((txQueues unlimited).answers ⟨false, none⟩ first).flatten =
        some (sumOfRates first) := by
  refine ⟨fun _ _ => rfl, by decide +kernel, by decide +kernel, ?_⟩
  intro htracks
  exact absurd (htracks _ (List.prefix_refl _) (List.cons_ne_nil _ _)) (by decide +kernel)

end Libmoon.Device
