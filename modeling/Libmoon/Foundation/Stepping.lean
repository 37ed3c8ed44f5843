import Mathlib.Data.List.Basic
import Mathlib.Logic.Relation
import Mathlib.Tactic.Common

/-! # Step functions and fuelled runs

A computation that may not terminate is a step function. A run with fuel returns
the result if the steps arrive at one in time; a result, once there, does not
depend on the fuel.
-/

namespace Foundation

universe u v

/-- What one step comes to. -/
inductive Stepped (State : Type u) (Result : Type v) where
  | next (state : State)
  | done (result : Result)

variable {State : Type u} {Result : Type v}

/-- Run at most `fuel` steps. -/
def runSteps (step : State → Stepped State Result) : Nat → State → Option Result
  | 0, _ => none
  | fuel + 1, state =>
      match step state with
      | .next state' => runSteps step fuel state'
      | .done result => some result

/-- The steps arrive at a result. -/
def Yields (step : State → Stepped State Result) (state : State) (result : Result) : Prop :=
  ∃ fuel, runSteps step fuel state = some result

variable {step : State → Stepped State Result} {state state' : State} {result result' : Result}

theorem Yields.of_done (hdone : step state = .done result) : Yields step state result :=
  ⟨1, by simp [runSteps, hdone]⟩

theorem Yields.of_next (hnext : step state = .next state') (hyields : Yields step state' result) :
    Yields step state result := by
  obtain ⟨fuel, hrun⟩ := hyields
  exact ⟨fuel + 1, by simp [runSteps, hnext, hrun]⟩

theorem runSteps_unique {fuel fuel' : Nat} (hrun : runSteps step fuel state = some result)
    (hrun' : runSteps step fuel' state = some result') : result = result' := by
  induction fuel generalizing fuel' state with
  | zero => cases hrun
  | succ fuel ih =>
      cases fuel' with
      | zero => cases hrun'
      | succ fuel' =>
          unfold runSteps at hrun hrun'
          cases hstep : step state with
          | next state' =>
              rw [hstep] at hrun hrun'
              exact ih hrun hrun'
          | done other =>
              rw [hstep] at hrun hrun'
              exact Option.some.inj (hrun.symm.trans hrun')

/-- There is at most one result. -/
theorem Yields.unique (hyields : Yields step state result) (hyields' : Yields step state result') :
    result = result' := by
  obtain ⟨fuel, hrun⟩ := hyields
  obtain ⟨fuel', hrun'⟩ := hyields'
  exact runSteps_unique hrun hrun'

/-- One state is followed by the other. -/
def Next (step : State → Stepped State Result) (state state' : State) : Prop :=
  step state = .next state'

/-- A run from a state passes through those that it leads to. -/
theorem Yields.of_reflTransGen (hleads : Relation.ReflTransGen (Next step) state state')
    (hyields : Yields step state' result) : Yields step state result := by
  induction hleads using Relation.ReflTransGen.head_induction_on with
  | refl => exact hyields
  | head hnext _ ih => exact .of_next hnext ih

/-- The rest of a run is shorter. -/
theorem runSteps_of_transGen {fuel : Nat} (hleads : Relation.TransGen (Next step) state state')
    (hrun : runSteps step fuel state = some result) :
    ∃ fuel' < fuel, runSteps step fuel' state' = some result := by
  induction hleads using Relation.TransGen.head_induction_on generalizing fuel with
  | single hnext =>
      cases fuel with
      | zero => cases hrun
      | succ fuel =>
          rw [runSteps, hnext] at hrun
          exact ⟨fuel, Nat.lt_succ_self fuel, hrun⟩
  | head hnext _ ih =>
      cases fuel with
      | zero => cases hrun
      | succ fuel =>
          rw [runSteps, hnext] at hrun
          obtain ⟨fuel', hlt, hrest⟩ := ih hrun
          exact ⟨fuel', Nat.lt_succ_of_lt hlt, hrest⟩

/-! ## Runs along a sequence of states -/

section Sequence

variable {stateAt : Nat → State} {resultAt : Nat → Result} {Stops : Nat → Prop}
  (hdone : ∀ k, Stops k → step (stateAt k) = .done (resultAt k))
  (hnext : ∀ k, ¬ Stops k → step (stateAt k) = .next (stateAt (k + 1)))

include hdone hnext

theorem stops_of_runSteps {fuel k : Nat} (hrun : runSteps step fuel (stateAt k) = some result) :
    ∃ n, k ≤ n ∧ Stops n ∧ (∀ j, k ≤ j → j < n → ¬ Stops j) ∧ result = resultAt n := by
  induction fuel generalizing k with
  | zero => cases hrun
  | succ fuel ih =>
      by_cases hstops : Stops k
      · rw [runSteps, hdone k hstops] at hrun
        exact ⟨k, Nat.le_refl k, hstops, fun j hk hj => absurd hj (by omega),
          (Option.some.inj hrun).symm⟩
      · rw [runSteps, hnext k hstops] at hrun
        obtain ⟨n, hle, hn, hbefore, hresult⟩ := ih hrun
        refine ⟨n, by omega, hn, ?_, hresult⟩
        intro j hk hj
        by_cases heq : j = k
        · rw [heq]
          exact hstops
        · exact hbefore j (by omega) hj

/-- A run along a sequence of states ends at the first one that stops it. -/
theorem Yields.iff_of_stateAt : Yields step (stateAt 0) result ↔
    ∃ n, Stops n ∧ (∀ j < n, ¬ Stops j) ∧ result = resultAt n := by
  constructor
  · rintro ⟨fuel, hrun⟩
    obtain ⟨n, _, hn, hbefore, hresult⟩ := stops_of_runSteps hdone hnext hrun
    exact ⟨n, hn, fun j hj => hbefore j (Nat.zero_le j) hj, hresult⟩
  · rintro ⟨n, hn, hbefore, rfl⟩
    have hleads (k : Nat) (hk : k ≤ n) :
        Relation.ReflTransGen (Next step) (stateAt 0) (stateAt k) := by
      induction k with
      | zero => exact .refl
      | succ k ih => exact (ih (by omega)).tail (hnext k (hbefore k (by omega)))
    exact .of_reflTransGen (hleads n (Nat.le_refl n)) (.of_done (hdone n hn))

end Sequence

end Foundation
