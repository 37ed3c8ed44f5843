import Mathlib.Tactic.Common

/-! # Programs that may stop

A program on a state returns a value or stops with an error. Its outcome says under which
condition it returns, what holds of the value and the state then, and what holds of the
state in which it stops otherwise.
-/

namespace Foundation

universe u

variable {Error State Value Value' : Type u}

/-- The program returns exactly under the condition. -/
def Outcome (program : EStateM Error State Value) (state : State) (returns : Prop)
    (post : Value → State → Prop) (stopped : State → Prop) : Prop :=
  match program state with
  | .ok value state' => returns ∧ post value state'
  | .error _ state' => ¬ returns ∧ stopped state'

namespace Outcome

variable {program : EStateM Error State Value} {next : Value → EStateM Error State Value'}
  {state : State} {returns returns' : Prop} {post post' : Value → State → Prop}
  {later : Value' → State → Prop} {stopped : State → Prop}

theorem returned (houtcome : Outcome program state returns post stopped) (hreturns : returns) :
    ∃ value state', program state = .ok value state' ∧ post value state' := by
  unfold Outcome at houtcome
  split at houtcome
  next value state' heq => exact ⟨value, state', heq, houtcome.2⟩
  next => exact absurd hreturns houtcome.1

theorem failed (houtcome : Outcome program state returns post stopped) (hreturns : ¬ returns) :
    ∃ error state', program state = .error error state' ∧ stopped state' := by
  unfold Outcome at houtcome
  split at houtcome
  next => exact absurd houtcome.1 hreturns
  next error state' heq => exact ⟨error, state', heq, houtcome.2⟩

theorem of_ok {value : Value} {state' : State} (hok : program state = .ok value state')
    (hreturns : returns) (hpost : post value state') :
    Outcome program state returns post stopped := by
  rw [Outcome, hok]
  exact ⟨hreturns, hpost⟩

theorem of_error {error : Error} {state' : State} (herror : program state = .error error state')
    (hreturns : ¬ returns) (hstopped : stopped state') :
    Outcome program state returns post stopped := by
  rw [Outcome, herror]
  exact ⟨hreturns, hstopped⟩

/-- Two programs that run alike have the same outcome. -/
theorem of_run_eq {program' : EStateM Error State Value} {state' : State}
    (hrun : program state = program' state')
    (houtcome : Outcome program' state' returns post stopped) :
    Outcome program state returns post stopped := by
  rw [Outcome, hrun]
  rwa [Outcome] at houtcome

theorem mono (houtcome : Outcome program state returns post stopped) (hiff : returns ↔ returns')
    (hpost : ∀ value state', returns → post value state' → post' value state') :
    Outcome program state returns' post' stopped := by
  by_cases hreturns : returns
  · obtain ⟨value, state', hok, hvalue⟩ := houtcome.returned hreturns
    exact of_ok hok (hiff.mp hreturns) (hpost value state' hreturns hvalue)
  · obtain ⟨error, state', herror, hstopped⟩ := houtcome.failed hreturns
    exact of_error herror (mt hiff.mpr hreturns) hstopped

/-- The same condition in other words. -/
theorem of_iff (hiff : returns ↔ returns')
    (houtcome : Outcome program state returns post stopped) :
    Outcome program state returns' post stopped :=
  houtcome.mono hiff fun _ _ _ => id

/-- One program after the other. -/
theorem bind (houtcome : Outcome program state returns post stopped)
    (hnext : ∀ value state', post value state' →
      Outcome (next value) state' returns' later stopped) :
    Outcome (program >>= next) state (returns ∧ returns') later stopped := by
  by_cases hreturns : returns
  · obtain ⟨value, state', hok, hvalue⟩ := houtcome.returned hreturns
    have hrun : (program >>= next) state = next value state' := by
      change EStateM.bind program next state = _
      rw [EStateM.bind, hok]
    have hlater := hnext value state' hvalue
    unfold Outcome at hlater ⊢
    rw [hrun, and_iff_right hreturns]
    exact hlater
  · obtain ⟨error, state', herror, hstopped⟩ := houtcome.failed hreturns
    have hrun : (program >>= next) state = .error error state' := by
      change EStateM.bind program next state = _
      rw [EStateM.bind, herror]
    exact of_error hrun (fun hboth => hreturns hboth.1) hstopped

/-- A program after one that returns always. -/
theorem bind_of_returns (houtcome : Outcome program state True post stopped)
    (hnext : ∀ value state', post value state' →
      Outcome (next value) state' returns' later stopped) :
    Outcome (program >>= next) state returns' later stopped :=
  .of_iff (and_iff_right trivial) (houtcome.bind hnext)

end Outcome

-- Comparing two outcomes must not run their programs.
attribute [irreducible] Outcome

end Foundation
