import Mathlib.Data.List.Basic
import Mathlib.Tactic.Common

/-! # Interleaved executions

Several parties share a state and move one indivisible step at a time. A step is
named by a label and is a partial function of the state: it is `none` when the
party is not at that point of its program. A schedule is a list of labels, so a
statement about every schedule is a statement about every interleaving.
-/

namespace Foundation

universe u v

variable {State : Type u} {Label : Type v}

/-- Run a schedule; it fails when a label is not enabled where it stands. -/
def runSchedule (next : State → Label → Option State) : State → List Label → Option State
  | state, [] => some state
  | state, label :: rest =>
      match next state label with
      | none => none
      | some state' => runSchedule next state' rest

theorem runSchedule_cons {next : State → Label → Option State} {state final : State}
    {label : Label} {rest : List Label}
    (hrun : runSchedule next state (label :: rest) = some final) :
    ∃ state', next state label = some state' ∧ runSchedule next state' rest = some final := by
  unfold runSchedule at hrun
  cases hnext : next state label with
  | none => simp [hnext] at hrun
  | some state' => exact ⟨state', rfl, by simpa [hnext] using hrun⟩

/-- Every step of the schedule meets the guard in the state it is taken in. -/
def Guarded (next : State → Label → Option State) (guard : State → Label → Prop) :
    State → List Label → Prop
  | _, [] => True
  | state, label :: rest =>
      guard state label ∧
        match next state label with
        | none => True
        | some state' => Guarded next guard state' rest

instance decidableGuarded (next : State → Label → Option State)
    (guard : State → Label → Prop) [∀ state label, Decidable (guard state label)]
    (state : State) (schedule : List Label) : Decidable (Guarded next guard state schedule) :=
  match schedule with
  | [] => isTrue trivial
  | label :: rest =>
      match hnext : next state label with
      | none => decidable_of_iff (guard state label) (by simp [Guarded, hnext])
      | some state' =>
          haveI := decidableGuarded next guard state' rest
          decidable_of_iff (guard state label ∧ Guarded next guard state' rest)
            (by simp [Guarded, hnext])

theorem Guarded.step {next : State → Label → Option State} {guard : State → Label → Prop}
    {state state' : State} {label : Label} {rest : List Label}
    (hguarded : Guarded next guard state (label :: rest)) (hnext : next state label = some state') :
    guard state label ∧ Guarded next guard state' rest := by
  simpa [Guarded, hnext] using hguarded

theorem guarded_of_forall {next : State → Label → Option State} {allowed : Label → Prop}
    {schedule : List Label} (hallowed : ∀ label ∈ schedule, allowed label) (state : State) :
    Guarded next (fun _ => allowed) state schedule := by
  induction schedule generalizing state with
  | nil => trivial
  | cons label rest ih =>
      refine ⟨hallowed label List.mem_cons_self, ?_⟩
      cases next state label with
      | none => trivial
      | some state' =>
          apply ih
          exact fun later hlater => hallowed later (List.mem_cons_of_mem label hlater)

/-- An invariant that every guarded step preserves holds after every guarded
schedule, whatever the order in which the parties move. -/
theorem invariant_of_guarded {next : State → Label → Option State}
    {invariant : State → Prop} {guard : State → Label → Prop}
    (hstep : ∀ state label state', invariant state → guard state label →
      next state label = some state' → invariant state')
    {start final : State} {schedule : List Label} (hstart : invariant start)
    (hguarded : Guarded next guard start schedule)
    (hrun : runSchedule next start schedule = some final) : invariant final := by
  induction schedule generalizing start with
  | nil =>
      obtain rfl : start = final := Option.some.inj hrun
      exact hstart
  | cons label rest ih =>
      obtain ⟨state', hnext, hrest⟩ := runSchedule_cons hrun
      obtain ⟨hguard, hguarded⟩ := hguarded.step hnext
      exact ih (hstep start label state' hstart hguard hnext) hguarded hrest

/-- The same where which steps are allowed does not depend on the state. -/
theorem invariant_of_schedule {next : State → Label → Option State}
    {invariant : State → Prop} {allowed : Label → Prop}
    (hstep : ∀ state label state', invariant state → allowed label →
      next state label = some state' → invariant state')
    {start final : State} {schedule : List Label} (hstart : invariant start)
    (hallowed : ∀ label ∈ schedule, allowed label)
    (hrun : runSchedule next start schedule = some final) : invariant final :=
  invariant_of_guarded hstep hstart (guarded_of_forall hallowed start) hrun

end Foundation
