import Mathlib.Data.List.Basic
import Mathlib.Tactic.Common

/-! # Sequential machines and guarded runs

A machine answers each call with an output and a successor state. A guard is a
predicate of the state a call is issued in and of the call itself; a run
respects a guard when every one of its calls does. Invariants are proved for
one guarded call and lifted here to every prefix of a guarded run, and two
machines that answer guarded calls alike are compared on whole runs.
-/

namespace Foundation

universe u v w x

/-- A deterministic machine: one call, one answer, one successor. -/
structure Machine (State : Type u) (Call : Type v) (Answer : Type w) where
  step : State → Call → Answer × State

namespace Machine

variable {State : Type u} {Call : Type v} {Answer : Type w}

/-- The state after a sequence of calls. -/
def after (machine : Machine State Call Answer) : State → List Call → State
  | state, [] => state
  | state, call :: rest => machine.after (machine.step state call).2 rest

/-- The answers given along a sequence of calls. -/
def answers (machine : Machine State Call Answer) : State → List Call → List Answer
  | _, [] => []
  | state, call :: rest =>
      (machine.step state call).1 :: machine.answers (machine.step state call).2 rest

/-- Every call of the run meets the guard in the state it is issued in. -/
def Along (machine : Machine State Call Answer) (guard : State → Call → Prop) :
    State → List Call → Prop
  | _, [] => True
  | state, call :: rest =>
      guard state call ∧ machine.Along guard (machine.step state call).2 rest

instance decidableAlong (machine : Machine State Call Answer) (guard : State → Call → Prop)
    [∀ state call, Decidable (guard state call)] (state : State) (calls : List Call) :
    Decidable (machine.Along guard state calls) :=
  match calls with
  | [] => isTrue trivial
  | call :: rest =>
      haveI := decidableAlong machine guard (machine.step state call).2 rest
      inferInstanceAs (Decidable (_ ∧ _))

/-- States that some sequence of calls leads to. -/
def Reachable (machine : Machine State Call Answer) (start state : State) : Prop :=
  ∃ calls, machine.after start calls = state

variable (machine : Machine State Call Answer)

@[simp] theorem after_nil (state : State) : machine.after state [] = state := rfl

@[simp] theorem after_cons (state : State) (call : Call) (rest : List Call) :
    machine.after state (call :: rest) = machine.after (machine.step state call).2 rest := rfl

theorem along_append (guard : State → Call → Prop) (state : State)
    (first second : List Call) :
    machine.Along guard state (first ++ second) ↔
      machine.Along guard state first ∧
        machine.Along guard (machine.after state first) second := by
  induction first generalizing state with
  | nil => simp [Along]
  | cons call rest ih => simp [Along, ih, and_assoc]

theorem Along.of_initial {machine : Machine State Call Answer} {guard : State → Call → Prop}
    {state : State} {calls first : List Call} (halong : machine.Along guard state calls)
    (hfirst : first <+: calls) : machine.Along guard state first := by
  obtain ⟨second, rfl⟩ := hfirst
  exact ((machine.along_append guard state first second).mp halong).1

theorem Along.and {machine : Machine State Call Answer} {guard guard' : State → Call → Prop}
    {state : State} {calls : List Call} (halong : machine.Along guard state calls)
    (halong' : machine.Along guard' state calls) :
    machine.Along (fun state call => guard state call ∧ guard' state call) state calls := by
  induction calls generalizing state with
  | nil => trivial
  | cons call rest ih => exact ⟨⟨halong.1, halong'.1⟩, ih halong.2 halong'.2⟩

/-- An invariant that guarded calls preserve holds at the end of a guarded run. -/
theorem invariant_after {invariant : State → Prop} {guard : State → Call → Prop}
    (hstep : ∀ state call, invariant state → guard state call →
      invariant (machine.step state call).2)
    {state : State} {calls : List Call} (hstate : invariant state)
    (halong : machine.Along guard state calls) : invariant (machine.after state calls) := by
  induction calls generalizing state with
  | nil => exact hstate
  | cons call rest ih => exact ih (hstep state call hstate halong.1) halong.2

/-- The same at every state the run passes through. -/
theorem invariant_after_initial {invariant : State → Prop} {guard : State → Call → Prop}
    (hstep : ∀ state call, invariant state → guard state call →
      invariant (machine.step state call).2)
    {state : State} {calls first : List Call} (hstate : invariant state)
    (halong : machine.Along guard state calls) (hfirst : first <+: calls) :
    invariant (machine.after state first) :=
  machine.invariant_after hstep hstate (halong.of_initial hfirst)

/-- An invariant that every call preserves holds in every reachable state. -/
theorem Reachable.invariant {machine : Machine State Call Answer} {invariant : State → Prop}
    (hstep : ∀ state call, invariant state → invariant (machine.step state call).2)
    {start state : State} (hstart : invariant start)
    (hreach : machine.Reachable start state) : invariant state := by
  obtain ⟨calls, rfl⟩ := hreach
  induction calls generalizing start with
  | nil => exact hstart
  | cons call rest ih => exact ih (hstep start call hstart)

/-- Where a guard says exactly when one call is answered well and keeps the
invariant, it says so for whole runs: every answer is good and the invariant
holds after every call exactly when every call meets the guard. -/
theorem good_invariant_iff_along {invariant : State → Prop} {good : Answer → Prop}
    {guard : State → Call → Prop}
    (hstep : ∀ state call, invariant state →
      (good (machine.step state call).1 ∧ invariant (machine.step state call).2 ↔
        guard state call))
    {state : State} (hstate : invariant state) (calls : List Call) :
    ((∀ answer ∈ machine.answers state calls, good answer) ∧
        ∀ first, first <+: calls → invariant (machine.after state first)) ↔
      machine.Along guard state calls := by
  induction calls generalizing state with
  | nil => simpa [answers, Along, List.prefix_nil] using hstate
  | cons call rest ih =>
      constructor
      · intro hrun
        obtain ⟨hgood, hinv⟩ := hrun
        -- the run of the first call alone gives the state that the induction starts from
        have hnext : invariant (machine.step state call).2 := hinv [call] (by simp)
        refine ⟨(hstep state call hstate).mp ⟨hgood _ List.mem_cons_self, hnext⟩,
          (ih hnext).mp ⟨fun answer hanswer => hgood answer (List.mem_cons_of_mem _ hanswer), ?_⟩⟩
        intro first hfirst
        exact hinv (call :: first) (List.cons_prefix_cons.mpr ⟨rfl, hfirst⟩)
      · intro halong
        obtain ⟨hanswer, hnext⟩ := (hstep state call hstate).mpr halong.1
        obtain ⟨hgood, hinv⟩ := (ih hnext).mpr halong.2
        refine ⟨?_, ?_⟩
        · intro answer hmem
          rcases List.mem_cons.mp hmem with rfl | hmem
          · exact hanswer
          · exact hgood answer hmem
        · intro first hfirst
          cases first with
          | nil => exact hstate
          | cons head tail =>
              obtain ⟨rfl, htail⟩ := List.cons_prefix_cons.mp hfirst
              exact hinv tail htail

/-- The same for an invariant alone, where the guard is exact only in states that
satisfy what every call preserves. -/
theorem invariant_iff_along_within (always : State → Prop) {invariant : State → Prop}
    {guard : State → Call → Prop}
    (halways : ∀ state call, always state → always (machine.step state call).2)
    (hstep : ∀ state call, always state → invariant state →
      (invariant (machine.step state call).2 ↔ guard state call))
    {state : State} (hwithin : always state) (hstate : invariant state) (calls : List Call) :
    (∀ first, first <+: calls → invariant (machine.after state first)) ↔
      machine.Along guard state calls := by
  have hboth := @good_invariant_iff_along _ _ _ machine
    (fun state => always state ∧ invariant state) (fun _ => True) guard ?_
    state ⟨hwithin, hstate⟩ calls
  · rw [← hboth]
    constructor
    · intro hinvariant
      refine ⟨fun _ _ => trivial, fun first hfirst => ⟨?_, hinvariant first hfirst⟩⟩
      exact Reachable.invariant halways hwithin ⟨first, rfl⟩
    · exact fun hrun first hfirst => (hrun.2 first hfirst).2
  · intro state call hinvariant
    rw [true_and, and_iff_right (halways state call hinvariant.1)]
    exact hstep state call hinvariant.1 hinvariant.2

section Refinement

variable {Abstract : Type x} (abstract : Machine Abstract Call Answer)

/-- Where guarded calls are answered alike and unguarded ones differently, the
guard is exactly the condition for two runs to give the same answers. -/
theorem answers_eq_iff_along {related : State → Abstract → Prop}
    {allowed guard : State → Call → Prop}
    (hsame : ∀ state spec call, related state spec → allowed state call → guard state call →
      (machine.step state call).1 = (abstract.step spec call).1 ∧
        related (machine.step state call).2 (abstract.step spec call).2)
    (hdiff : ∀ state spec call, related state spec → allowed state call →
      ¬ guard state call → (machine.step state call).1 ≠ (abstract.step spec call).1)
    {state : State} {spec : Abstract} {calls : List Call} (hrelated : related state spec)
    (hallowed : machine.Along allowed state calls) :
    machine.answers state calls = abstract.answers spec calls ↔
      machine.Along guard state calls := by
  induction calls generalizing state spec with
  | nil => simp [answers, Along]
  | cons call rest ih =>
      simp only [answers, Along, List.cons.injEq]
      by_cases hguard : guard state call
      · obtain ⟨hanswer, hnext⟩ := hsame state spec call hrelated hallowed.1 hguard
        simp [hanswer, hguard, ih hnext hallowed.2]
      · simp [hdiff state spec call hrelated hallowed.1 hguard, hguard]

/-- Two machines that answer the allowed calls alike answer every sequence of them alike. -/
theorem answers_eq_of_related {related : State → Abstract → Prop} {allowed : Call → Prop}
    (hsame : ∀ state spec call, related state spec → allowed call →
      (machine.step state call).1 = (abstract.step spec call).1 ∧
        related (machine.step state call).2 (abstract.step spec call).2)
    {state : State} {spec : Abstract} {calls : List Call} (hrelated : related state spec)
    (hallowed : ∀ call ∈ calls, allowed call) :
    machine.answers state calls = abstract.answers spec calls := by
  induction calls generalizing state spec with
  | nil => rfl
  | cons call rest ih =>
      obtain ⟨hanswer, hnext⟩ := hsame state spec call hrelated (hallowed call List.mem_cons_self)
      simp only [answers, hanswer, List.cons.injEq, true_and]
      exact ih hnext (fun later hlater => hallowed later (List.mem_cons_of_mem call hlater))

/-- Guarded runs stay related. -/
theorem related_after {related : State → Abstract → Prop} {guard : State → Call → Prop}
    (hsame : ∀ state spec call, related state spec → guard state call →
      related (machine.step state call).2 (abstract.step spec call).2)
    {state : State} {spec : Abstract} {calls : List Call} (hrelated : related state spec)
    (halong : machine.Along guard state calls) :
    related (machine.after state calls) (abstract.after spec calls) := by
  induction calls generalizing state spec with
  | nil => exact hrelated
  | cons call rest ih => exact ih (hsame state spec call hrelated halong.1) halong.2

end Refinement

end Machine

end Foundation
