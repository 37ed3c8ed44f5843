import Libmoon.Foundation.Interleaving
import Mathlib.Data.Finset.Card
import Mathlib.Data.Fintype.Card

/-! # Barriers

`barrier.cpp` counts down a word that is guarded by a mutex. Every critical
section is one step here, taken when its task acquires the mutex: the call of
`barrier_wait` up to its return or to the point where it sleeps on the condition
variable, the test of the predicate by a task that was woken, and
`barrier_reinit`. A sleeping task becomes runnable by a notification or
spuriously. Which generation a task is in is known to the tasks only; it is
recorded to say in what order they use the barrier.
-/

namespace Libmoon.Barrier

open Foundation

/-- Where a task is with respect to the barrier. -/
inductive Place where
  | outside
  | asleep
  | woken
deriving DecidableEq

/-- The barrier's counter and its `size` tasks. Generations are numbered from
zero; `generation` is the number of calls of `reinit` so far. -/
structure State (size : UInt64) where
  n : UInt64
  generation : Nat
  place : Fin size.toNat → Place
  arrived : Fin size.toNat → Nat
  passed : Fin size.toNat → Nat

variable {size : UInt64}

/-- `make_barrier`. -/
def State.initial (size : UInt64) : State size where
  n := size
  generation := 0
  place := fun _ => .outside
  arrived := fun _ => 0
  passed := fun _ => 0

inductive Label (size : UInt64) where
  | wait (task : Fin size.toNat)
  | rouse (task : Fin size.toNat)
  | wake (task : Fin size.toNat)
  | reinit (task : Fin size.toNat)
deriving DecidableEq

/-- `notify_all`. -/
def notifyAll (place : Fin size.toNat → Place) (task : Fin size.toNat) : Place :=
  match place task with
  | .asleep => .woken
  | other => other

/-- `barrier_wait` from the acquisition of the mutex on. -/
def State.wait (state : State size) (task : Fin size.toNat) : State size :=
  if state.n - 1 = 0 then
    { state with
      n := state.n - 1
      place := notifyAll state.place
      arrived := Function.update state.arrived task (state.arrived task + 1)
      passed := Function.update state.passed task (state.passed task + 1) }
  else
    { state with
      n := state.n - 1
      place := Function.update state.place task .asleep
      arrived := Function.update state.arrived task (state.arrived task + 1) }

/-- A woken task has the mutex again and tests whether the counter is zero. -/
def State.wake (state : State size) (task : Fin size.toNat) : State size :=
  if state.n = 0 then
    { state with
      place := Function.update state.place task .outside
      passed := Function.update state.passed task (state.passed task + 1) }
  else
    { state with place := Function.update state.place task .asleep }

/-- `barrier_reinit` with the number of tasks. -/
def State.reinit (state : State size) : State size :=
  { state with n := size, generation := state.generation + 1 }

/-- A wait of the next generation comes after the `reinit` of the last one, and
`reinit` is called once in a generation, by a task whose own wait has returned. -/
def next (state : State size) : Label size → Option (State size)
  | .wait task =>
      if state.place task = .outside ∧ state.arrived task = state.generation then
        some (state.wait task)
      else none
  | .rouse task =>
      if state.place task = .asleep then
        some { state with place := Function.update state.place task .woken }
      else none
  | .wake task => if state.place task = .woken then some (state.wake task) else none
  | .reinit task =>
      if state.place task = .outside ∧ state.passed task = state.generation + 1 then
        some state.reinit
      else none

/-! ## What a barrier is for -/

/-- No task is through a generation that some task has not entered. -/
def Synchronised (state : State size) : Prop :=
  ∀ generation task, generation < state.passed task →
    ∀ other, generation < state.arrived other

/-- All tasks have entered the generation, and all that still have to pass it sleep. -/
def StuckIn (state : State size) (generation : Nat) : Prop :=
  (∀ task, generation < state.arrived task) ∧
    (∃ task, state.passed task ≤ generation) ∧
      ∀ task, state.passed task ≤ generation → state.place task = .asleep

instance (state : State size) (generation : Nat) : Decidable (StuckIn state generation) :=
  inferInstanceAs (Decidable (_ ∧ _))

/-- The tasks that have not entered the current generation. -/
def missing (state : State size) : Finset (Fin size.toNat) :=
  {task | state.arrived task = state.generation}

/-- A task has entered the current generation and sleeps, was woken, or has passed it;
or it has not entered it yet. -/
inductive TaskAt (state : State size) (task : Fin size.toNat) : Prop
  | before (hplace : state.place task = .outside)
      (harrived : state.arrived task = state.generation)
      (hpassed : state.passed task = state.generation)
  | sleeping (hplace : state.place task = .asleep) (hn : state.n ≠ 0)
      (harrived : state.arrived task = state.generation + 1)
      (hpassed : state.passed task = state.generation)
  | woken (hplace : state.place task = .woken)
      (harrived : state.arrived task = state.generation + 1)
      (hpassed : state.passed task = state.generation)
  | after (hplace : state.place task = .outside) (hn : state.n = 0)
      (harrived : state.arrived task = state.generation + 1)
      (hpassed : state.passed task = state.generation + 1)

/-- The counter is the number of tasks that are missing. -/
structure Counted (state : State size) : Prop where
  n : state.n.toNat = (missing state).card
  tasks : ∀ task, TaskAt state task

/-! ## Steps -/

theorem initial_counted (size : UInt64) : Counted (State.initial size) := by
  refine ⟨?_, fun task => .before rfl rfl rfl⟩
  simp [State.initial, missing]

section Steps

variable {state : State size}

theorem mem_missing {task : Fin size.toNat} :
    task ∈ missing state ↔ state.arrived task = state.generation := by
  simp [missing]

theorem Counted.n_eq_zero_iff (hcounted : Counted state) :
    state.n = 0 ↔ ∀ task, state.arrived task ≠ state.generation := by
  have hzero : state.n = 0 ↔ (missing state).card = 0 := by
    rw [← hcounted.n]
    exact UInt64.toNat_inj.symm
  rw [hzero, Finset.card_eq_zero, Finset.eq_empty_iff_forall_notMem]
  simp only [mem_missing, ne_eq]

/-- Nobody has passed the generation while a task is missing in it. -/
theorem Counted.n_ne_zero (hcounted : Counted state) {task : Fin size.toNat}
    (harrived : state.arrived task = state.generation) : state.n ≠ 0 := by
  intro hn
  exact hcounted.n_eq_zero_iff.mp hn task harrived

@[simp] theorem wait_n (task : Fin size.toNat) : (state.wait task).n = state.n - 1 := by
  unfold State.wait
  split <;> rfl

@[simp] theorem wait_generation (task : Fin size.toNat) :
    (state.wait task).generation = state.generation := by
  unfold State.wait
  split <;> rfl

@[simp] theorem wait_arrived (task : Fin size.toNat) :
    (state.wait task).arrived =
      Function.update state.arrived task (state.arrived task + 1) := by
  unfold State.wait
  split <;> rfl

theorem missing_wait {task : Fin size.toNat}
    (harrived : state.arrived task = state.generation) :
    missing (state.wait task) = (missing state).erase task := by
  ext other
  simp only [mem_missing, Finset.mem_erase, wait_arrived, wait_generation]
  by_cases hother : other = task
  · subst hother
    simp [harrived]
  · simp [hother]

/-- Arriving counts the task, without a wrap of the counter. -/
theorem Counted.wait_n_toNat (hcounted : Counted state) {task : Fin size.toNat}
    (harrived : state.arrived task = state.generation) :
    (state.n - 1).toNat = (missing (state.wait task)).card := by
  have hmem : task ∈ missing state := mem_missing.mpr harrived
  have hpos : 0 < state.n.toNat := by
    rw [hcounted.n]
    exact Finset.card_pos.mpr ⟨task, hmem⟩
  have hle : (1 : UInt64) ≤ state.n := UInt64.le_iff_toNat_le.mpr hpos
  rw [missing_wait harrived, Finset.card_erase_of_mem hmem, ← hcounted.n,
    UInt64.toNat_sub_of_le _ _ hle]
  rfl

theorem wait_place_of_last (task : Fin size.toNat) (hlast : state.n - 1 = 0) :
    (state.wait task).place = notifyAll state.place ∧
      (state.wait task).passed =
        Function.update state.passed task (state.passed task + 1) := by
  simp [State.wait, hlast]

theorem wait_place_of_early (task : Fin size.toNat) (hearly : state.n - 1 ≠ 0) :
    (state.wait task).place = Function.update state.place task .asleep ∧
      (state.wait task).passed = state.passed := by
  simp [State.wait, hearly]

theorem Counted.wait (hcounted : Counted state) {task : Fin size.toNat}
    (hplace : state.place task = .outside)
    (harrived : state.arrived task = state.generation) : Counted (state.wait task) := by
  refine ⟨by rw [wait_n]; exact hcounted.wait_n_toNat harrived, fun other => ?_⟩
  have hpassed : state.passed task = state.generation := by
    cases hcounted.tasks task with
    | before _ _ hpassed => exact hpassed
    | after _ _ hafter _ => exact absurd (harrived.symm.trans hafter) (by simp)
    | sleeping _ _ hafter _ => exact absurd (harrived.symm.trans hafter) (by simp)
    | woken _ hafter _ => exact absurd (harrived.symm.trans hafter) (by simp)
  -- the last task wakes the others, an early one goes to sleep
  by_cases hlast : state.n - 1 = 0
  · obtain ⟨hplaces, hpasses⟩ := wait_place_of_last task hlast
    by_cases hother : other = task
    · subst hother
      exact .after (by simp [hplaces, notifyAll, hplace]) (by simp [hlast])
        (by simp [harrived]) (by simp [hpasses, hpassed])
    · cases hcounted.tasks other with
      | before hp ha hq =>
          exact .before (by simp [hplaces, notifyAll, hp]) (by simp [hother, ha])
            (by simp [hpasses, hother, hq])
      | sleeping hp _ ha hq | woken hp ha hq =>
          exact .woken (by simp [hplaces, notifyAll, hp]) (by simp [hother, ha])
            (by simp [hpasses, hother, hq])
      | after _ hn _ _ => exact absurd hn (hcounted.n_ne_zero harrived)
  · obtain ⟨hplaces, hpasses⟩ := wait_place_of_early task hlast
    by_cases hother : other = task
    · subst hother
      exact .sleeping (by simp [hplaces]) (by simpa using hlast) (by simp [harrived])
        (by simp [hpasses, hpassed])
    · cases hcounted.tasks other with
      | before hp ha hq =>
          exact .before (by simp [hplaces, hother, hp]) (by simp [hother, ha])
            (by simp [hpasses, hq])
      | sleeping hp _ ha hq =>
          exact .sleeping (by simp [hplaces, hother, hp]) (by simpa using hlast)
            (by simp [hother, ha]) (by simp [hpasses, hq])
      | woken hp ha hq =>
          exact .woken (by simp [hplaces, hother, hp]) (by simp [hother, ha])
            (by simp [hpasses, hq])
      | after _ hn _ _ => exact absurd hn (hcounted.n_ne_zero harrived)

/-- A step that leaves a task and the counter alone leaves the task where it was. -/
theorem TaskAt.frame {state' : State size} {task : Fin size.toNat} (htask : TaskAt state task)
    (hn : state'.n = state.n) (hgeneration : state'.generation = state.generation)
    (hplace : state'.place task = state.place task)
    (harrived : state'.arrived task = state.arrived task)
    (hpassed : state'.passed task = state.passed task) : TaskAt state' task := by
  cases htask with
  | before hp ha hq =>
      exact .before (hplace.trans hp) (by rw [harrived, ha, hgeneration])
        (by rw [hpassed, hq, hgeneration])
  | sleeping hp hzero ha hq =>
      exact .sleeping (hplace.trans hp) (by rw [hn]; exact hzero)
        (by rw [harrived, ha, hgeneration]) (by rw [hpassed, hq, hgeneration])
  | woken hp ha hq =>
      exact .woken (hplace.trans hp) (by rw [harrived, ha, hgeneration])
        (by rw [hpassed, hq, hgeneration])
  | after hp hzero ha hq =>
      exact .after (hplace.trans hp) (hn.trans hzero) (by rw [harrived, ha, hgeneration])
        (by rw [hpassed, hq, hgeneration])

theorem Counted.rouse (hcounted : Counted state) {task : Fin size.toNat}
    (hplace : state.place task = .asleep) :
    Counted { state with place := Function.update state.place task .woken } := by
  refine ⟨hcounted.n, fun other => ?_⟩
  by_cases hother : other = task
  · subst hother
    cases hcounted.tasks other with
    | sleeping _ _ ha hq => exact .woken (by simp) ha hq
    | before hp _ _ | after hp _ _ _ | woken hp _ _ => simp [hplace] at hp
  · exact (hcounted.tasks other).frame rfl rfl (by simp [hother]) rfl rfl

theorem Counted.wake (hcounted : Counted state) {task : Fin size.toNat}
    (hplace : state.place task = .woken) : Counted (state.wake task) := by
  cases hcounted.tasks task with
  | before hp _ _ | after hp _ _ _ | sleeping hp _ _ _ => simp [hplace] at hp
  | woken _ ha hq =>
      unfold State.wake
      split
      next hn =>
          refine ⟨hcounted.n, fun other => ?_⟩
          by_cases hother : other = task
          · subst hother
            exact .after (by simp) hn ha (by simp [hq])
          · exact (hcounted.tasks other).frame rfl rfl (by simp [hother]) rfl (by simp [hother])
      next hn =>
          refine ⟨hcounted.n, fun other => ?_⟩
          by_cases hother : other = task
          · subst hother
            exact .sleeping (by simp) hn ha hq
          · exact (hcounted.tasks other).frame rfl rfl (by simp [hother]) rfl rfl

/-- No task's wait of the generation is still to return. -/
def AllPassed (state : State size) : Prop := ∀ task, state.passed task = state.generation + 1

instance (state : State size) : Decidable (AllPassed state) :=
  inferInstanceAs (Decidable (∀ _, _))

theorem Counted.reinit (hcounted : Counted state) (hpassed : AllPassed state) :
    Counted state.reinit := by
  have hafter : ∀ task, state.place task = .outside ∧
      state.arrived task = state.generation + 1 := by
    intro task
    cases hcounted.tasks task with
    | after hp _ ha _ => exact ⟨hp, ha⟩
    | before _ _ hq | sleeping _ _ _ hq | woken _ _ hq =>
        exact absurd (hq.symm.trans (hpassed task)) (by simp)
  refine ⟨?_, fun task => .before (hafter task).1 (hafter task).2 (hpassed task)⟩
  have hall : missing state.reinit = Finset.univ := by
    ext task
    simp [mem_missing, State.reinit, hafter task]
  rw [hall, Finset.card_univ, Fintype.card_fin]
  rfl

/-- `reinit` waits until the generation is over for every task. -/
def ReinitWhenPassed (state : State size) : Label size → Prop
  | .reinit _ => AllPassed state
  | _ => True

instance (state : State size) (label : Label size) :
    Decidable (ReinitWhenPassed state label) :=
  match label with
  | .reinit _ => inferInstanceAs (Decidable (AllPassed state))
  | .wait _ | .rouse _ | .wake _ => isTrue trivial

theorem next_counted {label : Label size} {state' : State size} (hcounted : Counted state)
    (hguard : ReinitWhenPassed state label) (hnext : next state label = some state') :
    Counted state' := by
  cases label with
  | wait task =>
      obtain ⟨⟨hplace, harrived⟩, ⟨⟩⟩ := Option.ite_none_right_eq_some.mp hnext
      exact hcounted.wait hplace harrived
  | rouse task =>
      obtain ⟨hplace, ⟨⟩⟩ := Option.ite_none_right_eq_some.mp hnext
      exact hcounted.rouse hplace
  | wake task =>
      obtain ⟨hplace, ⟨⟩⟩ := Option.ite_none_right_eq_some.mp hnext
      exact hcounted.wake hplace
  | reinit task =>
      obtain ⟨_, ⟨⟩⟩ := Option.ite_none_right_eq_some.mp hnext
      exact hcounted.reinit hguard

/-! ## Whole runs -/

theorem TaskAt.passed_le {task : Fin size.toNat} (htask : TaskAt state task) :
    state.generation ≤ state.passed task ∧ state.generation ≤ state.arrived task := by
  cases htask with
  | before _ ha hq | sleeping _ _ ha hq | woken _ ha hq | after _ _ ha hq =>
      rw [ha, hq]
      constructor <;> simp

theorem Counted.synchronised (hcounted : Counted state) : Synchronised state := by
  intro generation task hpassed other
  have hother := (hcounted.tasks other).passed_le.2
  by_cases hold : generation < state.generation
  · exact lt_of_lt_of_le hold hother
  · -- the generation is the current one, which the task passed because nobody is missing
    cases hcounted.tasks task with
    | before _ _ hq | sleeping _ _ _ hq | woken _ _ hq =>
        rw [hq] at hpassed
        exact absurd hpassed hold
    | after _ hn _ hq =>
        have hpresent := hcounted.n_eq_zero_iff.mp hn other
        rw [hq] at hpassed
        omega

theorem Counted.not_stuckIn (hcounted : Counted state) (generation : Nat) :
    ¬ StuckIn state generation := by
  intro hstuck
  obtain ⟨harrived, ⟨task, hpassed⟩, hasleep⟩ := hstuck
  have hplace := hasleep task hpassed
  cases hcounted.tasks task with
  | before hp _ _ | after hp _ _ _ | woken hp _ _ => simp [hplace] at hp
  | sleeping _ hn _ hq =>
      -- a sleeping task waits for one that is missing in the current generation
      apply hn
      apply hcounted.n_eq_zero_iff.mpr
      intro other hmissing
      have hentered := harrived other
      rw [hmissing, ← hq] at hentered
      exact absurd hpassed (not_le.mpr hentered)

end Steps

/-- When every `reinit` waits for all tasks to pass, no schedule lets a task
through before all have arrived or leaves the tasks asleep after all have. -/
theorem barrier_reusable {schedule : List (Label size)} {state : State size}
    (hguarded : Guarded next ReinitWhenPassed (State.initial size) schedule)
    (hrun : runSchedule next (State.initial size) schedule = some state) :
    Synchronised state ∧ ∀ generation, ¬ StuckIn state generation := by
  have hcounted : Counted state := invariant_of_guarded
    (fun _ _ _ hcounted hguard hnext => next_counted hcounted hguard hnext)
    (initial_counted size) hguarded hrun
  exact ⟨hcounted.synchronised, hcounted.not_stuckIn⟩

def taskA : Fin (UInt64.toNat 2) := ⟨0, by decide⟩

def taskB : Fin (UInt64.toNat 2) := ⟨1, by decide⟩

/-- Two tasks through one generation and into the next. -/
def orderlySchedule : List (Label 2) :=
  [.wait taskA, .wait taskB, .wake taskA, .reinit taskB, .wait taskB, .wait taskA]

theorem barrier_reusable_orderly :
    ∃ state, runSchedule next (State.initial 2) orderlySchedule = some state ∧
      Synchronised state ∧ ∀ generation, ¬ StuckIn state generation := by
  have hrun : (runSchedule next (State.initial 2) orderlySchedule).isSome := by decide
  obtain ⟨state, hstate⟩ := Option.isSome_iff_exists.mp hrun
  exact ⟨state, hstate, barrier_reusable (by decide) hstate⟩

/-- The second task passes and calls `reinit` before the first one, which it has
notified, has the mutex again. -/
def hastySchedule : List (Label 2) :=
  [.wait taskA, .wait taskB, .reinit taskB, .wake taskA]

/-- The first task then sleeps on in the generation that both have entered. -/
theorem early_reinit_strands :
    ¬ ∀ (schedule : List (Label 2)) (state : State 2),
      runSchedule next (State.initial 2) schedule = some state →
        Synchronised state ∧ ∀ generation, ¬ StuckIn state generation := by
  intro halways
  have hrun : (runSchedule next (State.initial 2) hastySchedule).isSome := by decide
  obtain ⟨state, hstate⟩ := Option.isSome_iff_exists.mp hrun
  apply (halways hastySchedule state hstate).2 0
  obtain rfl := Option.some.inj hstate
  decide

end Libmoon.Barrier
