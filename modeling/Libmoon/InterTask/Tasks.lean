import Libmoon.InterTask.SlowPipe

/-! # Tasks and their results

The master starts each task on a core of its own and may wait for it. A task that ends
regularly leaves the dump of what its function returned in a map that is guarded by a
mutex, under an identifier that no other task has; one that crashes leaves nothing.
Waiting polls the state of the core and takes the entry out of the map.

Every access to the map and every reading of a core's state is one step. A start, with
the search for a core, is one step too: cores become busy only through the master.
-/

namespace Libmoon.InterTask

open Foundation

variable {Data : Type}

/-! ## State -/

/-- The state that DPDK keeps of a core, with the task that runs on it and what its
function has returned, if the result is stored. -/
inductive Lcore (Data : Type) where
  | wait
  | running (task : Nat) (returned : Option (List (Value Data)))

def Lcore.isRunning : Lcore Data → Bool
  | .wait => false
  | .running _ _ => true

/-- How a task ended: with a stored result, which is that of an error in the task's function
too, or without one, as a script that does not load ends. -/
inductive TaskOutcome (Data : Type) where
  | returned (values : List (Value Data))
  | crashed

/-- What a call of `wait` comes to. -/
inductive TaskReply (Data : Type) where
  | values (values : List (Value Data))
  | nothing
  /-- The values are too many to be unpacked. -/
  | failed

/-- Where the master is. -/
inductive Master where
  | idle
  | waiting (task core : Nat)
  /-- `waitForTasks`, with the cores that are still to be read in this round. -/
  | scanning (left : List Nat)
deriving DecidableEq

/-- The cores besides the master's, the identifiers of the shared ones, and the sockets. -/
structure TaskConfig where
  cores : List Nat
  sharedCores : List Nat
  socketOf : Nat → Int

/-- What is kept for the tasks, and which were started, ended and waited for so far. -/
structure Tasks (Data : Type) where
  counter : Nat
  results : Nat → Option LuaString
  lcores : Nat → Lcore Data
  /-- The table of the latest task on each core. -/
  latest : Nat → Option Nat
  master : Master
  started : List (Nat × Nat)
  outcomes : Nat → Option (TaskOutcome Data)
  replies : List (Nat × TaskReply Data)

def Tasks.initial : Tasks Data where
  counter := 1
  results := fun _ => none
  lcores := fun _ => .wait
  latest := fun _ => none
  master := .idle
  started := []
  outcomes := fun _ => none
  replies := []

/-! ## Starting -/

/-- `getCoreOnSocket`. -/
def Tasks.getCoreOnSocket (tasks : Tasks Data) (config : TaskConfig) (socket : Option Int) :
    Option Nat :=
  config.cores.find? fun core => !(tasks.lcores core).isRunning &&
    (socket = none || socket = some (-1) || socket = some (config.socketOf core))

/-- `startTaskOnCore`. It ends in an error if the core is in use. -/
def Tasks.startTaskOnCore (tasks : Tasks Data) (core : Nat) : Tasks Data :=
  if (tasks.lcores core).isRunning then tasks
  else
    { tasks with
      counter := tasks.counter + 1
      lcores := Function.update tasks.lcores core (.running tasks.counter none)
      latest := Function.update tasks.latest core (some tasks.counter)
      started := tasks.started ++ [(tasks.counter, core)] }

/-- `startTask`, for devices that are mostly on this socket. It ends in an error if all
cores are in use. -/
def Tasks.startTask (tasks : Tasks Data) (config : TaskConfig) (socket : Int) : Tasks Data :=
  match tasks.getCoreOnSocket config (some socket) <|> tasks.getCoreOnSocket config none with
  | some core => tasks.startTaskOnCore core
  | none => tasks

/-- `startSharedTask`. -/
def Tasks.startSharedTask (tasks : Tasks Data) (config : TaskConfig) : Tasks Data :=
  match config.sharedCores.find? fun core => !(tasks.lcores core).isRunning with
  | some core => tasks.startTaskOnCore core
  | none => tasks

/-! ## Ending -/

/-- `task_store_result`: `emplace` keeps an entry that is there. -/
def Tasks.storeResult (tasks : Tasks Data) (task : Nat) (result : LuaString) : Tasks Data :=
  if tasks.results task = none then
    { tasks with results := Function.update tasks.results task (some (cString result)) }
  else tasks

/-- The end of `slave` that stores what the task's function returned. -/
def Tasks.store (serpent : Serpent (Table Data)) (tasks : Tasks Data) (core task : Nat)
    (returned : List (Value Data)) : Tasks Data :=
  let tasks := tasks.storeResult task (serpent.dump (pack returned))
  { tasks with lcores := Function.update tasks.lcores core (.running task (some returned)) }

/-- The thread of the core is done with the task. -/
def Tasks.leave (tasks : Tasks Data) (core task : Nat) (returned : Option (List (Value Data))) :
    Tasks Data :=
  { tasks with
    lcores := Function.update tasks.lcores core .wait
    outcomes := Function.update tasks.outcomes task
      (some (returned.elim .crashed .returned)) }

/-! ## Waiting -/

/-- What `wait` makes of a result. -/
def replyTo (serpent : Serpent (Table Data)) (limit : Nat) (result : LuaString) : TaskReply Data :=
  match unpackAll limit (serpent.load (cString result)) with
  | some values => .values values
  | none => .failed

/-- One round of `task:wait`. -/
def Tasks.poll (serpent : Serpent (Table Data)) (limit : Nat) (tasks : Tasks Data)
    (task core : Nat) : Tasks Data :=
  if (tasks.lcores core).isRunning then tasks
  else
    match tasks.results task with
    | none => { tasks with master := .idle, replies := tasks.replies ++ [(task, .nothing)] }
    | some result =>
        { tasks with
          results := Function.update tasks.results task none
          master := .idle
          replies := tasks.replies ++ [(task, replyTo serpent limit result)] }

/-- One reading of `waitForTasks`: a core that is running makes it begin again. -/
def Tasks.scan (tasks : Tasks Data) (config : TaskConfig) : List Nat → Tasks Data
  | [] => { tasks with master := .idle }
  | core :: left =>
      if (tasks.lcores core).isRunning then
        { tasks with master := .scanning (config.cores ++ config.sharedCores) }
      else { tasks with master := .scanning left }

/-- `task:isRunning`. -/
def Tasks.isRunning (tasks : Tasks Data) (task core : Nat) : Bool :=
  tasks.latest core = some task && (tasks.lcores core).isRunning

/-! ## Steps -/

inductive TaskLabel (Data : Type) where
  | startTask (socket : Int)
  | startSharedTask
  | startTaskOnCore (core : Nat)
  | wait (task core : Nat)
  | poll
  | waitForTasks
  | scan
  | store (core : Nat) (returned : List (Value Data))
  | leave (core : Nat)

def tasksNext (serpent : Serpent (Table Data)) (limit : Nat) (config : TaskConfig)
    (tasks : Tasks Data) : TaskLabel Data → Option (Tasks Data)
  | .startTask socket =>
      if tasks.master = .idle then some (tasks.startTask config socket) else none
  | .startSharedTask =>
      if tasks.master = .idle then some (tasks.startSharedTask config) else none
  | .startTaskOnCore core =>
      if tasks.master = .idle then some (tasks.startTaskOnCore core) else none
  | .wait task core =>
      if tasks.master = .idle ∧ (task, core) ∈ tasks.started then
        some { tasks with master := .waiting task core }
      else none
  | .poll =>
      match tasks.master with
      | .waiting task core => some (tasks.poll serpent limit task core)
      | _ => none
  | .waitForTasks =>
      if tasks.master = .idle then
        some { tasks with master := .scanning (config.cores ++ config.sharedCores) }
      else none
  | .scan =>
      match tasks.master with
      | .scanning left => some (tasks.scan config left)
      | _ => none
  | .store core returned =>
      match tasks.lcores core with
      | .running task none => some (tasks.store serpent core task returned)
      | _ => none
  | .leave core =>
      match tasks.lcores core with
      | .running task returned => some (tasks.leave core task returned)
      | .wait => none

/-! ## What waiting is for -/

/-- The replies of the calls of `wait` for a task. -/
def Tasks.repliesOf (tasks : Tasks Data) (task : Nat) : List (TaskReply Data) :=
  (tasks.replies.filter fun reply => reply.1 = task).map Prod.snd

/-- The reply that a task's outcome calls for. -/
def TaskOutcome.reply (limit : Nat) : TaskOutcome Data → TaskReply Data
  | .returned values =>
      match unpackAll limit (pack values) with
      | some values => .values values
      | none => .failed
  | .crashed => .nothing

/-- The entry that a task leaves in the map. -/
def TaskOutcome.entry (serpent : Serpent (Table Data)) : TaskOutcome Data → Option LuaString
  | .returned values => some (serpent.dump (pack values))
  | .crashed => none

/-- The first reply is the outcome, and the following ones are empty. -/
def Answered (limit : Nat) (outcome : TaskOutcome Data) (replies : List (TaskReply Data)) : Prop :=
  ∃ n, replies = outcome.reply limit :: List.replicate n .nothing

/-- A task that has not ended: nobody has a reply, and only its own result is stored. -/
def TaskOpen (serpent : Serpent (Table Data)) (tasks : Tasks Data) (task : Nat)
    (returned : Option (List (Value Data))) : Prop :=
  tasks.outcomes task = none ∧
    tasks.results task = returned.map (fun values => serpent.dump (pack values)) ∧
      tasks.repliesOf task = []

/-- A task that has ended: its result is in the map until the first reply. -/
def TaskClosed (serpent : Serpent (Table Data)) (limit : Nat) (tasks : Tasks Data) (task : Nat) :
    Prop :=
  ∃ outcome, tasks.outcomes task = some outcome ∧
    (tasks.results task = outcome.entry serpent ∧ tasks.repliesOf task = [] ∨
      tasks.results task = none ∧ Answered limit outcome (tasks.repliesOf task))

/-- The same of one task is stored in two states. -/
structure SameTask (tasks tasks' : Tasks Data) (task : Nat) : Prop where
  outcome : tasks'.outcomes task = tasks.outcomes task
  result : tasks'.results task = tasks.results task
  replies : tasks'.repliesOf task = tasks.repliesOf task

structure TaskInvariant (serpent : Serpent (Table Data)) (limit : Nat) (config : TaskConfig)
    (tasks : Tasks Data) : Prop where
  started_lt : ∀ task core, (task, core) ∈ tasks.started → task < tasks.counter
  started_unique : ∀ task core core', (task, core) ∈ tasks.started →
    (task, core') ∈ tasks.started → core = core'
  running : ∀ core task returned, tasks.lcores core = .running task returned →
    (task, core) ∈ tasks.started ∧ tasks.latest core = some task ∧
      TaskOpen serpent tasks task returned
  ended : ∀ task core, (task, core) ∈ tasks.started →
    (∀ returned, tasks.lcores core ≠ .running task returned) → TaskClosed serpent limit tasks task
  unstarted : ∀ task, (∀ core, (task, core) ∉ tasks.started) → TaskOpen serpent tasks task none
  waiting : ∀ task core, tasks.master = .waiting task core → (task, core) ∈ tasks.started
  scanning : ∀ left, tasks.master = .scanning left →
    ∀ core ∈ config.cores ++ config.sharedCores, core ∉ left →
      (tasks.lcores core).isRunning = false

section

variable {serpent : Serpent (Table Data)} {limit : Nat} {config : TaskConfig}
  {tasks tasks' : Tasks Data} {task core : Nat}

theorem TaskOpen.of_same {returned : Option (List (Value Data))}
    (hopen : TaskOpen serpent tasks task returned) (hsame : SameTask tasks tasks' task) :
    TaskOpen serpent tasks' task returned := by
  unfold TaskOpen
  rw [hsame.outcome, hsame.result, hsame.replies]
  exact hopen

theorem TaskClosed.of_same (hclosed : TaskClosed serpent limit tasks task)
    (hsame : SameTask tasks tasks' task) : TaskClosed serpent limit tasks' task := by
  unfold TaskClosed
  rw [hsame.outcome, hsame.result, hsame.replies]
  exact hclosed

theorem isRunning_eq_false_iff {lcore : Lcore Data} :
    lcore.isRunning = false ↔ ∀ task returned, lcore ≠ .running task returned := by
  cases lcore <;> simp [Lcore.isRunning]

/-- Only the master changes, to a point that the state bears out. -/
theorem TaskInvariant.withMaster (hinv : TaskInvariant serpent limit config tasks)
    {master : Master} (hwaiting : ∀ task core, master = .waiting task core →
      (task, core) ∈ tasks.started)
    (hscanning : ∀ left, master = .scanning left →
      ∀ core ∈ config.cores ++ config.sharedCores, core ∉ left →
        (tasks.lcores core).isRunning = false) :
    TaskInvariant serpent limit config { tasks with master := master } :=
  ⟨hinv.started_lt, hinv.started_unique, hinv.running, hinv.ended, hinv.unstarted, hwaiting,
    hscanning⟩

theorem TaskInvariant.startTaskOnCore (hinv : TaskInvariant serpent limit config tasks)
    (hidle : tasks.master = .idle) (core : Nat) :
    TaskInvariant serpent limit config (tasks.startTaskOnCore core) := by
  unfold Tasks.startTaskOnCore
  split
  next => exact hinv
  next hwait =>
    have hwait' := isRunning_eq_false_iff.mp (Bool.eq_false_iff.mpr hwait)
    refine ⟨?_, ?_, ?_, ?_, ?_, ?_, ?_⟩
    · intro task other hmem
      rcases List.mem_append.mp hmem with hmem | hmem
      · exact Nat.lt_succ_of_lt (hinv.started_lt task other hmem)
      · cases List.mem_singleton.mp hmem
        exact Nat.lt_succ_self _
    · intro task other other' hmem hmem'
      rcases List.mem_append.mp hmem with hmem | hmem <;>
        rcases List.mem_append.mp hmem' with hmem' | hmem'
      · exact hinv.started_unique task other other' hmem hmem'
      · cases List.mem_singleton.mp hmem'
        exact absurd (hinv.started_lt _ _ hmem) (Nat.lt_irrefl _)
      · cases List.mem_singleton.mp hmem
        exact absurd (hinv.started_lt _ _ hmem') (Nat.lt_irrefl _)
      · cases List.mem_singleton.mp hmem
        cases List.mem_singleton.mp hmem'
        rfl
    · intro other task returned hrunning
      by_cases heq : other = core
      · subst heq
        simp only [Function.update_self] at hrunning ⊢
        cases hrunning
        exact ⟨by simp, rfl, hinv.unstarted _ fun other hmem =>
          Nat.lt_irrefl _ (hinv.started_lt _ other hmem)⟩
      · simp only [Function.update_of_ne heq] at hrunning ⊢
        obtain ⟨hmem, hlatest, hopen⟩ := hinv.running other task returned hrunning
        exact ⟨List.mem_append_left _ hmem, hlatest, hopen⟩
    · intro task other hmem hended
      rcases List.mem_append.mp hmem with hmem | hmem
      · refine hinv.ended task other hmem fun returned hrunning => ?_
        have hne : other ≠ core := fun heq => hwait' task returned (heq ▸ hrunning)
        exact hended returned (by simpa only [Function.update_of_ne hne] using hrunning)
      · cases List.mem_singleton.mp hmem
        exact absurd (Function.update_self _ _ _) (hended none)
    · intro task hnever
      exact hinv.unstarted task fun other hmem => hnever other (List.mem_append_left _ hmem)
    · intro task other hmaster
      rw [hidle] at hmaster
      cases hmaster
    · intro left hmaster
      rw [hidle] at hmaster
      cases hmaster

theorem TaskInvariant.store (hinv : TaskInvariant serpent limit config tasks)
    (hrunning : tasks.lcores core = .running task none) (returned : List (Value Data)) :
    TaskInvariant serpent limit config (tasks.store serpent core task returned) := by
  obtain ⟨hstarted, hlatest, hnone, hempty, hreplies⟩ := hinv.running core task none hrunning
  have hstore : tasks.store serpent core task returned = { tasks with
      results := Function.update tasks.results task (some (serpent.dump (pack returned)))
      lcores := Function.update tasks.lcores core (.running task (some returned)) } := by
    simp only [Tasks.store, Tasks.storeResult, hempty, Option.map_none, if_true,
      serpent.cString_dump]
  rw [hstore]
  have hothers : ∀ other, other ≠ task → SameTask tasks { tasks with
      results := Function.update tasks.results task (some (serpent.dump (pack returned)))
      lcores := Function.update tasks.lcores core (.running task (some returned)) } other :=
    fun other hne => ⟨rfl, Function.update_of_ne hne _ _, rfl⟩
  refine ⟨hinv.started_lt, hinv.started_unique, ?_, ?_, ?_, hinv.waiting, ?_⟩
  · intro other otherTask otherReturned hother
    by_cases heq : other = core
    · subst heq
      simp only [Function.update_self] at hother
      cases hother
      exact ⟨hstarted, hlatest, hnone, Function.update_self _ _ _, hreplies⟩
    · simp only [Function.update_of_ne heq] at hother
      obtain ⟨hmem, hlast, hopen⟩ := hinv.running other otherTask otherReturned hother
      have hne : otherTask ≠ task := fun heqTask =>
        heq (hinv.started_unique _ _ _ (heqTask ▸ hmem) hstarted)
      exact ⟨hmem, hlast, hopen.of_same (hothers otherTask hne)⟩
  · intro otherTask other hmem hended
    have hne : otherTask ≠ task := by
      rintro rfl
      obtain rfl := hinv.started_unique _ _ _ hmem hstarted
      exact hended (some returned) (Function.update_self _ _ _)
    refine (hinv.ended otherTask other hmem fun otherReturned hother => ?_).of_same
      (hothers otherTask hne)
    have hcore : other ≠ core := by
      rintro rfl
      rw [hrunning] at hother
      cases hother
      exact hne rfl
    exact hended otherReturned (by simpa only [Function.update_of_ne hcore] using hother)
  · intro otherTask hnever
    have hne : otherTask ≠ task := by
      rintro rfl
      exact hnever core hstarted
    exact (hinv.unstarted otherTask hnever).of_same (hothers otherTask hne)
  · intro left hmaster other hmem hleft
    have hwait := hinv.scanning left hmaster other hmem hleft
    have hne : other ≠ core := by
      rintro rfl
      rw [hrunning] at hwait
      cases hwait
    simpa only [Function.update_of_ne hne] using hwait

theorem TaskInvariant.leave (hinv : TaskInvariant serpent limit config tasks)
    {returned : Option (List (Value Data))}
    (hrunning : tasks.lcores core = .running task returned) :
    TaskInvariant serpent limit config (tasks.leave core task returned) := by
  obtain ⟨hstarted, -, -, hresult, hreplies⟩ := hinv.running core task returned hrunning
  have hothers : ∀ other, other ≠ task → SameTask tasks (tasks.leave core task returned) other :=
    fun other hne => ⟨Function.update_of_ne hne _ _, rfl, rfl⟩
  refine ⟨hinv.started_lt, hinv.started_unique, ?_, ?_, ?_, hinv.waiting, ?_⟩
  · intro other otherTask otherReturned hother
    by_cases heq : other = core
    · subst heq
      simp only [Tasks.leave, Function.update_self] at hother
      cases hother
    · simp only [Tasks.leave, Function.update_of_ne heq] at hother
      obtain ⟨hmem, hlast, hopen⟩ := hinv.running other otherTask otherReturned hother
      have hne : otherTask ≠ task := fun heqTask =>
        heq (hinv.started_unique _ _ _ (heqTask ▸ hmem) hstarted)
      exact ⟨hmem, hlast, hopen.of_same (hothers otherTask hne)⟩
  · intro otherTask other hmem hended
    by_cases heq : otherTask = task
    · subst heq
      refine ⟨returned.elim .crashed .returned, Function.update_self _ _ _, .inl ⟨?_, hreplies⟩⟩
      show tasks.results otherTask = _
      rw [hresult]
      cases returned <;> rfl
    · refine (hinv.ended otherTask other hmem fun otherReturned hother => ?_).of_same
        (hothers otherTask heq)
      have hcore : other ≠ core := by
        rintro rfl
        rw [hrunning] at hother
        cases hother
        exact heq rfl
      exact hended otherReturned (by
        simpa only [Tasks.leave, Function.update_of_ne hcore] using hother)
  · intro otherTask hnever
    have hne : otherTask ≠ task := by
      rintro rfl
      exact hnever core hstarted
    exact (hinv.unstarted otherTask hnever).of_same (hothers otherTask hne)
  · intro left hmaster other hmem hleft
    by_cases heq : other = core
    · subst heq
      simp [Tasks.leave, Lcore.isRunning]
    · simpa only [Tasks.leave, Function.update_of_ne heq] using
        hinv.scanning left hmaster other hmem hleft

/-- A task that has ended gets one more reply. -/
theorem TaskClosed.reply {tasks' : Tasks Data} (hclosed : TaskClosed serpent limit tasks task)
    (houtcomes : tasks'.outcomes = tasks.outcomes) (hresults : tasks'.results task = none)
    (hreplies : tasks'.repliesOf task = tasks.repliesOf task ++
      [(tasks.results task).elim .nothing (replyTo serpent limit)]) :
    TaskClosed serpent limit tasks' task := by
  obtain ⟨outcome, houtcome, ⟨hentry, hnone⟩ | ⟨htaken, n, hanswered⟩⟩ := hclosed
  · refine ⟨outcome, houtcomes ▸ houtcome, .inr ⟨hresults, 0, ?_⟩⟩
    rw [hreplies, hnone, hentry]
    cases outcome with
    | crashed => rfl
    | returned values =>
        simp only [TaskOutcome.entry, Option.elim_some, replyTo, serpent.cString_dump,
          serpent.load_dump, List.nil_append, List.replicate_zero]
        rfl
  · refine ⟨outcome, houtcomes ▸ houtcome, .inr ⟨hresults, n + 1, ?_⟩⟩
    rw [hreplies, hanswered, htaken]
    simp [List.replicate_succ']

theorem repliesOf_append (tasks : Tasks Data) (task other : Nat) (reply : TaskReply Data)
    (results : Nat → Option LuaString) (master : Master) :
    Tasks.repliesOf { tasks with
        results := results
        master := master
        replies := tasks.replies ++ [(task, reply)] } other =
      if other = task then tasks.repliesOf other ++ [reply] else tasks.repliesOf other := by
  unfold Tasks.repliesOf
  by_cases heq : other = task
  · simp [heq]
  · simp [heq, Ne.symm heq]

theorem TaskInvariant.poll (hinv : TaskInvariant serpent limit config tasks)
    (hwaiting : tasks.master = .waiting task core) :
    TaskInvariant serpent limit config (tasks.poll serpent limit task core) := by
  have hstarted := hinv.waiting task core hwaiting
  unfold Tasks.poll
  split
  next => exact hinv
  next hwait =>
    have hended := isRunning_eq_false_iff.mp (Bool.eq_false_iff.mpr hwait)
    have hclosed := hinv.ended task core hstarted (hended task)
    -- both branches take what there is out of the map and add the reply
    have hpolled : (match tasks.results task with
        | none => { tasks with master := .idle, replies := tasks.replies ++ [(task, .nothing)] }
        | some result =>
            { tasks with
              results := Function.update tasks.results task none
              master := .idle
              replies := tasks.replies ++ [(task, replyTo serpent limit result)] } : Tasks Data) =
        { tasks with
          results := Function.update tasks.results task none
          master := .idle
          replies := tasks.replies ++
            [(task, (tasks.results task).elim .nothing (replyTo serpent limit))] } := by
      cases hresult : tasks.results task with
      | none =>
          have hsame : Function.update tasks.results task none = tasks.results := by
            rw [← hresult, Function.update_eq_self]
          simp [hsame]
      | some result => rfl
    rw [hpolled]
    have hothers : ∀ other, other ≠ task → SameTask tasks { tasks with
        results := Function.update tasks.results task none
        master := .idle
        replies := tasks.replies ++
          [(task, (tasks.results task).elim .nothing (replyTo serpent limit))] } other := by
      intro other hne
      refine ⟨rfl, Function.update_of_ne hne _ _, ?_⟩
      rw [repliesOf_append, if_neg hne]
    refine ⟨hinv.started_lt, hinv.started_unique, ?_, ?_, ?_, ?_, ?_⟩
    · intro other otherTask returned hrunning
      obtain ⟨hmem, hlatest, hopen⟩ := hinv.running other otherTask returned hrunning
      have hne : otherTask ≠ task := by
        rintro rfl
        obtain rfl := hinv.started_unique _ _ _ hmem hstarted
        exact hended _ _ hrunning
      exact ⟨hmem, hlatest, hopen.of_same (hothers otherTask hne)⟩
    · intro otherTask other hmem hotherEnded
      by_cases heq : otherTask = task
      · subst heq
        refine hclosed.reply rfl (Function.update_self _ _ _) ?_
        rw [repliesOf_append, if_pos rfl]
      · exact (hinv.ended otherTask other hmem hotherEnded).of_same (hothers otherTask heq)
    · intro otherTask hnever
      have hne : otherTask ≠ task := by
        rintro rfl
        exact hnever core hstarted
      exact (hinv.unstarted otherTask hnever).of_same (hothers otherTask hne)
    · intro otherTask other hmaster
      exact absurd hmaster (by simp)
    · intro left hmaster
      exact absurd hmaster (by simp)

theorem TaskInvariant.scan (hinv : TaskInvariant serpent limit config tasks) {left : List Nat}
    (hscanning : tasks.master = .scanning left) :
    TaskInvariant serpent limit config (tasks.scan config left) := by
  cases left with
  | nil =>
      refine hinv.withMaster ?_ ?_
      · intro _ _ hmaster
        cases hmaster
      · intro _ hmaster
        cases hmaster
  | cons first left =>
      simp only [Tasks.scan]
      split
      next =>
        refine hinv.withMaster ?_ ?_
        · intro _ _ hmaster
          cases hmaster
        · intro left' hmaster core hmem hleft
          cases hmaster
          exact absurd hmem hleft
      next hwait =>
        refine hinv.withMaster ?_ ?_
        · intro _ _ hmaster
          cases hmaster
        · intro left' hmaster core hmem hleft
          cases hmaster
          by_cases heq : core = first
          · subst heq
            exact Bool.eq_false_iff.mpr hwait
          · exact hinv.scanning _ hscanning core hmem (by simp [heq, hleft])

theorem tasksNext_invariant {label : TaskLabel Data}
    (hinv : TaskInvariant serpent limit config tasks)
    (hnext : tasksNext serpent limit config tasks label = some tasks') :
    TaskInvariant serpent limit config tasks' := by
  cases label with
  | startTask socket =>
      obtain ⟨hidle, ⟨⟩⟩ := Option.ite_none_right_eq_some.mp hnext
      unfold Tasks.startTask
      split
      · exact hinv.startTaskOnCore hidle _
      · exact hinv
  | startSharedTask =>
      obtain ⟨hidle, ⟨⟩⟩ := Option.ite_none_right_eq_some.mp hnext
      unfold Tasks.startSharedTask
      split
      · exact hinv.startTaskOnCore hidle _
      · exact hinv
  | startTaskOnCore core =>
      obtain ⟨hidle, ⟨⟩⟩ := Option.ite_none_right_eq_some.mp hnext
      exact hinv.startTaskOnCore hidle core
  | wait task core =>
      obtain ⟨⟨-, hstarted⟩, ⟨⟩⟩ := Option.ite_none_right_eq_some.mp hnext
      refine hinv.withMaster ?_ ?_
      · intro task' core' hmaster
        cases hmaster
        exact hstarted
      · intro _ hmaster
        cases hmaster
  | poll =>
      simp only [tasksNext] at hnext
      split at hnext
      next task core hwaiting =>
        cases hnext
        exact hinv.poll hwaiting
      next => cases hnext
  | waitForTasks =>
      obtain ⟨-, ⟨⟩⟩ := Option.ite_none_right_eq_some.mp hnext
      refine hinv.withMaster ?_ ?_
      · intro _ _ hmaster
        cases hmaster
      · intro left hmaster core hmem hleft
        cases hmaster
        exact absurd hmem hleft
  | scan =>
      simp only [tasksNext] at hnext
      split at hnext
      next left hscanning =>
        cases hnext
        exact hinv.scan hscanning
      next => cases hnext
  | store core returned =>
      simp only [tasksNext] at hnext
      split at hnext
      next task hrunning =>
        cases hnext
        exact hinv.store hrunning returned
      next => cases hnext
  | leave core =>
      simp only [tasksNext] at hnext
      split at hnext
      next task returned hrunning =>
        cases hnext
        exact hinv.leave hrunning
      next => cases hnext

theorem initial_invariant : TaskInvariant serpent limit config (Tasks.initial : Tasks Data) where
  started_lt _ _ hmem := by cases hmem
  started_unique _ _ _ hmem := by cases hmem
  running _ _ _ hrunning := by cases hrunning
  ended _ _ hmem := by cases hmem
  unstarted _ _ := ⟨rfl, rfl, rfl⟩
  waiting _ _ hmaster := by cases hmaster
  scanning _ hmaster := by cases hmaster

variable {schedule : List (TaskLabel Data)}

theorem invariant_of_tasks
    (hrun : runSchedule (tasksNext serpent limit config) .initial schedule = some tasks) :
    TaskInvariant serpent limit config tasks :=
  invariant_of_schedule (fun _ _ _ hinv _ hnext => tasksNext_invariant hinv hnext)
    initial_invariant (fun _ _ => trivial) hrun

/-- However the tasks, their ends and the master's calls interleave: nobody has a reply
for a task before it has ended; the first reply for it is what its own function
returned, or nothing if it crashed, and all further ones are empty. -/
theorem tasks_replies
    (hrun : runSchedule (tasksNext serpent limit config) .initial schedule = some tasks)
    (task : Nat) :
    tasks.repliesOf task = [] ∨
      ∃ outcome, tasks.outcomes task = some outcome ∧
        Answered limit outcome (tasks.repliesOf task) := by
  have hinv := invariant_of_tasks hrun
  have hcases : TaskClosed serpent limit tasks task ∨ tasks.repliesOf task = [] := by
    by_cases hstarted : ∃ core, (task, core) ∈ tasks.started
    · obtain ⟨core, hmem⟩ := hstarted
      by_cases hrunning : ∃ returned, tasks.lcores core = .running task returned
      · obtain ⟨returned, hrunning⟩ := hrunning
        exact .inr (hinv.running core task returned hrunning).2.2.2.2
      · exact .inl (hinv.ended task core hmem fun returned heq => hrunning ⟨returned, heq⟩)
    · exact .inr (hinv.unstarted task fun core hmem => hstarted ⟨core, hmem⟩).2.2
  rcases hcases with ⟨outcome, houtcome, ⟨-, hnone⟩ | ⟨-, hanswered⟩⟩ | hnone
  · exact .inl hnone
  · exact .inr ⟨outcome, houtcome, hanswered⟩
  · exact .inl hnone

/-- A task that has started runs exactly if `isRunning` says so, even where its core has
been given to another task since; and it then runs on that core only. -/
theorem isRunning_iff_running
    (hrun : runSchedule (tasksNext serpent limit config) .initial schedule = some tasks)
    (hstarted : (task, core) ∈ tasks.started) :
    tasks.isRunning task core = true ↔
      ∃ other returned, tasks.lcores other = .running task returned := by
  have hinv := invariant_of_tasks hrun
  unfold Tasks.isRunning
  rw [Bool.and_eq_true, decide_eq_true_eq]
  constructor
  · rintro ⟨hlatest, hbusy⟩
    cases hlcore : tasks.lcores core with
    | wait =>
        rw [hlcore] at hbusy
        cases hbusy
    | running other returned =>
        obtain ⟨-, hother, -⟩ := hinv.running core other returned hlcore
        obtain rfl : other = task := Option.some.inj (hother.symm.trans hlatest)
        exact ⟨core, returned, hlcore⟩
  · rintro ⟨other, returned, hlcore⟩
    obtain ⟨hmem, hlatest, -⟩ := hinv.running other task returned hlcore
    obtain rfl := hinv.started_unique _ _ _ hmem hstarted
    exact ⟨hlatest, by rw [hlcore]; rfl⟩

/-- When `waitForTasks` has read the last core, no task runs on any of them: a core that
was free when it was read is free still. -/
theorem waitForTasks_returns
    (hrun : runSchedule (tasksNext serpent limit config) .initial schedule = some tasks)
    (hreturns : tasks.master = .scanning []) {core : Nat}
    (hcore : core ∈ config.cores ++ config.sharedCores) :
    ∀ task returned, tasks.lcores core ≠ .running task returned :=
  isRunning_eq_false_iff.mp
    ((invariant_of_tasks hrun).scanning [] hreturns core hcore (List.not_mem_nil))

end

/-- One core for two tasks in a row, the second of which crashes; the first is waited for
twice. -/
def exampleTasks : List (TaskLabel Empty) :=
  [.startTask 0, .store 1 [.boolean true], .leave 1, .startTask 0, .wait 1 1, .poll, .leave 1,
    .poll, .wait 1 1, .poll, .waitForTasks, .scan]

theorem tasks_replies_example :
    ∃ tasks, runSchedule (tasksNext tableSerpent 249 ⟨[1], [], fun _ => 0⟩) .initial exampleTasks =
        some tasks ∧
      (tasks.repliesOf 1 = [] ∨ ∃ outcome, tasks.outcomes 1 = some outcome ∧
        Answered 249 outcome (tasks.repliesOf 1)) :=
  ⟨_, rfl, tasks_replies (rfl : runSchedule (tasksNext tableSerpent 249 ⟨[1], [], fun _ => 0⟩)
    .initial exampleTasks = some _) 1⟩

/-- The second task runs where the first one did. -/
theorem isRunning_iff_running_example :
    ∃ tasks, runSchedule (tasksNext tableSerpent 249 ⟨[1], [], fun _ => 0⟩) .initial
        (exampleTasks.take 4) = some tasks ∧
      (tasks.isRunning 1 1 = true ↔ ∃ other returned, tasks.lcores other = .running 1 returned) :=
  ⟨_, rfl, isRunning_iff_running (rfl : runSchedule (tasksNext tableSerpent 249
    ⟨[1], [], fun _ => 0⟩) .initial (exampleTasks.take 4) = some _) (.head _)⟩

theorem waitForTasks_returns_example :
    ∃ tasks, runSchedule (tasksNext tableSerpent 249 ⟨[1], [], fun _ => 0⟩) .initial exampleTasks =
        some tasks ∧
      ∀ task returned, tasks.lcores 1 ≠ .running task returned :=
  ⟨_, rfl, waitForTasks_returns (rfl : runSchedule (tasksNext tableSerpent 249
    ⟨[1], [], fun _ => 0⟩) .initial exampleTasks = some _) rfl (.head _)⟩

end Libmoon.InterTask
