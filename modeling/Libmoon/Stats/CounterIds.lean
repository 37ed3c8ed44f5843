import Libmoon.InterTask.Locks
import Libmoon.Serpent.Records

/-! # Counter ids

All tasks number their counters in one namespace. Each task that loads the module
initialises the namespace if none has before, and each counter takes the next number, both
under the lock; the pipe is read without it. The ids are those that one task would have given
out, and all tasks read one pipe.
-/

namespace Libmoon.Stats

open Foundation InterTask

variable {Thread : Type}

/-- What is kept in the namespace: numbers as far as doubles are exact, and pipes, which are
told apart by the task that has made them. -/
inductive Shared (Thread : Type) where
  | number (number : ℕ)
  | pipe (maker : Thread)
deriving DecidableEq

/-- "initialized" -/
def initializedKey : Key :=
  ⟨[0x69, 0x6e, 0x69, 0x74, 0x69, 0x61, 0x6c, 0x69, 0x7a, 0x65, 0x64], by decide, by decide⟩
/-- "counterId" -/
def counterIdKey : Key :=
  ⟨[0x63, 0x6f, 0x75, 0x6e, 0x74, 0x65, 0x72, 0x49, 0x64], by decide, by decide⟩
/-- "pipe" -/
def pipeKey : Key := ⟨[0x70, 0x69, 0x70, 0x65], by decide, by decide⟩

section Scripts

variable (serpent : Serpent (Value (Shared Thread)))

/-- The function that is called under the lock when a task loads the module. -/
def setupShare (thread : Thread) : NsScript (Shared Thread) :=
  readKey serpent initializedKey fun initialized =>
    if initialized.truthy then .done .nothing
    else
      assignKey serpent counterIdKey (.data (.number 0)) <|
      assignKey serpent pipeKey (.data (.pipe thread)) <|
      assignKey serpent initializedKey (.boolean true) (.done .nothing)

/-- The function that `newCounter` calls under the lock. Arithmetic on nil is an error. -/
def nextId : NsScript (Shared Thread) :=
  readKey serpent counterIdKey fun counterId =>
    match counterId with
    | .data (.number number) =>
        assignKey serpent counterIdKey (.data (.number (number + 1)))
          (.done (.value (.data (.number (number + 1)))))
    | _ => .fail

/-- So many counters; they all use the pipe that the task has read. -/
def newCounters (serverPipe : Value (Shared Thread)) : ℕ → NsScript (Shared Thread)
  | 0 => .done (.value serverPipe)
  | count + 1 => lockCall (nextId serpent) (newCounters serverPipe count)

/-- The read of the pipe, outside the call under the lock. -/
def readPipe (counters : ℕ) : NsScript (Shared Thread) :=
  readKey serpent pipeKey fun serverPipe => newCounters serpent serverPipe counters

/-- A task that loads the module and makes so many counters. -/
def countingTask (thread : Thread) (counters : ℕ) : NsScript (Shared Thread) :=
  lockCall (setupShare serpent thread) (readPipe serpent counters)

end Scripts

/-- The ids that were given out, in their order. -/
def issued (sections : List (Thread × Option (Got (Shared Thread)))) : List ℕ :=
  sections.filterMap fun entry =>
    match entry.2 with
    | some (.value (.data (.number id))) => some id
    | _ => none

/-! ## One section after the other -/

section Sections

variable {entries : Store → List (LuaString × LuaString)}
  {serpent : Serpent (Value (Shared Thread))}

/-- The namespace has been initialised by the task, and so many ids were given out. -/
structure Initialized (serpent : Serpent (Value (Shared Thread))) (store : Store) (maker : Thread)
    (count : ℕ) : Prop where
  initialized : held serpent store initializedKey = .boolean true
  counterId : held serpent store counterIdKey = .data (.number count)
  pipe : namespaceRetrieve store pipeKey.name = stored serpent (.data (.pipe maker))

theorem run_setupShare_first {store : Store} (thread : Thread)
    (hheld : held serpent store initializedKey = .nil) : ∃ store',
      (setupShare serpent thread).run (accessMap entries) store = (store', some .nothing) ∧
        Initialized serpent store' thread 0 := by
  rw [setupShare, run_readKey, hheld]
  simp only [Value.truthy, Bool.false_eq_true, if_false, run_assignKey, Script.run]
  refine ⟨_, rfl, ?_, ?_, ?_⟩ <;> simp only [held_newindex, retrieve_newindex] <;> rfl

theorem Initialized.run_setupShare {store : Store} {maker : Thread} {count : ℕ}
    (hstore : Initialized serpent store maker count) (thread : Thread) :
    (setupShare serpent thread).run (accessMap entries) store = (store, some .nothing) := by
  rw [setupShare, run_readKey, hstore.initialized]
  rfl

theorem Initialized.run_nextId {store : Store} {maker : Thread} {count : ℕ}
    (hstore : Initialized serpent store maker count) : ∃ store',
      (nextId serpent).run (accessMap entries) store =
          (store', some (.value (.data (.number (count + 1))))) ∧
        Initialized serpent store' maker (count + 1) := by
  rw [nextId, run_readKey, hstore.counterId]
  simp only [run_assignKey, Script.run]
  refine ⟨_, rfl, ?_, ?_, ?_⟩
  · rw [held_newindex, if_neg (by decide), hstore.initialized]
  · rw [held_newindex, if_pos rfl]
    rfl
  · rw [retrieve_newindex, if_neg (by decide), hstore.pipe]

theorem accessMap_pipe {store : Store} {maker : Thread}
    (hpipe : namespaceRetrieve store pipeKey.name = stored serpent (.data (.pipe maker))) :
    accessMap entries store (.copy pipeKey.name) =
      (store, (.string (serpent.dump (.data (.pipe maker))) : Got (Shared Thread))) := by
  simp [accessMap, hpipe, stored]

/-- Where a task can be between two sections. Before the first one it has not read anything. -/
inductive At (serpent : Serpent (Value (Shared Thread)))
    (sections : List (Thread × Option (Got (Shared Thread)))) (thread : Thread) :
    NsScript (Shared Thread) → Prop where
  | loading (counters : ℕ) : At serpent sections thread (countingTask serpent thread counters)
  | reading {first} (hfirst : first ∈ sections.head?) (counters : ℕ) :
      At serpent sections thread (readPipe serpent counters)
  | copying {first} (hfirst : first ∈ sections.head?) (counters : ℕ) :
      At serpent sections thread
        (loadRetrieved serpent pipeKey fun serverPipe => newCounters serpent serverPipe counters)
  | counting {first} (hfirst : first ∈ sections.head?) (count : ℕ) :
      At serpent sections thread (newCounters serpent (.data (.pipe first.1)) count)

theorem At.append {sections : List (Thread × Option (Got (Shared Thread)))} {thread : Thread}
    {script : NsScript (Shared Thread)} (hat : At serpent sections thread script)
    (entry : Thread × Option (Got (Shared Thread))) :
    At serpent (sections ++ [entry]) thread script := by
  cases hat with
  | loading counters => exact .loading counters
  | reading hfirst counters => exact .reading (List.mem_head?_append_of_mem_head? hfirst) counters
  | copying hfirst counters => exact .copying (List.mem_head?_append_of_mem_head? hfirst) counters
  | counting hfirst count => exact .counting (List.mem_head?_append_of_mem_head? hfirst) count

theorem At.ne_fail {sections : List (Thread × Option (Got (Shared Thread)))} {thread : Thread}
    {script : NsScript (Shared Thread)} (hat : At serpent sections thread script) :
    script ≠ .fail := by
  intro hfail
  cases hat with
  | loading counters => cases hfail
  | reading hfirst counters => cases hfail
  | copying hfirst counters => cases hfail
  | counting hfirst count => cases count <;> cases hfail

/-- What a task has read. -/
theorem At.eq_pipe {sections : List (Thread × Option (Got (Shared Thread)))} {thread : Thread}
    {script : NsScript (Shared Thread)} (hat : At serpent sections thread script)
    {got : Got (Shared Thread)} (hdone : script = .done got) :
    ∃ first ∈ sections.head?, got = .value (.data (.pipe first.1)) := by
  cases hat with
  | loading counters => cases hdone
  | reading hfirst counters => cases hdone
  | copying hfirst counters => cases hdone
  | @counting first hfirst count =>
      cases count with
      | zero =>
          cases hdone
          exact ⟨first, hfirst, rfl⟩
      | succ count => cases hdone

/-- What holds between two sections. -/
structure Numbered (serpent : Serpent (Value (Shared Thread)))
    (serial : Serial Thread Store MapAccess (Got (Shared Thread))) : Prop where
  untouched : serial.sections = [] → serial.store = Store.empty
  initialized : ∀ entry ∈ serial.sections.head?,
    Initialized serpent serial.store entry.1 (issued serial.sections).length
  numbers : issued serial.sections = List.range' 1 (issued serial.sections).length
  ended : ∀ entry ∈ serial.sections, entry.2 ≠ none
  scripts : ∀ thread, At serpent serial.sections thread (serial.scripts thread)

theorem numbered_start (counters : Thread → ℕ) : Numbered serpent
    (.start Store.empty fun thread => countingTask serpent thread (counters thread)) where
  untouched _ := rfl
  initialized := by simp [Serial.start]
  numbers := rfl
  ended := by simp [Serial.start]
  scripts thread := .loading (counters thread)

/-! ## What every section keeps -/

variable {serial serial' : Serial Thread Store MapAccess (Got (Shared Thread))}

/-- The pipe of the task that was first is in the namespace. -/
def HasPipe (serpent : Serpent (Value (Shared Thread)))
    (sections : List (Thread × Option (Got (Shared Thread)))) (store : Store) : Prop :=
  ∀ first ∈ sections.head?,
    namespaceRetrieve store pipeKey.name = stored serpent (.data (.pipe first.1))

theorem Numbered.hasPipe (hnumbered : Numbered serpent serial) :
    HasPipe serpent serial.sections serial.store :=
  fun first hfirst => (hnumbered.initialized first hfirst).pipe

theorem HasPipe.newindex {sections : List (Thread × Option (Got (Shared Thread)))} {store : Store}
    (hpipe : HasPipe serpent sections store) {key : Key}
    (hkey : cString pipeKey.name ≠ cString key.name) (value : Value (Shared Thread)) :
    HasPipe serpent sections (newindex serpent store key.name value).2 := by
  intro first hfirst
  rw [retrieve_newindex, if_neg hkey]
  exact hpipe first hfirst

/-- Nobody takes the pipe out of the namespace or puts another one into it. -/
theorem Numbered.keepsPipe (hnumbered : Numbered serpent serial) (thread : Thread) :
    (serial.scripts thread).SectionKeeps (accessMap entries) (HasPipe serpent serial.sections)
      serial.store := by
  have hpipe := hnumbered.hasPipe
  have hat := hnumbered.scripts thread
  generalize serial.scripts thread = script at hat
  cases hat with
  | loading counters =>
      cases hsections : serial.sections with
      | nil => exact Script.keeps_of_forall (fun _ _ hfirst => by cases hfirst) _ _
      | cons first rest =>
          rw [← hsections]
          refine keeps_readKey hpipe ?_
          rw [(hnumbered.initialized first (by simp [hsections])).initialized]
          exact hpipe
  | reading hfirst counters => exact ⟨hpipe, hpipe⟩
  | copying hfirst counters => trivial
  | counting hfirst count =>
      cases count with
      | zero => trivial
      | succ count =>
          refine keeps_readKey hpipe ?_
          rw [(hnumbered.initialized _ hfirst).counterId]
          exact keeps_assignKey hpipe (hpipe.newindex (by decide) _)

theorem Numbered.reads (hnumbered : Numbered serpent serial) {thread : Thread}
    {access : MapAccess} {next : Got (Shared Thread) → NsScript (Shared Thread)}
    (hscript : serial.scripts thread = .act access next) {store : Store}
    (hpipe : HasPipe serpent serial.sections store) :
    (accessMap entries store access : Store × Got (Shared Thread)) =
      (store, (accessMap entries serial.store access).2) := by
  have hat := hnumbered.scripts thread
  rw [hscript] at hat
  generalize hact : Script.act access next = script at hat
  cases hat with
  | loading counters => cases hact
  | reading hfirst counters => cases hact
  | copying hfirst counters =>
      cases hact
      rw [accessMap_pipe (hpipe _ hfirst), accessMap_pipe (hnumbered.hasPipe _ hfirst)]
  | counting hfirst count => cases count <;> cases hact

/-! ## The steps -/

variable [DecidableEq Thread]

theorem Numbered.append (hnumbered : Numbered serpent serial) (thread : Thread)
    (got : Got (Shared Thread)) {store : Store} {script : NsScript (Shared Thread)}
    (hstore : ∀ entry ∈ (serial.sections ++ [(thread, some got)]).head?,
      Initialized serpent store entry.1 (issued (serial.sections ++ [(thread, some got)])).length)
    (hissued : issued (serial.sections ++ [(thread, some got)]) =
      List.range' 1 (issued (serial.sections ++ [(thread, some got)])).length)
    (hself : At serpent (serial.sections ++ [(thread, some got)]) thread script) :
    Numbered serpent
      { store := store
        scripts := Function.update serial.scripts thread script
        sections := serial.sections ++ [(thread, some got)] } where
  untouched := by simp
  initialized := hstore
  numbers := hissued
  ended := by
    intro entry hmem
    rcases List.mem_append.mp hmem with hbefore | hlast
    · exact hnumbered.ended entry hbefore
    · rw [List.mem_singleton.mp hlast]
      exact Option.some_ne_none got
  scripts := by
    intro other
    dsimp only
    by_cases hother : other = thread
    · subst other
      rwa [Function.update_self]
    · rw [Function.update_of_ne hother]
      exact (hnumbered.scripts other).append _

/-- A section that gives out no id and leaves the store as it is. -/
theorem Numbered.append_read (hnumbered : Numbered serpent serial) (thread : Thread)
    {got : Got (Shared Thread)} {script : NsScript (Shared Thread)}
    {first : Thread × Option (Got (Shared Thread))} (hfirst : first ∈ serial.sections.head?)
    (hissued : issued (serial.sections ++ [(thread, some got)]) = issued serial.sections)
    (hself : At serpent (serial.sections ++ [(thread, some got)]) thread script) :
    Numbered serpent
      { store := serial.store
        scripts := Function.update serial.scripts thread script
        sections := serial.sections ++ [(thread, some got)] } := by
  refine hnumbered.append thread got ?_ ?_ hself
  · rw [hissued]
    intro entry hentry
    obtain rfl : first = entry :=
      Option.some.inj ((List.mem_head?_append_of_mem_head? hfirst).symm.trans hentry)
    exact hnumbered.initialized first hfirst
  · rw [hissued]
    exact hnumbered.numbers

theorem Numbered.load (hnumbered : Numbered serpent serial) {thread : Thread} {counters : ℕ}
    (hscript : serial.scripts thread = countingTask serpent thread counters)
    (hnext : serial.next (accessMap entries) thread = some serial') :
    Numbered serpent serial' := by
  have hkept : issued (serial.sections ++ [(thread, some .nothing)]) =
      issued serial.sections := by
    simp [issued]
  cases hsections : serial.sections with
  | nil =>
      have hheld : held serpent serial.store initializedKey = .nil := by
        rw [hnumbered.untouched hsections]
        rfl
      obtain ⟨store, hrun, hstore⟩ := run_setupShare_first thread hheld
      rw [Serial.next_of_section hscript (firstSection_lockCall _ hrun)] at hnext
      cases hnext
      refine hnumbered.append thread .nothing ?_ ?_ ?_
      · rw [hkept, hsections]
        simpa [issued] using hstore
      · rw [hkept]
        exact hnumbered.numbers
      · rw [hsections]
        have hfirst : (thread, some .nothing) ∈ ([(thread, some .nothing)] :
            List (Thread × Option (Got (Shared Thread)))).head? := rfl
        exact .reading hfirst counters
  | cons first rest =>
      have hfirst : first ∈ serial.sections.head? := by simp [hsections]
      have hrun : (setupShare serpent thread).run (accessMap entries) serial.store =
          (serial.store, some .nothing) :=
        (hnumbered.initialized first hfirst).run_setupShare thread
      rw [Serial.next_of_section hscript (firstSection_lockCall _ hrun)] at hnext
      cases hnext
      exact hnumbered.append_read thread hfirst hkept
        (.reading (List.mem_head?_append_of_mem_head? hfirst) counters)

theorem Numbered.count (hnumbered : Numbered serpent serial) {thread : Thread}
    {first : Thread × Option (Got (Shared Thread))} (hfirst : first ∈ serial.sections.head?)
    {count : ℕ}
    (hscript : serial.scripts thread = newCounters serpent (.data (.pipe first.1)) (count + 1))
    (hnext : serial.next (accessMap entries) thread = some serial') :
    Numbered serpent serial' := by
  obtain ⟨store, hrun, hstore⟩ := (hnumbered.initialized first hfirst).run_nextId
  rw [Serial.next_of_section hscript (firstSection_lockCall _ hrun)] at hnext
  cases hnext
  have hgrown : ∀ id,
      issued (serial.sections ++ [(thread, some (.value (.data (.number id))))]) =
        issued serial.sections ++ [id] := by
    intro id
    simp [issued]
  refine hnumbered.append thread _ ?_ ?_
    (.counting (List.mem_head?_append_of_mem_head? hfirst) count)
  · intro entry hentry
    obtain rfl : first = entry :=
      Option.some.inj ((List.mem_head?_append_of_mem_head? hfirst).symm.trans hentry)
    rw [hgrown, List.length_append]
    exact hstore
  · rw [hgrown, List.length_append, List.length_singleton, List.range'_concat,
      ← hnumbered.numbers]
    simp [Nat.add_comm]

theorem Numbered.copy (hnumbered : Numbered serpent serial) {thread : Thread}
    {first : Thread × Option (Got (Shared Thread))} (hfirst : first ∈ serial.sections.head?)
    {counters : ℕ}
    (hscript : serial.scripts thread = loadRetrieved serpent pipeKey fun serverPipe =>
      newCounters serpent serverPipe counters)
    (hnext : serial.next (accessMap entries) thread = some serial') :
    Numbered serpent serial' := by
  rw [Serial.next_of_act hscript, accessMap_pipe (hnumbered.initialized first hfirst).pipe] at hnext
  cases hnext
  refine ⟨hnumbered.untouched, hnumbered.initialized, hnumbered.numbers, hnumbered.ended, ?_⟩
  intro other
  dsimp only
  by_cases hother : other = thread
  · subst other
    rw [Function.update_self, serpent.load_dump]
    exact .counting hfirst counters
  · rw [Function.update_of_ne hother]
    exact hnumbered.scripts other

theorem Numbered.step (hnumbered : Numbered serpent serial) {thread : Thread}
    (hnext : serial.next (accessMap entries) thread = some serial') :
    Numbered serpent serial' := by
  have hat := hnumbered.scripts thread
  generalize hscript : serial.scripts thread = script at hat
  cases hat with
  | loading counters => exact hnumbered.load hscript hnext
  | reading hfirst counters =>
      have hpipe := (hnumbered.initialized _ hfirst).pipe
      rw [Serial.next_of_section hscript (firstSection_readKey _ hpipe)] at hnext
      cases hnext
      exact hnumbered.append_read thread hfirst (by simp [issued])
        (.copying (List.mem_head?_append_of_mem_head? hfirst) counters)
  | copying hfirst counters => exact hnumbered.copy hfirst hscript hnext
  | counting hfirst count =>
      cases count with
      | zero =>
          rw [Serial.next, hscript] at hnext
          cases hnext
      | succ count => exact hnumbered.count hfirst hscript hnext

theorem numbered_readsOutside : ReadsOutside (accessMap entries) (HasPipe serpent)
    (Numbered serpent) where
  next hnumbered hnext := hnumbered.step hnext
  between hnumbered := hnumbered.hasPipe
  sections hnumbered := hnumbered.keepsPipe
  reads hnumbered hscript hpipe := hnumbered.reads hscript hpipe

end Sections

/-! ## Every interleaving -/

variable [DecidableEq Thread]

/-- However the tasks interleave, the ids that they get are 1, 2, 3 and so on in the order in
which they leave the lock, no call under the lock fails, and whoever holds the lock can go on.
There is one pipe for all, that of the task that was first: it is in the namespace at every
moment from then on, also while somebody is inside the lock, and no task fails or ends with
another one. -/
theorem counter_ids (serpent : Serpent (Value (Shared Thread)))
    (entries : Store → List (LuaString × LuaString)) (counters : Thread → ℕ)
    {schedule : List Thread} {state : Threads Thread Store MapAccess (Got (Shared Thread))}
    (hrun : runSchedule (Threads.next (accessMap entries))
      (.start Store.empty fun thread => countingTask serpent thread (counters thread))
      schedule = some state) :
    issued state.sections = List.range' 1 (issued state.sections).length ∧
      (∀ entry ∈ state.sections, entry.2 ≠ none) ∧
      (∀ thread depth, state.lock = some (thread, depth) →
        (state.next (accessMap entries) thread).isSome) ∧
      (∀ first ∈ state.sections.head?,
        held serpent state.store pipeKey = .data (.pipe first.1)) ∧
      ∀ thread, state.strands thread ≠ ⟨.fail, []⟩ ∧
        ∀ got, state.strands thread = ⟨.done got, []⟩ →
          ∃ first ∈ state.sections.head?, got = .value (.data (.pipe first.1)) := by
  have houtside : ReadsOutside (accessMap entries) (HasPipe serpent) (Numbered serpent) :=
    numbered_readsOutside
  obtain ⟨order, serial, -, hnumbered, hserial⟩ :=
    (Serialises.start Store.empty _).exists_order houtside (numbered_start counters) hrun
  rw [hserial.sections]
  refine ⟨hnumbered.numbers, hnumbered.ended, fun _ _ => hserial.next_of_inside, ?_, ?_⟩
  · intro first hfirst
    exact held_of_retrieve (hserial.visible_now hnumbered.hasPipe first hfirst)
  · intro thread
    have hat := hnumbered.scripts thread
    exact ⟨fun hfail => hat.ne_fail (hserial.script_eq hfail),
      fun got hdone => hat.eq_pipe (hserial.script_eq hdone)⟩

/-! ## Two tasks -/

/-- The type of `pipe.pipe`. -/
def queueType : Serpent.CType :=
  ⟨Serpent.ascii "struct mpmc_ptr_queue *", by decide, by decide, by decide⟩

def pipeAddress (maker : Bool) : ℕ := if maker then 140234563583488 else 140234563587648

/-- A slow pipe, without its metatable. -/
def pipeRecord (maker : Bool) : Serpent.Plain :=
  .table ⟨[(Serpent.ascii "pipe", .pointer queueType (pipeAddress maker))], by simp, by simp⟩

/-- What `slowPipe:__serialize` and Serpent put around the dump of a slow pipe. -/
def pipeHead : LuaString :=
  Serpent.ascii "do local _=(function() require'pipe'; return setmetatable((function() "

def pipeTail : LuaString :=
  Serpent.ascii " end)(), require('pipe').slowPipe) end)();return _;end"

def sharedPlain : Value (Shared Bool) → Serpent.Literal
  | .nil => .nil
  | .boolean value => .boolean value
  | .data (.number number) => (Serpent.index number).literal
  | .data (.pipe _) => .nil

def sharedValue : Option Serpent.Loaded → Value (Shared Bool)
  | some (.literal (.boolean value)) => .boolean value
  | some (.literal (.number (.finite binary))) =>
      .data (.number (binary.mantissa * 2 ^ binary.exponent.toNat))
  | some (.table get) =>
      .data (.pipe (get (Serpent.ascii "pipe") = .literal (.pointer queueType (pipeAddress true))))
  | _ => .nil

def sharedDump : Value (Shared Bool) → LuaString
  | .data (.pipe maker) => pipeHead ++ ((pipeRecord maker).dump ++ pipeTail)
  | value => (Serpent.Plain.literal (sharedPlain value)).dump

def sharedLoad (text : LuaString) : Value (Shared Bool) :=
  match Serpent.skip pipeHead text with
  | some rest => sharedValue (Serpent.loadPlain (rest.rdrop pipeTail.length))
  | none => sharedValue (Serpent.loadPlain text)

theorem dump_literal (literal : Serpent.Literal) : (Serpent.Plain.literal literal).dump =
    Serpent.ascii "do local _=" ++ (Serpent.safestr literal ++ Serpent.ascii ";return _;end") := by
  have htag : Serpent.tagText Serpent.underscore false = Serpent.ascii "_=" := by decide
  have hhead : Serpent.ascii "do local _=" = Serpent.ascii "do local " ++ Serpent.ascii "_=" := by
    decide
  have htail : Serpent.ascii ";return _;end" = 59 :: Serpent.ascii "return _;end" := by decide
  simp [Serpent.Plain.dump, Serpent.Plain.val, Serpent.dump, Serpent.val2str, htag, hhead, htail]

theorem skip_pipeHead_literal {literal : Serpent.Literal} {byte : UInt8} {tail : LuaString}
    (htext : Serpent.safestr literal = byte :: tail) (hbyte : byte ≠ 40) :
    Serpent.skip pipeHead (Serpent.Plain.literal literal).dump = none := by
  obtain ⟨rest, hrest⟩ : ∃ rest, pipeHead = Serpent.ascii "do local _=" ++ 40 :: rest := ⟨_, rfl⟩
  rw [Serpent.skip, if_neg]
  rw [List.isPrefixOf_iff_prefix, dump_literal, htext, hrest, List.prefix_append_right_inj]
  simp [hbyte.symm]

theorem sharedLoad_sharedDump (value : Value (Shared Bool)) :
    sharedLoad (sharedDump value) = value := by
  have hliteral : ∀ {literal : Serpent.Literal} {byte : UInt8} {tail : LuaString},
      Serpent.safestr literal = byte :: tail → byte ≠ 40 →
        sharedLoad (Serpent.Plain.literal literal).dump =
          sharedValue (some (.literal literal)) := by
    intro literal byte tail htext hbyte
    rw [sharedLoad, skip_pipeHead_literal htext hbyte, Serpent.loadPlain_dump]
    rfl
  rcases value with _ | ⟨_ | _⟩ | ⟨number | maker⟩
  · exact hliteral rfl (by decide)
  · exact hliteral rfl (by decide)
  · exact hliteral rfl (by decide)
  · obtain ⟨tail, htail⟩ := Serpent.hexFloat_eq (HexFloat.Binary.of false number 0).mantissa
      (HexFloat.Binary.of false number 0).exponent
    have htext : Serpent.safestr (Serpent.index number).literal = 48 :: 120 :: tail := by
      rw [Serpent.index, Serpent.safestr, Serpent.numberText, HexFloat.Binary.negative_of, htail]
      rfl
    have hdump : sharedDump (.data (.number number)) =
        (Serpent.Plain.literal (Serpent.index number).literal).dump := rfl
    rw [hdump, hliteral htext (by decide), Serpent.index, sharedValue, HexFloat.Binary.value_of]
  · rw [sharedDump, sharedLoad, Serpent.skip_append]
    dsimp only
    rw [List.rdrop_append_length, Serpent.loadPlain_dump]
    cases maker <;> rfl

theorem sharedDump_no_nul (value : Value (Shared Bool)) : 0 ∉ sharedDump value := by
  rcases value with _ | _ | ⟨_ | maker⟩
  · exact Serpent.Plain.no_nul _
  · exact Serpent.Plain.no_nul _
  · exact Serpent.Plain.no_nul _
  · have hhead : 0 ∉ pipeHead := by decide
    have htail : 0 ∉ pipeTail := by decide
    rw [sharedDump, List.mem_append, List.mem_append]
    simp [hhead, htail, Serpent.Plain.no_nul]

/-- Serpent on what is kept in the namespace. -/
def sharedSerpent : Serpent (Value (Shared Bool)) :=
  ⟨sharedDump, sharedLoad, sharedLoad_sharedDump, sharedDump_no_nul⟩

/-- The first task loads the module, the second one too, and each makes a counter. -/
def turns : List Bool :=
  List.replicate 17 true ++ List.replicate 3 false ++ [true] ++ List.replicate 16 false ++
    List.replicate 9 true

theorem counter_ids_two_tasks : ∃ state,
    runSchedule (Threads.next (accessMap fun _ => []))
      (.start Store.empty fun thread => countingTask sharedSerpent thread 1) turns = some state ∧
      issued state.sections = List.range' 1 (issued state.sections).length := by
  have hsome : (runSchedule (Threads.next (accessMap fun _ => []))
      (.start Store.empty fun thread => countingTask sharedSerpent thread 1) turns).isSome := by
    decide +kernel
  obtain ⟨state, hrun⟩ := Option.isSome_iff_exists.mp hsome
  exact ⟨state, hrun, (counter_ids sharedSerpent _ (fun _ => 1) hrun).1⟩

end Libmoon.Stats
