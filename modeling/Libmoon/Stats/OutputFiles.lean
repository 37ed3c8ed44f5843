import Libmoon.Foundation.Machine
import Mathlib.Data.List.Count
import Mathlib.Logic.Function.Basic

/-! # Output files of statistics counters

Counters that write to the same file name share a handle, which `openFiles` keeps with the
number of its users. The last one to be finalized closes the handle but leaves the entry in
the table, so that a later counter gets a handle that is closed. Creations and
finalizations come in any order; the measured values are left out.
-/

namespace Libmoon.Stats

open Foundation

/-! ## Counters and files -/

/-- The entries of `formatters`, as far as they write to the file. -/
inductive Formatter where
  | plain
  | csv
  | nothing
deriving DecidableEq

/-- `formatters`. -/
def formatters : String → Option Formatter
  | "plain" => some .plain
  | "CSV" | "csv" => some .csv
  | "nil" => some .nothing
  | _ => none

/-- `self:print("Final")` writes. -/
def Formatter.writes : Formatter → Bool
  | .plain | .csv => true
  | .nothing => false

/-- Where a counter writes to: `io.stdout` or a file object of the caller, a handle that
`newCounter` has opened, or nil if `io.open` has failed. -/
inductive Output where
  | caller
  | handle (handle : Nat)
  | missing
deriving DecidableEq

structure Counter where
  id : Nat
  file : Output
  closeFile : Option String
  formatter : Formatter
deriving DecidableEq

/-- An entry of `openFiles`. -/
structure FileEntry where
  refCount : Nat
  file : Output
deriving DecidableEq

/-- The table of files, the handles that have been opened so far, which of them are open,
and the counters that are not finalized. -/
structure State where
  openFiles : String → Option FileEntry
  opened : Nat
  isOpen : Nat → Bool
  counterId : Nat
  counters : List Counter

def State.initial : State := ⟨fun _ => none, 0, fun _ => false, 0, []⟩

/-- What a call comes to. -/
inductive Answer where
  | created (counter : Counter)
  /-- "Unsupported output format" -/
  | unsupportedFormat
  | finalized
  /-- a closed or missing file has been used -/
  | failed
  | noSuchCounter
deriving DecidableEq

/-- The branch of `newCounter` for a file name; `opens` is whether `io.open` succeeds. -/
def openFile (state : State) (fileName : String) (opens : Bool) : Output × State :=
  match state.openFiles fileName with
  | some entry =>
      (entry.file, { state with
        openFiles := Function.update state.openFiles fileName
          (some { entry with refCount := entry.refCount + 1 }) })
  | none =>
      if opens then
        (.handle state.opened, { state with
          openFiles := Function.update state.openFiles fileName
            (some ⟨1, .handle state.opened⟩)
          opened := state.opened + 1
          isOpen := Function.update state.isOpen state.opened true })
      else
        (.missing, { state with
          openFiles := Function.update state.openFiles fileName (some ⟨1, .missing⟩) })

/-- The file of a new counter. -/
def chooseFile (state : State) (opens : Bool) : Option String → Output × State
  | none => (.caller, state)
  | some fileName => openFile state fileName opens

/-- `newCounter`; the format is looked up when the file has been opened. -/
def newCounter (state : State) (format file : Option String) (opens : Bool) : Answer × State :=
  let id := state.counterId + 1
  let (output, state) := chooseFile { state with counterId := id } opens file
  match formatters (format.getD "plain") with
  | none => (.unsupportedFormat, state)
  | some formatter =>
      let counter : Counter := ⟨id, output, file, formatter⟩
      (.created counter, { state with counters := state.counters ++ [counter] })

/-- A file that can be written to. -/
def State.usable (state : State) : Output → Bool
  | .caller => true
  | .handle handle => state.isOpen handle
  | .missing => false

/-- `file:close()`. -/
def closeFile (state : State) : Output → Option State
  | .handle handle =>
      if state.isOpen handle then
        some { state with isOpen := Function.update state.isOpen handle false }
      else none
  | _ => none

/-- The end of `finalizeCounter`, where a counter gives its file back. -/
def releaseFile (state : State) (fileName : String) : Option State :=
  match state.openFiles fileName with
  | none => none
  | some entry =>
      if entry.refCount = 1 then closeFile state entry.file
      else some { state with
        openFiles := Function.update state.openFiles fileName
          (some { entry with refCount := entry.refCount - 1 }) }

/-- `finalizeCounter`; an error leaves the counter as it is. -/
def finalizeCounter (state : State) (counter : Counter) : Answer × State :=
  if counter.formatter.writes && !state.usable counter.file then (.failed, state)
  else
    match counter.closeFile with
    | none => (.finalized, { state with counters := state.counters.erase counter })
    | some fileName =>
        match releaseFile state fileName with
        | none => (.failed, state)
        | some state => (.finalized, { state with counters := state.counters.erase counter })

inductive Call where
  | newCounter (format file : Option String) (opens : Bool)
  | finalize (id : Nat)
deriving DecidableEq

/-- Counters are created and finalized in any order, each of them finalized once. -/
def machine : Machine State Call Answer where
  step state
    | .newCounter format file opens => newCounter state format file opens
    | .finalize id =>
        match state.counters.find? fun counter => counter.id == id with
        | none => (.noSuchCounter, state)
        | some counter => finalizeCounter state counter

/-- Every counter with a file name holds an open handle, and the handles that have been
opened are open just as long as there is such a counter. -/
structure FilesFollowCounters (state : State) : Prop where
  holds : ∀ counter ∈ state.counters, counter.closeFile ≠ none →
    ∃ handle, counter.file = .handle handle ∧ state.isOpen handle = true
  closed : ∀ handle < state.opened,
    state.isOpen handle = true ↔ ∃ counter ∈ state.counters, counter.file = .handle handle

/-- A file name is new and can be opened, or it has a counter that is not finalized; and the
format exists. -/
def Sound (state : State) : Call → Prop
  | .newCounter format (some fileName) opens =>
      formatters (format.getD "plain") ≠ none ∧
        (state.openFiles fileName = none ∧ opens = true ∨
          ∃ counter ∈ state.counters, counter.closeFile = some fileName)
  | _ => True

instance (state : State) : (call : Call) → Decidable (Sound state call)
  | .newCounter _ (some _) _ => inferInstanceAs (Decidable (_ ∧ _))
  | .newCounter _ none _ | .finalize _ => isTrue trivial

/-! ## Counting -/

/-- The number of counters with a file name. -/
def users (counters : List Counter) (fileName : String) : Nat :=
  counters.countP fun counter => counter.closeFile = some fileName

theorem users_pos_iff {counters : List Counter} {fileName : String} :
    0 < users counters fileName ↔ ∃ counter ∈ counters, counter.closeFile = some fileName := by
  simp [users, List.countP_pos_iff]

theorem users_append_of_eq {counter : Counter} {fileName : String}
    (hname : counter.closeFile = some fileName) (counters : List Counter) :
    users (counters ++ [counter]) fileName = users counters fileName + 1 := by
  simp [users, List.countP_append, hname]

theorem users_append_of_ne {counter : Counter} {fileName : String}
    (hname : counter.closeFile ≠ some fileName) (counters : List Counter) :
    users (counters ++ [counter]) fileName = users counters fileName := by
  simp [users, List.countP_append, hname]

theorem users_erase_of_eq {counters : List Counter} {counter : Counter}
    (hmem : counter ∈ counters) {fileName : String} (hname : counter.closeFile = some fileName) :
    users (counters.erase counter) fileName = users counters fileName - 1 := by
  simp [users, List.countP_erase, hmem, hname]

theorem users_erase_of_ne {counter : Counter} {fileName : String}
    (hname : counter.closeFile ≠ some fileName) (counters : List Counter) :
    users (counters.erase counter) fileName = users counters fileName := by
  simp [users, List.countP_erase, hname]

/-- The entry of a file name is right about its handle: it counts the counters while that
is open, and there are none when it is closed. -/
structure Agrees (state : State) (fileName : String) (entry : FileEntry) (handle : Nat) :
    Prop where
  file : entry.file = .handle handle
  opened : handle < state.opened
  whenOpen : state.isOpen handle = true →
    entry.refCount = users state.counters fileName ∧ 0 < users state.counters fileName
  whenClosed : state.isOpen handle = false → users state.counters fileName = 0

/-- An entry stays right while nothing happens to its handle and its counters. -/
theorem Agrees.congr {state state' : State} {fileName : String} {entry : FileEntry} {handle : Nat}
    (hagrees : Agrees state fileName entry handle) (hopened : state.opened ≤ state'.opened)
    (hisOpen : state'.isOpen handle = state.isOpen handle)
    (husers : users state'.counters fileName = users state.counters fileName) :
    Agrees state' fileName entry handle := by
  refine ⟨hagrees.file, Nat.lt_of_lt_of_le hagrees.opened hopened, ?_, ?_⟩
  · rw [hisOpen, husers]
    exact hagrees.whenOpen
  · rw [hisOpen, husers]
    exact hagrees.whenClosed

/-- An entry of a table after an assignment is the one assigned or was there before. -/
theorem update_eq_some {table : String → Option FileEntry} {fileName other : String}
    {new entry : FileEntry}
    (hentry : Function.update table fileName (some new) other = some entry) :
    other = fileName ∧ entry = new ∨ other ≠ fileName ∧ table other = some entry := by
  by_cases hother : other = fileName
  · subst hother
    rw [Function.update_self] at hentry
    exact .inl ⟨rfl, (Option.some.inj hentry).symm⟩
  · rw [Function.update_of_ne hother] at hentry
    exact .inr ⟨hother, hentry⟩

section Recounting

variable {table : String → Option FileEntry} {fileName other : String} {entry : FileEntry}

/-- An entry that gets another count keeps its file: every entry afterwards was there with
the same file, -/
theorem exists_before (hentry : table fileName = some entry) {count : Nat} {now : FileEntry}
    (hnow : Function.update table fileName (some { entry with refCount := count }) other =
      some now) : ∃ was, table other = some was ∧ was.file = now.file := by
  rcases update_eq_some hnow with ⟨rfl, rfl⟩ | ⟨-, hnow⟩
  · exact ⟨entry, hentry, rfl⟩
  · exact ⟨now, hnow, rfl⟩

/-- and every entry from before still is. -/
theorem exists_after (hentry : table fileName = some entry) (count : Nat) {was : FileEntry}
    (hwas : table other = some was) :
    ∃ now, Function.update table fileName (some { entry with refCount := count }) other =
      some now ∧ now.file = was.file := by
  by_cases hother : other = fileName
  · subst hother
    obtain rfl : entry = was := Option.some.inj (hentry.symm.trans hwas)
    exact ⟨_, Function.update_self _ _ _, rfl⟩
  · exact ⟨was, (Function.update_of_ne hother _ _).trans hwas, rfl⟩

end Recounting

/-- The invariant of sound runs. -/
structure Counted (state : State) : Prop where
  agrees : ∀ {fileName entry}, state.openFiles fileName = some entry →
    ∃ handle, Agrees state fileName entry handle
  shared : ∀ {counter}, counter ∈ state.counters → ∀ {fileName},
    counter.closeFile = some fileName →
      ∃ entry, state.openFiles fileName = some entry ∧ counter.file = entry.file
  unshared : ∀ {counter}, counter ∈ state.counters → counter.closeFile = none →
    counter.file = .caller
  distinct : ∀ {first second entry entry'}, state.openFiles first = some entry →
    state.openFiles second = some entry' → entry.file = entry'.file → first = second
  owned : ∀ {handle}, handle < state.opened →
    ∃ fileName entry, state.openFiles fileName = some entry ∧ entry.file = .handle handle

theorem counted_initial : Counted .initial :=
  ⟨nofun, nofun, nofun, nofun, nofun⟩

namespace Counted

variable {state : State}

/-- A file name that has counters has an open handle, and its entry counts them. -/
theorem open_of_users (hcounted : Counted state) {fileName : String}
    (husers : 0 < users state.counters fileName) : ∃ entry handle,
      state.openFiles fileName = some entry ∧ Agrees state fileName entry handle ∧
        state.isOpen handle = true := by
  obtain ⟨counter, hmem, hname⟩ := users_pos_iff.mp husers
  obtain ⟨entry, hentry, -⟩ := hcounted.shared hmem hname
  obtain ⟨handle, hagrees⟩ := hcounted.agrees hentry
  refine ⟨entry, handle, hentry, hagrees, ?_⟩
  by_contra hclosed
  rw [hagrees.whenClosed (Bool.eq_false_iff.mpr hclosed)] at husers
  exact Nat.lt_irrefl 0 husers

/-- A file name that has no entry has no counters. -/
theorem users_of_new (hcounted : Counted state) {fileName : String}
    (hnew : state.openFiles fileName = none) : users state.counters fileName = 0 := by
  apply Nat.eq_zero_of_not_pos
  intro husers
  obtain ⟨entry, _, hentry, -⟩ := hcounted.open_of_users husers
  cases hnew.symm.trans hentry

/-- The handle that is opened next is in no entry. -/
theorem file_ne_opened (hcounted : Counted state) {fileName : String} {entry : FileEntry}
    (hentry : state.openFiles fileName = some entry) : entry.file ≠ .handle state.opened := by
  intro hsame
  obtain ⟨handle, hagrees⟩ := hcounted.agrees hentry
  obtain rfl : handle = state.opened := Output.handle.inj (hagrees.file.symm.trans hsame)
  exact Nat.lt_irrefl _ hagrees.opened

/-- A counter with a file name holds the handle of its entry, which is open. -/
theorem open_of_mem (hcounted : Counted state) {counter : Counter}
    (hmem : counter ∈ state.counters) {fileName : String}
    (hname : counter.closeFile = some fileName) :
    ∃ handle, counter.file = .handle handle ∧ state.isOpen handle = true := by
  obtain ⟨entry, handle, hentry, hagrees, hopen⟩ :=
    hcounted.open_of_users (users_pos_iff.mpr ⟨counter, hmem, hname⟩)
  obtain ⟨entry', hentry', hshared⟩ := hcounted.shared hmem hname
  obtain rfl : entry = entry' := Option.some.inj (hentry.symm.trans hentry')
  exact ⟨handle, hshared.trans hagrees.file, hopen⟩

theorem filesFollowCounters (hcounted : Counted state) : FilesFollowCounters state := by
  refine ⟨?_, ?_⟩
  · intro counter hmem hname
    obtain ⟨fileName, hname⟩ := Option.ne_none_iff_exists'.mp hname
    exact hcounted.open_of_mem hmem hname
  · intro handle hlt
    constructor
    · intro hopen
      obtain ⟨fileName, entry, hentry, hfile⟩ := hcounted.owned hlt
      obtain ⟨handle', hagrees⟩ := hcounted.agrees hentry
      obtain rfl : handle = handle' := Output.handle.inj (hfile.symm.trans hagrees.file)
      obtain ⟨counter, hmem, hname⟩ := users_pos_iff.mp (hagrees.whenOpen hopen).2
      obtain ⟨entry', hentry', hshared⟩ := hcounted.shared hmem hname
      obtain rfl : entry = entry' := Option.some.inj (hentry.symm.trans hentry')
      exact ⟨counter, hmem, hshared.trans hfile⟩
    · rintro ⟨counter, hmem, hfile⟩
      cases hname : counter.closeFile with
      | none => cases (hcounted.unshared hmem hname).symm.trans hfile
      | some fileName =>
          obtain ⟨handle', hfile', hopen⟩ := hcounted.open_of_mem hmem hname
          obtain rfl : handle = handle' := Output.handle.inj (hfile.symm.trans hfile')
          exact hopen

/-- A counter without a file name comes or goes. -/
theorem withCaller (hcounted : Counted state) {counters : List Counter}
    (husers : ∀ fileName, users counters fileName = users state.counters fileName)
    (hmem : ∀ counter ∈ counters, counter ∈ state.counters ∨
      counter.closeFile = none ∧ counter.file = .caller) (id : Nat) :
    Counted { state with counterId := id, counters := counters } := by
  refine ⟨?_, ?_, ?_, hcounted.distinct, hcounted.owned⟩
  · intro fileName entry hentry
    obtain ⟨handle, hagrees⟩ := hcounted.agrees hentry
    exact ⟨handle, hagrees.congr (Nat.le_refl _) rfl (husers fileName)⟩
  · intro counter hcounter fileName hname
    rcases hmem counter hcounter with hold | ⟨hnone, -⟩
    · exact hcounted.shared hold hname
    · cases hnone.symm.trans hname
  · intro counter hcounter hname
    rcases hmem counter hcounter with hold | ⟨-, hfile⟩
    · exact hcounted.unshared hold hname
    · exact hfile

/-- The first counter of a file name. -/
theorem withFirst (hcounted : Counted state) {fileName : String}
    (hnew : state.openFiles fileName = none) {counter : Counter}
    (hname : counter.closeFile = some fileName) (hfile : counter.file = .handle state.opened)
    (id : Nat) : Counted {
      openFiles := Function.update state.openFiles fileName (some ⟨1, .handle state.opened⟩)
      opened := state.opened + 1
      isOpen := Function.update state.isOpen state.opened true
      counterId := id
      counters := state.counters ++ [counter] } := by
  have hne {other : String} {entry : FileEntry} (hentry : state.openFiles other = some entry) :
      other ≠ fileName := by
    rintro rfl
    cases hnew.symm.trans hentry
  have hkept {other : String} {entry : FileEntry} (hentry : state.openFiles other = some entry) :
      Function.update state.openFiles fileName (some ⟨1, .handle state.opened⟩) other =
        some entry := by
    rw [Function.update_of_ne (hne hentry), hentry]
  -- entries, counters with a file, counters without one, pairs of entries, handles
  refine ⟨?_, ?_, ?_, ?_, ?_⟩
  · intro other entry hentry
    rcases update_eq_some hentry with ⟨rfl, rfl⟩ | ⟨hother, hentry⟩
    · refine ⟨state.opened, rfl, Nat.lt_succ_self _, ?_, ?_⟩
      · intro _
        rw [users_append_of_eq hname, hcounted.users_of_new hnew]
        exact ⟨rfl, Nat.one_pos⟩
      · intro hclosed
        cases (Function.update_self state.opened true state.isOpen).symm.trans hclosed
    · obtain ⟨handle, hagrees⟩ := hcounted.agrees hentry
      have husers : users (state.counters ++ [counter]) other = users state.counters other :=
        users_append_of_ne (fun heq => hother (Option.some.inj (heq.symm.trans hname))) _
      exact ⟨handle, hagrees.congr (Nat.le_succ _)
        (Function.update_of_ne (Nat.ne_of_lt hagrees.opened) _ _) husers⟩
  · intro other hmem name hother
    rcases List.mem_append.mp hmem with hmem | hmem
    · obtain ⟨entry, hentry, hshared⟩ := hcounted.shared hmem hother
      exact ⟨entry, hkept hentry, hshared⟩
    · obtain rfl := List.mem_singleton.mp hmem
      obtain rfl := Option.some.inj (hother.symm.trans hname)
      exact ⟨_, Function.update_self _ _ _, hfile⟩
  · intro other hmem hother
    rcases List.mem_append.mp hmem with hmem | hmem
    · exact hcounted.unshared hmem hother
    · obtain rfl := List.mem_singleton.mp hmem
      cases hother.symm.trans hname
  · intro first second entry entry' hfirst hsecond hsame
    rcases update_eq_some hfirst with ⟨rfl, rfl⟩ | ⟨-, hold⟩
    · rcases update_eq_some hsecond with ⟨rfl, -⟩ | ⟨-, hold'⟩
      · rfl
      · exact absurd hsame.symm (hcounted.file_ne_opened hold')
    · rcases update_eq_some hsecond with ⟨rfl, rfl⟩ | ⟨-, hold'⟩
      · exact absurd hsame (hcounted.file_ne_opened hold)
      · exact hcounted.distinct hold hold' hsame
  · intro handle hlt
    rcases Nat.lt_succ_iff_lt_or_eq.mp hlt with hlt | rfl
    · obtain ⟨other, entry, hentry, hhandle⟩ := hcounted.owned hlt
      exact ⟨other, entry, hkept hentry, hhandle⟩
    · exact ⟨fileName, _, Function.update_self _ _ _, rfl⟩

/-- A counter joins or leaves others with the same file name. -/
theorem recount (hcounted : Counted state) {fileName : String} {entry : FileEntry}
    (hentry : state.openFiles fileName = some entry)
    (hbefore : 0 < users state.counters fileName) {counters : List Counter}
    (hafter : 0 < users counters fileName)
    (hothers : ∀ other ≠ fileName, users counters other = users state.counters other)
    (hmem : ∀ counter ∈ counters, counter ∈ state.counters ∨
      counter.closeFile = some fileName ∧ counter.file = entry.file) (id : Nat) :
    Counted { state with
      openFiles := Function.update state.openFiles fileName
        (some { entry with refCount := users counters fileName })
      counterId := id
      counters := counters } := by
  refine ⟨?_, ?_, ?_, ?_, ?_⟩
  · intro other now hnow
    rcases update_eq_some hnow with ⟨rfl, rfl⟩ | ⟨hother, hnow⟩
    · obtain ⟨entry', handle, hentry', hagrees, hopen⟩ := hcounted.open_of_users hbefore
      obtain rfl : entry = entry' := Option.some.inj (hentry.symm.trans hentry')
      exact ⟨handle, hagrees.file, hagrees.opened, fun _ => ⟨rfl, hafter⟩,
        fun hclosed => by cases hopen.symm.trans hclosed⟩
    · obtain ⟨handle, hagrees⟩ := hcounted.agrees hnow
      exact ⟨handle, hagrees.congr (Nat.le_refl _) rfl (hothers other hother)⟩
  · intro counter hcounter name hname
    rcases hmem counter hcounter with hcounter | ⟨hnew, hfile⟩
    · obtain ⟨was, hwas, hshared⟩ := hcounted.shared hcounter hname
      obtain ⟨now, hnow, hsame⟩ := exists_after hentry (users counters fileName) hwas
      exact ⟨now, hnow, hshared.trans hsame.symm⟩
    · obtain rfl := Option.some.inj (hname.symm.trans hnew)
      exact ⟨_, Function.update_self _ _ _, hfile⟩
  · intro counter hcounter hname
    rcases hmem counter hcounter with hcounter | ⟨hnew, -⟩
    · exact hcounted.unshared hcounter hname
    · cases hname.symm.trans hnew
  · intro first second now now' hfirst hsecond hsame
    obtain ⟨was, hwas, hfile⟩ := exists_before hentry hfirst
    obtain ⟨was', hwas', hfile'⟩ := exists_before hentry hsecond
    exact hcounted.distinct hwas hwas' (hfile.trans (hsame.trans hfile'.symm))
  · intro handle hlt
    obtain ⟨name, was, hwas, hhandle⟩ := hcounted.owned hlt
    obtain ⟨now, hnow, hsame⟩ := exists_after hentry (users counters fileName) hwas
    exact ⟨name, now, hnow, hsame.trans hhandle⟩

/-- The last counter of a file name closes its handle. -/
theorem closeLast (hcounted : Counted state) {fileName : String} {entry : FileEntry}
    {handle : Nat} (hentry : state.openFiles fileName = some entry)
    (hfile : entry.file = .handle handle) {counters : List Counter}
    (hafter : users counters fileName = 0)
    (hothers : ∀ other ≠ fileName, users counters other = users state.counters other)
    (hmem : ∀ counter ∈ counters, counter ∈ state.counters) :
    Counted { state with
      isOpen := Function.update state.isOpen handle false
      counters := counters } := by
  refine ⟨?_, fun hcounter => hcounted.shared (hmem _ hcounter),
    fun hcounter => hcounted.unshared (hmem _ hcounter), hcounted.distinct, hcounted.owned⟩
  intro other entry' hentry'
  obtain ⟨handle', hagrees⟩ := hcounted.agrees hentry'
  by_cases hother : other = fileName
  · subst hother
    refine ⟨handle', hagrees.file, hagrees.opened, ?_, fun _ => hafter⟩
    obtain rfl : entry = entry' := Option.some.inj (hentry.symm.trans hentry')
    obtain rfl : handle = handle' := Output.handle.inj (hfile.symm.trans hagrees.file)
    intro hopen
    cases (Function.update_self handle false state.isOpen).symm.trans hopen
  · have hne : handle' ≠ handle := by
      rintro rfl
      exact hother (hcounted.distinct hentry' hentry (hagrees.file.trans hfile.symm))
    exact ⟨handle', hagrees.congr (Nat.le_refl _) (Function.update_of_ne hne _ _)
      (hothers other hother)⟩

/-! ## Steps -/

theorem newCounter_sound (hcounted : Counted state) {format file : Option String} {opens : Bool}
    (hsound : Sound state (.newCounter format file opens)) :
    Counted (newCounter state format file opens).2 := by
  cases file with
  | none =>
      simp only [newCounter, chooseFile]
      split
      next => exact hcounted.withCaller (fun _ => rfl) (fun _ hmem => .inl hmem) _
      next formatter _ =>
        apply hcounted.withCaller
        · intro fileName
          exact users_append_of_ne (by simp) _
        · intro counter hmem
          rcases List.mem_append.mp hmem with hmem | hmem
          · exact .inl hmem
          · obtain rfl := List.mem_singleton.mp hmem
            exact .inr ⟨rfl, rfl⟩
  | some fileName =>
      obtain ⟨hformat, hname⟩ := hsound
      obtain ⟨formatter, hformatter⟩ := Option.ne_none_iff_exists'.mp hformat
      simp only [newCounter, chooseFile, hformatter]
      rcases hname with ⟨hnew, rfl⟩ | hlive
      · simp only [openFile, hnew, if_true]
        exact hcounted.withFirst hnew rfl rfl _
      · have hbefore := users_pos_iff.mpr hlive
        obtain ⟨entry, handle, hentry, hagrees, hopen⟩ := hcounted.open_of_users hbefore
        let counter : Counter :=
          ⟨state.counterId + 1, entry.file, some fileName, formatter⟩
        have hcount : entry.refCount + 1 = users (state.counters ++ [counter]) fileName := by
          rw [users_append_of_eq rfl, (hagrees.whenOpen hopen).1]
        simp only [openFile, hentry, hcount]
        apply hcounted.recount hentry hbefore
        · rw [← hcount]
          exact Nat.succ_pos _
        · intro other hother
          exact users_append_of_ne (fun heq => hother (Option.some.inj heq).symm) _
        · intro joined hmem
          rcases List.mem_append.mp hmem with hmem | hmem
          · exact .inl hmem
          · obtain rfl := List.mem_singleton.mp hmem
            exact .inr ⟨rfl, rfl⟩

theorem finalizeCounter_sound (hcounted : Counted state) {counter : Counter}
    (hmem : counter ∈ state.counters) :
    (finalizeCounter state counter).1 = .finalized ∧
      Counted (finalizeCounter state counter).2 := by
  cases hname : counter.closeFile with
  | none =>
      have husable : state.usable counter.file = true := by
        rw [hcounted.unshared hmem hname]
        rfl
      simp only [finalizeCounter, husable, hname, Bool.not_true, Bool.and_false]
      refine ⟨rfl, hcounted.withCaller ?_ ?_ _⟩
      · intro fileName
        exact users_erase_of_ne (by simp [hname]) _
      · intro other hother
        exact .inl (List.mem_of_mem_erase hother)
  | some fileName =>
      have hbefore : 0 < users state.counters fileName :=
        users_pos_iff.mpr ⟨counter, hmem, hname⟩
      obtain ⟨entry, handle, hentry, hagrees, hopen⟩ := hcounted.open_of_users hbefore
      have hcount := (hagrees.whenOpen hopen).1
      have husable : state.usable counter.file = true := by
        obtain ⟨other, hfile, hother⟩ := hcounted.open_of_mem hmem hname
        rw [hfile]
        exact hother
      have hafter := users_erase_of_eq hmem hname
      have hothers : ∀ other ≠ fileName,
          users (state.counters.erase counter) other = users state.counters other := by
        intro other hother
        exact users_erase_of_ne (fun heq => hother (Option.some.inj (heq.symm.trans hname))) _
      have hkept : ∀ other ∈ state.counters.erase counter, other ∈ state.counters :=
        fun other hother => List.mem_of_mem_erase hother
      -- the last counter of a file closes it
      by_cases hlast : entry.refCount = 1
      · simp only [finalizeCounter, husable, hname, Bool.not_true, Bool.and_false, releaseFile,
          hentry, if_pos hlast, hagrees.file, closeFile, hopen]
        refine ⟨rfl, hcounted.closeLast hentry hagrees.file ?_ hothers hkept⟩
        rw [hafter]
        omega
      · have hless : entry.refCount - 1 = users (state.counters.erase counter) fileName := by
          rw [hafter, hcount]
        simp only [finalizeCounter, husable, hname, Bool.not_true, Bool.and_false, releaseFile,
          hentry, if_neg hlast, hless]
        refine ⟨rfl, hcounted.recount hentry hbefore ?_ hothers ?_ _⟩
        · rw [hafter]
          omega
        · exact fun other hother => .inl (hkept other hother)

theorem step_sound (hcounted : Counted state) {call : Call} (hsound : Sound state call) :
    Counted (machine.step state call).2 := by
  cases call with
  | newCounter format file opens => exact hcounted.newCounter_sound hsound
  | finalize id =>
      simp only [machine]
      split
      next => exact hcounted
      next counter hfind =>
        exact (hcounted.finalizeCounter_sound (List.mem_of_find?_eq_some hfind)).2

/-- A creation that is not sound spoils it at once, unless it is the format that fails. -/
theorem newCounter_follows_iff (hcounted : Counted state) {format : Option String}
    (hformat : formatters (format.getD "plain") ≠ none) (file : Option String) (opens : Bool) :
    FilesFollowCounters (newCounter state format file opens).2 ↔
      Sound state (.newCounter format file opens) := by
  refine ⟨?_, fun hsound => (hcounted.newCounter_sound hsound).filesFollowCounters⟩
  intro hfollow
  cases file with
  | none => trivial
  | some fileName =>
      refine ⟨hformat, ?_⟩
      obtain ⟨formatter, hformatter⟩ := Option.ne_none_iff_exists'.mp hformat
      cases hentry : state.openFiles fileName with
      | none =>
          left
          refine ⟨rfl, ?_⟩
          by_contra hfails
          simp only [newCounter, chooseFile, openFile, hentry, if_neg hfails,
            hformatter] at hfollow
          obtain ⟨handle, hfile, -⟩ := hfollow.holds _ List.mem_concat_self nofun
          cases hfile
      | some entry =>
          right
          apply users_pos_iff.mp
          apply Nat.pos_of_ne_zero
          intro hnone
          obtain ⟨handle, hagrees⟩ := hcounted.agrees hentry
          simp only [newCounter, chooseFile, openFile, hentry, hformatter] at hfollow
          obtain ⟨handle', hfile, hopen⟩ := hfollow.holds _ List.mem_concat_self nofun
          obtain rfl : handle = handle' := Output.handle.inj (hagrees.file.symm.trans hfile)
          have husers := (hagrees.whenOpen hopen).2
          omega

end Counted

/-- In a run of sound calls every counter that is not finalized holds an open handle, and a
handle is closed with the last of its counters. -/
theorem filesFollowCounters_of_sound {calls first : List Call}
    (hsound : machine.Along Sound .initial calls) (hfirst : first <+: calls) :
    FilesFollowCounters (machine.after .initial first) := by
  have hstep : ∀ state call, Counted state → Sound state call →
      Counted (machine.step state call).2 :=
    fun _ _ hcounted hcall => hcounted.step_sound hcall
  exact (machine.invariant_after_initial hstep counted_initial hsound hfirst).filesFollowCounters

/-- Two counters share a file, and a third one joins when the first is finalized. -/
def sharing : List Call :=
  [.newCounter none (some "rx.csv") true, .newCounter (some "csv") (some "rx.csv") true,
    .finalize 1, .newCounter (some "CSV") (some "rx.csv") false, .finalize 2, .finalize 3]

theorem filesFollowCounters_sharing : machine.Along Sound .initial sharing ∧
    FilesFollowCounters (machine.after .initial sharing) := by
  have hsound : machine.Along Sound .initial sharing := by decide
  exact ⟨hsound, filesFollowCounters_of_sound hsound (List.prefix_refl _)⟩

/-- A counter that comes when its file has been closed holds a closed handle. -/
theorem reused_name_is_closed :
    ¬ ∀ calls : List Call, FilesFollowCounters (machine.after .initial calls) := by
  intro halways
  have hfollow := halways [.newCounter none (some "rx.csv") true, .finalize 1,
    .newCounter none (some "rx.csv") true]
  obtain ⟨handle, hfile, hopen⟩ := hfollow.holds ⟨2, .handle 0, some "rx.csv", .plain⟩
    (by decide) (by decide)
  cases hfile
  exact absurd hopen (by decide)

end Libmoon.Stats
