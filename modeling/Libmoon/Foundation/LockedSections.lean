import Libmoon.Foundation.Interleaving
import Mathlib.Logic.Function.Basic

/-! # Sections under a recursive lock

Threads run scripts over a shared store. A script may run a part of itself under the one
lock, which its holder may take again; an error leaves every section that it passes
through. Every interleaving of the threads comes to what the outermost sections come to when
they run one after the other, if all accesses are made in sections, or if those outside are
reads of what every section keeps as it is.
-/

namespace Foundation

variable {Action Val Store Thread : Type}

/-! ## Scripts -/

/-- What a thread does next, depending on the values that it has got so far. -/
inductive Script (Action Val : Type) where
  | done (val : Val)
  | fail
  | act (action : Action) (next : Val → Script Action Val)
  /-- A section, and what follows it unless it fails. -/
  | locked (body : Script Action Val) (next : Val → Script Action Val)

namespace Script

/-- What follows a section that ended with a value or failed. -/
def proceed (next : Val → Script Action Val) : Option Val → Script Action Val
  | some val => next val
  | none => .fail

/-- The script by itself. -/
def run (exec : Store → Action → Store × Val) : Script Action Val → Store → Store × Option Val
  | .done val, store => (store, some val)
  | .fail, store => (store, none)
  | .act action next, store => (next (exec store action).2).run exec (exec store action).1
  | .locked body next, store =>
      match body.run exec store with
      | (store, some val) => (next val).run exec store
      | (store, none) => (store, none)

/-- Nothing is accessed outside the sections. -/
def Wrapped : Script Action Val → Prop
  | .done _ => True
  | .fail => True
  | .act _ _ => False
  | .locked _ next => ∀ val, (next val).Wrapped

/-- The store has the property from here to the end of the script. -/
def Keeps (exec : Store → Action → Store × Val) (property : Store → Prop) :
    Script Action Val → Store → Prop
  | .done _, store => property store
  | .fail, store => property store
  | .act action next, store =>
      property store ∧ (next (exec store action).2).Keeps exec property (exec store action).1
  | .locked body next, store =>
      body.Keeps exec property store ∧ ∀ val, (body.run exec store).2 = some val →
        (next val).Keeps exec property (body.run exec store).1

/-- The store has the property throughout the section that the script starts with. -/
def SectionKeeps (exec : Store → Action → Store × Val) (property : Store → Prop)
    (store : Store) : Script Action Val → Prop
  | .locked body _ => body.Keeps exec property store
  | _ => True

/-- The script that starts with its first section: what that one leaves, comes to and is
followed by. -/
def firstSection (exec : Store → Action → Store × Val) (store : Store) :
    Script Action Val → Option (Store × Option Val × Script Action Val)
  | .locked body next =>
      some ((body.run exec store).1, (body.run exec store).2, proceed next (body.run exec store).2)
  | _ => none

/-- A thread inside sections with these continuations, the innermost first, as one script. -/
def enclose : Script Action Val → List (Val → Script Action Val) → Script Action Val
  | script, [] => script
  | script, next :: frames => enclose (.locked script next) frames

variable {exec : Store → Action → Store × Val} {property : Store → Prop}

@[simp] theorem run_proceed_fail (next : Val → Script Action Val) (store : Store) :
    (proceed next none).run exec store = (store, none) := rfl

theorem run_locked (body : Script Action Val) (next : Val → Script Action Val) (store : Store) :
    (Script.locked body next).run exec store =
      (proceed next (body.run exec store).2).run exec (body.run exec store).1 := by
  rw [run]
  rcases body.run exec store with ⟨store, _ | val⟩ <;> rfl

theorem Wrapped.proceed {next : Val → Script Action Val} (hwrapped : ∀ val, (next val).Wrapped)
    (result : Option Val) : (proceed next result).Wrapped := by
  cases result with
  | none => trivial
  | some val => exact hwrapped val

/-- Inside a section only what the rest of it comes to matters. -/
theorem section_enclose_congr {script script' : Script Action Val} {store store' : Store}
    (hrun : script.run exec store = script'.run exec store')
    (next : Val → Script Action Val) (frames : List (Val → Script Action Val)) :
    firstSection exec store (script.enclose (next :: frames)) =
      firstSection exec store' (script'.enclose (next :: frames)) := by
  induction frames generalizing script script' next with
  | nil => simp only [enclose, firstSection, hrun]
  | cons outer frames ih =>
      have hlocked : (Script.locked script next).run exec store =
          (Script.locked script' next).run exec store' := by
        rw [run_locked, run_locked, hrun]
      exact ih hlocked outer

theorem keeps_of_forall (hproperty : ∀ store, property store) (script : Script Action Val)
    (store : Store) : script.Keeps exec property store := by
  induction script generalizing store with
  | done val => exact hproperty store
  | fail => exact hproperty store
  | act action next ih => exact ⟨hproperty store, ih _ _⟩
  | locked body next ihbody ihnext => exact ⟨ihbody store, fun val _ => ihnext val _⟩

theorem Keeps.now {script : Script Action Val} {store : Store}
    (hkeeps : script.Keeps exec property store) : property store := by
  induction script generalizing store with
  | done val => exact hkeeps
  | fail => exact hkeeps
  | act action next _ => exact hkeeps.1
  | locked body next ih _ => exact ih hkeeps.1

/-- The end of a section inside another one. -/
theorem Keeps.proceed {script : Script Action Val} {next : Val → Script Action Val}
    {store : Store} {result : Option Val}
    (hkeeps : (Script.locked script next).Keeps exec property store)
    (hended : script.run exec store = (store, result)) :
    (Script.proceed next result).Keeps exec property store := by
  cases result with
  | none => exact hkeeps.now
  | some val =>
      have hnext := hkeeps.2 val
      rw [hended] at hnext
      exact hnext rfl

theorem SectionKeeps.innermost {script : Script Action Val} {store : Store}
    {next : Val → Script Action Val} {frames : List (Val → Script Action Val)}
    (hkeeps : SectionKeeps exec property store (script.enclose (next :: frames))) :
    script.Keeps exec property store := by
  induction frames generalizing script next with
  | nil => exact hkeeps
  | cons outer frames ih => exact (@ih (.locked script next) outer hkeeps).1

theorem SectionKeeps.congr {script script' : Script Action Val} {store store' : Store}
    (hrun : script.run exec store = script'.run exec store')
    (hkeeps : script.Keeps exec property store → script'.Keeps exec property store')
    {next : Val → Script Action Val} {frames : List (Val → Script Action Val)}
    (hsection : SectionKeeps exec property store (script.enclose (next :: frames))) :
    SectionKeeps exec property store' (script'.enclose (next :: frames)) := by
  induction frames generalizing script script' next with
  | nil => exact hkeeps hsection
  | cons outer frames ih =>
      refine @ih (.locked script next) (.locked script' next) ?_ ?_ outer hsection
      · rw [run_locked, run_locked, hrun]
      · rintro ⟨hbody, hnext⟩
        refine ⟨hkeeps hbody, fun val hval => ?_⟩
        rw [← hrun] at hval ⊢
        exact hnext val hval

end Script

/-! ## The lock -/

/-- Who holds the lock, and how often besides the first time. -/
abbrev RecursiveLock (Thread : Type) := Option (Thread × ℕ)

namespace RecursiveLock

variable [DecidableEq Thread]

/-- It is refused as long as another thread holds the lock. -/
def acquire (lock : RecursiveLock Thread) (thread : Thread) : Option (RecursiveLock Thread) :=
  match lock with
  | none => some (some (thread, 0))
  | some (holder, depth) =>
      if holder = thread then some (some (holder, depth + 1)) else none

/-- Only the holder may release the lock. -/
def release (lock : RecursiveLock Thread) (thread : Thread) : Option (RecursiveLock Thread) :=
  match lock with
  | none => none
  | some (holder, depth) =>
      if holder = thread then
        match depth with
        | 0 => some none
        | depth + 1 => some (some (holder, depth))
      else none

end RecursiveLock

/-! ## Threads -/

/-- Where a thread is: the rest of the innermost section, and what follows the sections
that it is inside of. -/
structure Strand (Action Val : Type) where
  script : Script Action Val
  frames : List (Val → Script Action Val)

structure Threads (Thread Store Action Val : Type) where
  lock : RecursiveLock Thread
  store : Store
  strands : Thread → Strand Action Val
  /-- What the outermost sections have come to. -/
  sections : List (Thread × Option Val)

namespace Threads

variable [DecidableEq Thread]

def start (store : Store) (scripts : Thread → Script Action Val) :
    Threads Thread Store Action Val where
  lock := none
  store := store
  strands thread := ⟨scripts thread, []⟩
  sections := []

/-- The end of the innermost section. -/
def leave (state : Threads Thread Store Action Val) (thread : Thread) (result : Option Val)
    (next : Val → Script Action Val) (frames : List (Val → Script Action Val)) :
    Option (Threads Thread Store Action Val) :=
  (state.lock.release thread).map fun lock =>
    { state with
      lock := lock
      strands := Function.update state.strands thread ⟨Script.proceed next result, frames⟩
      sections := if frames.isEmpty then state.sections ++ [(thread, result)] else state.sections }

/-- One step of a thread. -/
def next (exec : Store → Action → Store × Val) (state : Threads Thread Store Action Val)
    (thread : Thread) : Option (Threads Thread Store Action Val) :=
  match state.strands thread with
  | ⟨.act action next, frames⟩ =>
      some { state with
        store := (exec state.store action).1
        strands := Function.update state.strands thread ⟨next (exec state.store action).2, frames⟩ }
  | ⟨.locked body next, frames⟩ =>
      (state.lock.acquire thread).map fun lock =>
        { state with
          lock := lock
          strands := Function.update state.strands thread ⟨body, next :: frames⟩ }
  | ⟨.done val, next :: frames⟩ => state.leave thread (some val) next frames
  | ⟨.fail, next :: frames⟩ => state.leave thread none next frames
  | ⟨.done _, []⟩ => none
  | ⟨.fail, []⟩ => none

end Threads

/-! ## One section after the other -/

/-- The same threads, with every outermost section, and every access outside, as one step. -/
structure Serial (Thread Store Action Val : Type) where
  store : Store
  scripts : Thread → Script Action Val
  sections : List (Thread × Option Val)

namespace Serial

variable [DecidableEq Thread]

def start (store : Store) (scripts : Thread → Script Action Val) :
    Serial Thread Store Action Val where
  store := store
  scripts := scripts
  sections := []

def next (exec : Store → Action → Store × Val) (state : Serial Thread Store Action Val)
    (thread : Thread) : Option (Serial Thread Store Action Val) :=
  match state.scripts thread with
  | .act action next =>
      some { state with
        store := (exec state.store action).1
        scripts := Function.update state.scripts thread (next (exec state.store action).2) }
  | script =>
      (script.firstSection exec state.store).map fun (store, result, rest) =>
        { store := store
          scripts := Function.update state.scripts thread rest
          sections := state.sections ++ [(thread, result)] }

variable {exec : Store → Action → Store × Val} {state : Serial Thread Store Action Val}
  {thread : Thread}

theorem next_of_section {script rest : Script Action Val} {store : Store} {result : Option Val}
    (hscript : state.scripts thread = script)
    (hsection : script.firstSection exec state.store = some (store, result, rest)) :
    state.next exec thread = some
      { store := store
        scripts := Function.update state.scripts thread rest
        sections := state.sections ++ [(thread, result)] } := by
  rw [next]
  split
  next action next hact =>
    rw [← hscript, hact] at hsection
    cases hsection
  next =>
    rw [hscript, hsection]
    rfl

theorem next_of_act {action : Action} {next : Val → Script Action Val}
    (hscript : state.scripts thread = .act action next) :
    state.next exec thread = some
      { state with
        store := (exec state.store action).1
        scripts := Function.update state.scripts thread (next (exec state.store action).2) } := by
  rw [Serial.next, hscript]

end Serial

/-- The threads have come to what the sections that have ended come to in a row; the section
that is open will come to the same in both, and keeps what is `visible` then. -/
structure Serialises (exec : Store → Action → Store × Val)
    (visible : List (Thread × Option Val) → Store → Prop)
    (state : Threads Thread Store Action Val) (serial : Serial Thread Store Action Val) : Prop where
  sections : state.sections = serial.sections
  free : state.lock = none → state.store = serial.store
  outside : ∀ thread, (∀ depth, state.lock ≠ some (thread, depth)) →
    state.strands thread = ⟨serial.scripts thread, []⟩
  inside : ∀ thread depth, state.lock = some (thread, depth) →
    (state.strands thread).frames.length = depth + 1 ∧
      ((state.strands thread).script.enclose (state.strands thread).frames).firstSection
          exec state.store = (serial.scripts thread).firstSection exec serial.store ∧
      ((state.strands thread).script.enclose (state.strands thread).frames).SectionKeeps
          exec (visible serial.sections) state.store

/-- Outside the sections the threads only read, and only what every section leaves visible.
`kept` is what holds between the steps that they take one after the other. -/
structure ReadsOutside [DecidableEq Thread] (exec : Store → Action → Store × Val)
    (visible : List (Thread × Option Val) → Store → Prop)
    (kept : Serial Thread Store Action Val → Prop) : Prop where
  next : ∀ {serial serial' thread}, kept serial → serial.next exec thread = some serial' →
    kept serial'
  between : ∀ {serial}, kept serial → visible serial.sections serial.store
  sections : ∀ {serial}, kept serial → ∀ thread,
    (serial.scripts thread).SectionKeeps exec (visible serial.sections) serial.store
  reads : ∀ {serial thread action next store}, kept serial →
    serial.scripts thread = .act action next → visible serial.sections store →
      exec store action = (store, (exec serial.store action).2)

theorem Script.Wrapped.of_section {exec : Store → Action → Store × Val}
    {script rest : Script Action Val} {store left : Store} {result : Option Val}
    (hwrapped : script.Wrapped)
    (hsection : script.firstSection exec store = some (left, result, rest)) : rest.Wrapped := by
  cases script with
  | locked body next =>
      cases hsection
      exact Wrapped.proceed hwrapped _
  | done val => cases hsection
  | fail => cases hsection
  | act action next => cases hsection

/-- Where all accesses are made in sections there is nothing to keep visible. -/
theorem readsOutside_of_wrapped [DecidableEq Thread] (exec : Store → Action → Store × Val) :
    ReadsOutside exec (fun _ _ => True) fun serial : Serial Thread Store Action Val =>
      ∀ thread, (serial.scripts thread).Wrapped where
  next := by
    intro serial serial' thread hwrapped hnext
    have hscript := hwrapped thread
    rw [Serial.next] at hnext
    split at hnext
    next action next hact =>
      rw [hact] at hscript
      exact hscript.elim
    next =>
      obtain ⟨⟨store, result, rest⟩, hsection, rfl⟩ := Option.map_eq_some_iff.mp hnext
      intro other
      by_cases heq : other = thread
      · subst heq
        simp only [Function.update_self]
        exact hscript.of_section hsection
      · simp only [Function.update_of_ne heq]
        exact hwrapped other
  between _ := trivial
  sections := by
    intro serial _ thread
    cases serial.scripts thread with
    | locked body next => exact Script.keeps_of_forall (fun _ => trivial) body serial.store
    | done val => trivial
    | fail => trivial
    | act action next => trivial
  reads := by
    intro serial thread action next store hwrapped hscript
    have hact := hwrapped thread
    rw [hscript] at hact
    exact hact.elim

namespace Serialises

variable {exec : Store → Action → Store × Val}
  {visible : List (Thread × Option Val) → Store → Prop}
  {kept : Serial Thread Store Action Val → Prop} {state state' : Threads Thread Store Action Val}
  {serial : Serial Thread Store Action Val} {thread : Thread}

theorem start (store : Store) (scripts : Thread → Script Action Val) :
    Serialises exec visible (.start store scripts) (.start store scripts) where
  sections := rfl
  free _ := rfl
  outside _ _ := rfl
  inside _ _ hlock := by cases hlock

/-- While a thread holds the lock the others are outside. -/
theorem outside_of_ne (hserial : Serialises exec visible state serial) {depth : ℕ}
    (hlock : state.lock = some (thread, depth)) {other : Thread} (hne : other ≠ thread) :
    state.strands other = ⟨serial.scripts other, []⟩ := by
  refine hserial.outside other fun depth' hother => hne ?_
  rw [hlock] at hother
  cases hother
  rfl

/-- A thread that is inside a section holds the lock. -/
theorem holds (hserial : Serialises exec visible state serial) {script : Script Action Val}
    {next : Val → Script Action Val} {frames : List (Val → Script Action Val)}
    (hstrand : state.strands thread = ⟨script, next :: frames⟩) :
    ∃ depth, state.lock = some (thread, depth) := by
  by_contra hnone
  have houtside := hserial.outside thread fun depth hlock => hnone ⟨depth, hlock⟩
  rw [hstrand] at houtside
  cases houtside

/-- A thread that is at no section's end and inside none does not hold the lock. -/
theorem not_held (hserial : Serialises exec visible state serial) {script : Script Action Val}
    (hstrand : state.strands thread = ⟨script, []⟩) (depth : ℕ) :
    state.lock ≠ some (thread, depth) := by
  intro hlock
  have hdepth := (hserial.inside thread depth hlock).1
  rw [hstrand] at hdepth
  cases hdepth

theorem script_eq (hserial : Serialises exec visible state serial) {script : Script Action Val}
    (hstrand : state.strands thread = ⟨script, []⟩) : serial.scripts thread = script := by
  have houtside := hserial.outside thread (hserial.not_held hstrand)
  rw [hstrand] at houtside
  exact (congrArg Strand.script houtside).symm

/-- What the sections leave visible is visible at every moment. -/
theorem visible_now (hserial : Serialises exec visible state serial)
    (hvisible : visible serial.sections serial.store) : visible serial.sections state.store := by
  cases hlock : state.lock with
  | none =>
      rw [hserial.free hlock]
      exact hvisible
  | some held =>
      obtain ⟨holder, depth⟩ := held
      obtain ⟨hdepth, -, hkeeps⟩ := hserial.inside holder depth hlock
      generalize state.strands holder = strand at hdepth hkeeps
      obtain ⟨script, _ | ⟨outer, frames⟩⟩ := strand
      · cases hdepth
      · exact hkeeps.innermost.now

variable [DecidableEq Thread]

/-- The holder moves on inside its outermost section. -/
theorem move (hserial : Serialises exec visible state serial) {depth depth' : ℕ}
    (hlock : state.lock = some (thread, depth)) (store : Store) (strand : Strand Action Val)
    (hdepth : strand.frames.length = depth' + 1)
    (hsection : (strand.script.enclose strand.frames).firstSection exec store =
      (serial.scripts thread).firstSection exec serial.store)
    (hkeeps : (strand.script.enclose strand.frames).SectionKeeps exec
      (visible serial.sections) store) :
    Serialises exec visible
      { state with
        lock := some (thread, depth')
        store := store
        strands := Function.update state.strands thread strand } serial where
  sections := hserial.sections
  free hfree := by cases hfree
  outside other hother := by
    have hne : other ≠ thread := by
      rintro rfl
      exact hother depth' rfl
    dsimp only
    rw [Function.update_of_ne hne]
    exact hserial.outside_of_ne hlock hne
  inside other depth'' hheld := by
    cases hheld
    dsimp only
    rw [Function.update_self]
    exact ⟨hdepth, hsection, hkeeps⟩

/-- An access inside a section. -/
theorem act (hserial : Serialises exec visible state serial) {action : Action}
    {next outer : Val → Script Action Val} {frames : List (Val → Script Action Val)}
    (hstrand : state.strands thread = ⟨.act action next, outer :: frames⟩) :
    Serialises exec visible
      { state with
        store := (exec state.store action).1
        strands := Function.update state.strands thread
          ⟨next (exec state.store action).2, outer :: frames⟩ } serial := by
  obtain ⟨depth, hlock⟩ := hserial.holds hstrand
  obtain ⟨hdepth, hsection, hkeeps⟩ := hserial.inside thread depth hlock
  rw [hstrand] at hdepth hsection hkeeps
  have hact : (Script.act action next).run exec state.store =
      (next (exec state.store action).2).run exec (exec state.store action).1 := rfl
  have hmoved := hserial.move hlock (exec state.store action).1
    ⟨next (exec state.store action).2, outer :: frames⟩ hdepth
    ((Script.section_enclose_congr hact.symm outer frames).trans hsection)
    (hkeeps.congr hact fun hactKeeps => hactKeeps.2)
  rwa [← hlock] at hmoved

/-- A read outside the sections yields what it yields between them. -/
theorem read (houtside : ReadsOutside exec visible kept) (hkept : kept serial)
    (hserial : Serialises exec visible state serial) {action : Action}
    {next : Val → Script Action Val} (hstrand : state.strands thread = ⟨.act action next, []⟩) :
    ∃ serial', serial.next exec thread = some serial' ∧
      Serialises exec visible
        { state with
          store := (exec state.store action).1
          strands := Function.update state.strands thread
            ⟨next (exec state.store action).2, []⟩ } serial' := by
  have hscript := hserial.script_eq hstrand
  have hbetween := houtside.between hkept
  have hread := houtside.reads hkept hscript (hserial.visible_now hbetween)
  have hsame := houtside.reads hkept hscript hbetween
  refine ⟨_, Serial.next_of_act hscript, ?_⟩
  rw [hread, hsame]
  have hnot := hserial.not_held hstrand
  refine ⟨hserial.sections, hserial.free, ?_, ?_⟩
  · intro other hother
    by_cases heq : other = thread
    · subst heq
      simp only [Function.update_self]
    · simp only [Function.update_of_ne heq]
      exact hserial.outside other hother
  · intro other depth hheld
    have hne : other ≠ thread := by
      rintro rfl
      exact hnot depth hheld
    simp only [Function.update_of_ne hne]
    exact hserial.inside other depth hheld

theorem enter (houtside : ReadsOutside exec visible kept) (hkept : kept serial)
    (hserial : Serialises exec visible state serial) {body : Script Action Val}
    {next : Val → Script Action Val} {frames : List (Val → Script Action Val)}
    (hstrand : state.strands thread = ⟨.locked body next, frames⟩) {lock : RecursiveLock Thread}
    (hacquire : state.lock.acquire thread = some lock) :
    Serialises exec visible
      { state with
        lock := lock
        strands := Function.update state.strands thread ⟨body, next :: frames⟩ } serial := by
  cases hlock : state.lock with
  | none =>
      rw [hlock] at hacquire
      cases hacquire
      have hstrand' := hserial.outside thread fun depth hheld => by
        rw [hlock] at hheld
        cases hheld
      have hscript := congrArg Strand.script hstrand'
      have hframes := congrArg Strand.frames hstrand'
      rw [hstrand] at hscript hframes
      dsimp only at hscript hframes
      have hkeeps := houtside.sections hkept thread
      rw [← hscript] at hkeeps
      refine ⟨hserial.sections, ?_, ?_, ?_⟩
      · intro hfree
        cases hfree
      · intro other hother
        have hne : other ≠ thread := by
          rintro rfl
          exact hother 0 rfl
        dsimp only
        rw [Function.update_of_ne hne]
        refine hserial.outside other fun depth hheld => ?_
        rw [hlock] at hheld
        cases hheld
      · intro other depth hheld
        cases hheld
        dsimp only
        rw [Function.update_self, hframes, ← hscript, hserial.free hlock]
        exact ⟨rfl, rfl, hkeeps⟩
  | some held =>
      obtain ⟨holder, depth⟩ := held
      rw [hlock] at hacquire
      obtain ⟨heq, hacquired⟩ := Option.ite_none_right_eq_some.mp hacquire
      subst heq
      cases hacquired
      obtain ⟨hdepth, hsection, hkeeps⟩ := hserial.inside holder depth hlock
      rw [hstrand] at hdepth hsection hkeeps
      exact hserial.move hlock state.store ⟨body, next :: frames⟩ (congrArg Nat.succ hdepth)
        hsection hkeeps

/-- The end of the innermost section is that of the outermost one, or goes on inside it. -/
theorem leave (hserial : Serialises exec visible state serial) {script : Script Action Val}
    {next : Val → Script Action Val} {frames : List (Val → Script Action Val)}
    (hstrand : state.strands thread = ⟨script, next :: frames⟩) {result : Option Val}
    (hended : script.run exec state.store = (state.store, result))
    (hleave : state.leave thread result next frames = some state') :
    ∃ serial', (serial' = serial ∨ serial.next exec thread = some serial') ∧
      Serialises exec visible state' serial' := by
  obtain ⟨depth, hlock⟩ := hserial.holds hstrand
  obtain ⟨hdepth, hsection, hkeeps⟩ := hserial.inside thread depth hlock
  rw [hstrand] at hdepth hsection hkeeps
  obtain ⟨lock, hrelease, rfl⟩ := Option.map_eq_some_iff.mp hleave
  simp only [RecursiveLock.release, hlock, if_true] at hrelease
  cases frames with
  | nil =>
      obtain rfl : 0 = depth := Nat.succ.inj hdepth
      cases hrelease
      have hsection' : (serial.scripts thread).firstSection exec serial.store =
          some (state.store, result, Script.proceed next result) := by
        rw [← hsection]
        simp only [Script.enclose, Script.firstSection, hended]
      refine ⟨_, .inr (Serial.next_of_section rfl hsection'), ?_, ?_, ?_, ?_⟩
      · simp only [List.isEmpty_nil, if_true, hserial.sections]
      · intro _
        rfl
      · intro other _
        by_cases heq : other = thread
        · subst heq
          simp only [Function.update_self]
        · simp only [Function.update_of_ne heq]
          exact hserial.outside_of_ne hlock heq
      · intro other depth hheld
        cases hheld
  | cons outer frames =>
      obtain rfl : frames.length + 1 = depth := Nat.succ.inj hdepth
      cases hrelease
      refine ⟨serial, .inl rfl, ?_⟩
      have hproceed : (Script.locked script next).run exec state.store =
          (Script.proceed next result).run exec state.store := by
        rw [Script.run_locked, hended]
      exact hserial.move hlock state.store ⟨Script.proceed next result, outer :: frames⟩ rfl
        ((Script.section_enclose_congr hproceed.symm outer frames).trans hsection)
        (Script.SectionKeeps.congr hproceed (fun hkeeps => hkeeps.proceed hended) hkeeps)

theorem step (houtside : ReadsOutside exec visible kept) (hkept : kept serial)
    (hserial : Serialises exec visible state serial)
    (hnext : state.next exec thread = some state') :
    ∃ serial', (serial' = serial ∨ serial.next exec thread = some serial') ∧
      Serialises exec visible state' serial' := by
  unfold Threads.next at hnext
  split at hnext
  next action next frames hstrand =>
    cases hnext
    cases frames with
    | nil =>
        obtain ⟨serial', hstep, hread⟩ := hserial.read houtside hkept hstrand
        exact ⟨serial', .inr hstep, hread⟩
    | cons outer frames => exact ⟨serial, .inl rfl, hserial.act hstrand⟩
  next body next frames hstrand =>
    obtain ⟨lock, hacquire, rfl⟩ := Option.map_eq_some_iff.mp hnext
    exact ⟨serial, .inl rfl, hserial.enter houtside hkept hstrand hacquire⟩
  next val next frames hstrand => exact hserial.leave hstrand rfl hnext
  next next frames hstrand => exact hserial.leave hstrand rfl hnext
  next => cases hnext
  next => cases hnext

/-- Every interleaving comes to what some order of whole sections and reads comes to. -/
theorem exists_order (houtside : ReadsOutside exec visible kept) (hkept : kept serial)
    (hserial : Serialises exec visible state serial) {schedule : List Thread}
    (hrun : runSchedule (Threads.next exec) state schedule = some state') :
    ∃ order serial', runSchedule (Serial.next exec) serial order = some serial' ∧
      kept serial' ∧ Serialises exec visible state' serial' := by
  induction schedule generalizing state serial with
  | nil =>
      obtain rfl : state = state' := Option.some.inj hrun
      exact ⟨[], serial, rfl, hkept, hserial⟩
  | cons thread rest ih =>
      obtain ⟨middle, hnext, hrest⟩ := runSchedule_cons hrun
      obtain ⟨serial', hstep, hmiddle⟩ := hserial.step houtside hkept hnext
      rcases hstep with rfl | hstep
      · exact ih hkept hmiddle hrest
      · obtain ⟨order, final, horder, hfinal⟩ := ih (houtside.next hkept hstep) hmiddle hrest
        refine ⟨thread :: order, final, ?_, hfinal⟩
        rw [runSchedule, hstep]
        exact horder

/-- A thread that is inside a section is never kept from going on. -/
theorem next_of_inside (hserial : Serialises exec visible state serial) {depth : ℕ}
    (hlock : state.lock = some (thread, depth)) : (state.next exec thread).isSome := by
  obtain ⟨hdepth, -⟩ := hserial.inside thread depth hlock
  have hacquire : state.lock.acquire thread = some (some (thread, depth + 1)) := by
    rw [hlock]
    exact if_pos rfl
  have hrelease : (state.lock.release thread).isSome := by
    rw [hlock]
    cases depth <;> simp [RecursiveLock.release]
  unfold Threads.next
  split
  next => rfl
  next => simp [hacquire]
  next => simpa [Threads.leave] using hrelease
  next => simpa [Threads.leave] using hrelease
  next hstrand =>
    rw [hstrand] at hdepth
    cases hdepth
  next hstrand =>
    rw [hstrand] at hdepth
    cases hdepth

end Serialises

end Foundation
