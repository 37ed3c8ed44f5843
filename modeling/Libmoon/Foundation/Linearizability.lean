import Mathlib.Data.Set.Basic
import Mathlib.Logic.Function.Basic
import Mathlib.Tactic.Common

/-! # Linearizable histories

An atomic object answers every operation in one indivisible step. A history of
overlapping calls and answers is linearizable when some run of the object has it:
each operation takes effect at one moment between its call and its answer.

Where that moment shows only later, an implementation is compared with the object
by the statuses that are still possible for each thread. A history is explained
when every choice of possible statuses is reached by a run of the object with that
history.
-/

namespace Foundation

universe u v w x

/-- What an operation may answer in a state, and the state it leaves behind. -/
structure AtomicObject (State : Type u) (Op : Type v) (Answer : Type w) where
  effect : State → Op → Answer → State → Prop

inductive CallEvent (Thread : Type x) (Op : Type v) (Answer : Type w) where
  | call (thread : Thread) (op : Op)
  | answer (thread : Thread) (op : Op) (answer : Answer)
deriving DecidableEq

/-- Where a thread is in its current call. -/
inductive CallStatus (Op : Type v) (Answer : Type w) where
  | idle
  | pending (op : Op)
  /-- The operation took effect. -/
  | answered (op : Op) (answer : Answer)

variable {State : Type u} {Op : Type v} {Answer : Type w} {Thread : Type x} [DecidableEq Thread]

/-- Runs of the object, with the events seen so far, the state and the threads' statuses. -/
inductive AtomicRun (object : AtomicObject State Op Answer) (start : State) :
    List (CallEvent Thread Op Answer) → State → (Thread → CallStatus Op Answer) → Prop
  | start : AtomicRun object start [] start (fun _ => .idle)
  | call {history state status thread op} (run : AtomicRun object start history state status)
      (hidle : status thread = .idle) :
      AtomicRun object start (history ++ [.call thread op]) state
        (Function.update status thread (.pending op))
  | effect {history state status thread op answer state'}
      (run : AtomicRun object start history state status)
      (hpending : status thread = .pending op) (heffect : object.effect state op answer state') :
      AtomicRun object start history state' (Function.update status thread (.answered op answer))
  | answer {history state status thread op answer}
      (run : AtomicRun object start history state status)
      (hanswered : status thread = .answered op answer) :
      AtomicRun object start (history ++ [.answer thread op answer]) state
        (Function.update status thread .idle)

/-- Some run of the object has this history. -/
def Linearizable (object : AtomicObject State Op Answer) (start : State)
    (history : List (CallEvent Thread Op Answer)) : Prop :=
  ∃ state status, AtomicRun object start history state status

/-! ## Possible statuses -/

/-- Every choice of possible statuses is reached by a run with this history. -/
def Explained (object : AtomicObject State Op Answer) (start : State)
    (history : List (CallEvent Thread Op Answer)) (state : State)
    (possible : Thread → Set (CallStatus Op Answer)) : Prop :=
  ∀ status, (∀ thread, status thread ∈ possible thread) →
    AtomicRun object start history state status

/-- A step inside a call: a status that is possible after it was possible before, or
the operation takes effect in this step. -/
def StepExplained (object : AtomicObject State Op Answer) (state : State)
    (before : Set (CallStatus Op Answer)) (state' : State)
    (after : Set (CallStatus Op Answer)) : Prop :=
  ∀ status ∈ after, (status ∈ before ∧ state' = state) ∨
    ∃ op answer, status = .answered op answer ∧ .pending op ∈ before ∧
      object.effect state op answer state'

theorem StepExplained.of_subset {object : AtomicObject State Op Answer} {state state' : State}
    {before after : Set (CallStatus Op Answer)} (hsubset : after ⊆ before)
    (hstate : state' = state) : StepExplained object state before state' after :=
  fun _ hstatus => .inl ⟨hsubset hstatus, hstate⟩

section Explained

variable {object : AtomicObject State Op Answer} {start state state' : State}
  {history : List (CallEvent Thread Op Answer)}
  {possible possible' : Thread → Set (CallStatus Op Answer)}

theorem Explained.linearizable (hexplained : Explained object start history state possible)
    (hsome : ∀ thread, (possible thread).Nonempty) : Linearizable object start history := by
  choose status hstatus using hsome
  exact ⟨state, status, hexplained status hstatus⟩

/-- A change of one thread's status keeps the others possible. -/
theorem update_mem_possible {thread : Thread} {status : Thread → CallStatus Op Answer}
    {before : CallStatus Op Answer} (hbefore : before ∈ possible thread)
    (hothers : ∀ other ≠ thread, possible' other ⊆ possible other)
    (hstatus : ∀ other, status other ∈ possible' other) (other : Thread) :
    Function.update status thread before other ∈ possible other := by
  by_cases heq : other = thread
  · rw [heq, Function.update_self]
    exact hbefore
  · rw [Function.update_of_ne heq]
    exact hothers other heq (hstatus other)

theorem update_update_self (status : Thread → CallStatus Op Answer) (thread : Thread)
    (before : CallStatus Op Answer) :
    Function.update (Function.update status thread before) thread (status thread) = status := by
  rw [Function.update_idem, Function.update_eq_self]

theorem Explained.step (hexplained : Explained object start history state possible)
    (thread : Thread)
    (hothers : ∀ other ≠ thread, possible' other ⊆ possible other)
    (hthread : StepExplained object state (possible thread) state' (possible' thread)) :
    Explained object start history state' possible' := by
  intro status hstatus
  rcases hthread _ (hstatus thread) with ⟨hkept, rfl⟩ | ⟨op, answer, hnow, hpending, heffect⟩
  · apply hexplained
    intro other
    rw [← Function.update_eq_self thread status]
    exact update_mem_possible hkept hothers hstatus other
  · have hrun := (hexplained _ (update_mem_possible hpending hothers hstatus)).effect
      (Function.update_self thread _ status) heffect
    rwa [← hnow, update_update_self] at hrun

theorem Explained.call (hexplained : Explained object start history state possible)
    (thread : Thread) {op : Op}
    (hothers : ∀ other ≠ thread, possible' other ⊆ possible other)
    (hidle : .idle ∈ possible thread) (hpending : possible' thread ⊆ {.pending op}) :
    Explained object start (history ++ [.call thread op]) state possible' := by
  intro status hstatus
  have hnow : status thread = .pending op := hpending (hstatus thread)
  have hrun : AtomicRun object start (history ++ [.call thread op]) state _ :=
    (hexplained _ (update_mem_possible hidle hothers hstatus)).call
      (Function.update_self thread _ status)
  rwa [← hnow, update_update_self] at hrun

theorem Explained.answer (hexplained : Explained object start history state possible)
    (thread : Thread) {op : Op} {answer : Answer}
    (hothers : ∀ other ≠ thread, possible' other ⊆ possible other)
    (hanswered : .answered op answer ∈ possible thread) (hidle : possible' thread ⊆ {.idle}) :
    Explained object start (history ++ [.answer thread op answer]) state possible' := by
  intro status hstatus
  have hnow : status thread = .idle := hidle (hstatus thread)
  have hrun := (hexplained _ (update_mem_possible hanswered hothers hstatus)).answer
    (Function.update_self thread _ status)
  rwa [← hnow, update_update_self] at hrun

end Explained

/-! ## What goes in and what comes out

Where an object keeps a list, every effect takes values off its front and appends
values at its end. If one thread appends and one thread takes, the order of the
effects is the order in which the two threads got their answers.
-/

section Accounting

variable {Value : Type u} (object : AtomicObject (List Value) Op Answer)

/-- Every effect takes `taken` off the front of the list and appends `added`. -/
def Conserves (added taken : Op → Answer → List Value) : Prop :=
  ∀ state op answer state', object.effect state op answer state' →
    state ++ added op answer = taken op answer ++ state'

/-- The values of the answers that a history has. -/
def answered (value : Op → Answer → List Value) : List (CallEvent Thread Op Answer) → List Value
  | [] => []
  | .call _ _ :: rest => answered value rest
  | .answer _ op answer :: rest => value op answer ++ answered value rest

/-- The values of an operation that took effect and has not been answered. -/
def CallStatus.inFlight (value : Op → Answer → List Value) : CallStatus Op Answer → List Value
  | .answered op answer => value op answer
  | _ => []

/-- No thread but this one calls operations with such values. -/
def OnlyBy (value : Op → Answer → List Value) (thread : Thread)
    (history : List (CallEvent Thread Op Answer)) : Prop :=
  ∀ other op, .call other op ∈ history → other ≠ thread → ∀ answer, value op answer = []

omit [DecidableEq Thread] in
theorem answered_append (value : Op → Answer → List Value)
    (first second : List (CallEvent Thread Op Answer)) :
    answered value (first ++ second) = answered value first ++ answered value second := by
  induction first with
  | nil => rfl
  | cons event rest ih => cases event <;> simp [answered, ih]

/-- The operation that a thread is in was called. -/
theorem AtomicRun.called {object : AtomicObject State Op Answer} {start state : State}
    {history : List (CallEvent Thread Op Answer)} {status : Thread → CallStatus Op Answer}
    (hrun : AtomicRun object start history state status) (thread : Thread) (op : Op) :
    (status thread = .pending op ∨ ∃ answer, status thread = .answered op answer) →
      .call thread op ∈ history := by
  induction hrun with
  | start => simp
  | @call history state status other op' _ _ ih =>
      by_cases heq : thread = other
      · subst heq
        rw [Function.update_self]
        rintro (hpending | ⟨answer, hnever⟩)
        · cases hpending
          simp
        · cases hnever
      · rw [Function.update_of_ne heq]
        exact fun hstatus => List.mem_append_left _ (ih hstatus)
  | @effect history state status other op' answer state' _ hpending _ ih =>
      by_cases heq : thread = other
      · subst heq
        rw [Function.update_self]
        rintro (hnever | ⟨answer, hanswered⟩)
        · cases hnever
        · cases hanswered
          exact ih (.inl hpending)
      · rw [Function.update_of_ne heq]
        exact ih
  | @answer history state status other op' answer _ _ ih =>
      by_cases heq : thread = other
      · subst heq
        rw [Function.update_self]
        rintro (hnever | ⟨answer, hnever⟩) <;> cases hnever
      · rw [Function.update_of_ne heq]
        exact fun hstatus => List.mem_append_left _ (ih hstatus)

omit [DecidableEq Thread] in
theorem OnlyBy.of_append {value : Op → Answer → List Value} {thread : Thread}
    {first second : List (CallEvent Thread Op Answer)}
    (honly : OnlyBy value thread (first ++ second)) : OnlyBy value thread first :=
  fun other op hcall => honly other op (List.mem_append_left _ hcall)

section InFlight

variable {value : Op → Answer → List Value} {thread other : Thread} {op : Op} {answer : Answer}
  {history : List (CallEvent Thread Op Answer)} {status : Thread → CallStatus Op Answer}

theorem inFlight_update_effect (honly : OnlyBy value thread history)
    (hpending : status other = .pending op) (hcalled : .call other op ∈ history) :
    (Function.update status other (.answered op answer) thread).inFlight value =
      (status thread).inFlight value ++ value op answer := by
  by_cases heq : thread = other
  · subst heq
    simp [hpending, CallStatus.inFlight]
  · rw [Function.update_of_ne heq, honly other op hcalled (Ne.symm heq), List.append_nil]

theorem inFlight_update_answer (honly : OnlyBy value thread history)
    (hanswered : status other = .answered op answer) (hcalled : .call other op ∈ history) :
    value op answer ++ (Function.update status other .idle thread).inFlight value =
      (status thread).inFlight value := by
  by_cases heq : thread = other
  · subst heq
    simp [hanswered, CallStatus.inFlight]
  · rw [Function.update_of_ne heq, honly other op hcalled (Ne.symm heq), List.nil_append]

end InFlight

variable {object}

/-- Nothing is lost, duplicated or overtaken: what was appended is what was taken,
followed by what the object holds. -/
theorem AtomicRun.accounted {added taken : Op → Answer → List Value}
    (hconserves : Conserves object added taken) {start state : List Value} {adder taker : Thread}
    {history : List (CallEvent Thread Op Answer)} {status : Thread → CallStatus Op Answer}
    (hrun : AtomicRun object start history state status) (hadds : OnlyBy added adder history)
    (htakes : OnlyBy taken taker history) :
    start ++ (answered added history ++ (status adder).inFlight added) =
      answered taken history ++ (status taker).inFlight taken ++ state := by
  induction hrun with
  | start => simp [answered, CallStatus.inFlight]
  | @call history state status thread op run hidle ih =>
      have hsame : ∀ (value : Op → Answer → List Value) (of : Thread),
          (Function.update status thread (.pending op) of).inFlight value =
            (status of).inFlight value := by
        intro value of
        by_cases heq : of = thread
        · subst heq
          simp [hidle, CallStatus.inFlight]
        · rw [Function.update_of_ne heq]
      simpa [answered_append, answered, hsame] using ih hadds.of_append htakes.of_append
  | @effect history state status thread op answer state' run hpending heffect ih =>
      have hcalled := run.called thread op (.inl hpending)
      rw [inFlight_update_effect hadds hpending hcalled,
        inFlight_update_effect htakes hpending hcalled]
      calc start ++ (answered added history ++ ((status adder).inFlight added ++ added op answer))
          = answered taken history ++ (status taker).inFlight taken ++
              (state ++ added op answer) := by
            have hbefore := congrArg (· ++ added op answer) (ih hadds htakes)
            simpa only [List.append_assoc] using hbefore
        _ = answered taken history ++ ((status taker).inFlight taken ++ taken op answer) ++
              state' := by
            rw [hconserves _ _ _ _ heffect]
            simp only [List.append_assoc]
  | @answer history state status thread op answer run hanswered ih =>
      have hcalled := run.called thread op (.inr ⟨answer, hanswered⟩)
      have hbefore := ih hadds.of_append htakes.of_append
      rw [← inFlight_update_answer hadds.of_append hanswered hcalled,
        ← inFlight_update_answer htakes.of_append hanswered hcalled] at hbefore
      simpa [answered_append, answered] using hbefore

end Accounting

end Foundation
