import Libmoon.InterTask.Serialization
import Libmoon.Foundation.Interleaving
import Mathlib.Data.Set.Basic

/-! # Slow pipes

A slow pipe carries argument lists: the sender packs them into a table and
enqueues its dump, the receiver loads the table and unpacks it. The queue is a
FIFO whose operations are atomic. Senders keep no state, so a send is one step
of whichever task sends; a receiver inside `recv` tries to dequeue again and
again, one attempt a step, until an attempt returns something.
-/

namespace Libmoon.InterTask

open Foundation

variable {Data Receiver : Type}

/-! ## Packing and unpacking -/

def Value.isNil : Value Data → Bool
  | .nil => true
  | _ => false

/-- A Lua table with positive integer keys. Absent keys are nil, so the last entry is not. -/
@[ext] structure Table (Data : Type) where
  entries : List (Value Data)
  last_not_nil : ∀ hne : entries ≠ [], ¬ (entries.getLast hne).isNil = true

/-- `{ ... }`. -/
def pack (args : List (Value Data)) : Table Data where
  entries := args.rdropWhile Value.isNil
  last_not_nil := List.rdropWhile_last_not _ _

/-- `unpackAll`: the values up to `table.maxn`. The function that returns them is
compiled on demand, and LuaJIT compiles none that returns more than `limit` values. -/
def unpackAll (limit : Nat) (table : Table Data) : Option (List (Value Data)) :=
  if table.entries.length ≤ limit then some table.entries else none

/-! ## The pipe -/

/-- Where a receiver is. -/
inductive Receiving where
  | idle
  | inRecv
  /-- The call of `recv` ended in an error. -/
  | failed
deriving DecidableEq

/-- The queue, the receivers, and the messages that were sent and returned so far. -/
structure Pipe (Data Receiver : Type) where
  queue : List LuaString
  receivers : Receiver → Receiving
  sent : List (List (Value Data))
  returned : List (Receiver × List (Value Data))

def Pipe.new : Pipe Data Receiver where
  queue := []
  receivers := fun _ => .idle
  sent := []
  returned := []

inductive Label (Data Receiver : Type) where
  | send (args : List (Value Data))
  | recv (receiver : Receiver)
  | attempt (receiver : Receiver)

variable [DecidableEq Receiver]

/-- What `loop(...)` makes of the values that an attempt returned: it goes on if
the first one is nil or false, and returns them otherwise. -/
def loop (pipe : Pipe Data Receiver) (receiver : Receiver) (values : List (Value Data)) :
    Pipe Data Receiver :=
  if (values.headD .nil).truthy then
    { pipe with
      receivers := Function.update pipe.receivers receiver .idle
      returned := pipe.returned ++ [(receiver, values)] }
  else
    pipe

/-- One attempt of `tryRecv` on behalf of `recv`. -/
def Pipe.attempt (serpent : Serpent (Table Data)) (limit : Nat) (pipe : Pipe Data Receiver)
    (receiver : Receiver) : Pipe Data Receiver :=
  match pipe.queue with
  | [] => loop pipe receiver []
  | buf :: rest =>
      match unpackAll limit (serpent.load (cString buf)) with
      | some values => loop { pipe with queue := rest } receiver values
      | none =>
          { pipe with
            queue := rest
            receivers := Function.update pipe.receivers receiver .failed }

/-- `slowPipe:send`. -/
def Pipe.send (serpent : Serpent (Table Data)) (pipe : Pipe Data Receiver)
    (args : List (Value Data)) : Pipe Data Receiver :=
  { pipe with
    queue := pipe.queue ++ [serpent.dump (pack args)]
    sent := pipe.sent ++ [args] }

def pipeNext (serpent : Serpent (Table Data)) (limit : Nat) (pipe : Pipe Data Receiver) :
    Label Data Receiver → Option (Pipe Data Receiver)
  | .send args => some (pipe.send serpent args)
  | .recv receiver =>
      if pipe.receivers receiver = .idle then
        some { pipe with receivers := Function.update pipe.receivers receiver .inRecv }
      else none
  | .attempt receiver =>
      if pipe.receivers receiver = .inRecv then some (pipe.attempt serpent limit receiver)
      else none

/-! ## Delivery -/

/-- What was taken from the queue was returned, in the order of the sends and
once each, up to trailing nils; the rest is still in the queue. -/
def Delivered (serpent : Serpent (Table Data)) (pipe : Pipe Data Receiver) : Prop :=
  ∃ taken pending, pipe.sent = taken ++ pending ∧
    pipe.returned.map Prod.snd = taken.map (fun args => (pack args).entries) ∧
    pipe.queue = pending.map (fun args => serpent.dump (pack args))

/-- The first value of the message is neither nil nor false, and `recv` can
return as many values. -/
def Deliverable (limit : Nat) (args : List (Value Data)) : Prop :=
  (args.headD .nil).truthy = true ∧ (pack args).entries.length ≤ limit

/-- The step sends no other messages. -/
def Label.SendsOnly (messages : Set (List (Value Data))) : Label Data Receiver → Prop
  | .send args => args ∈ messages
  | .recv _ => True
  | .attempt _ => True

/-- Packing does not change whether the first value counts as true. -/
theorem truthy_head_pack (args : List (Value Data)) :
    ((pack args).entries.headD .nil).truthy = (args.headD .nil).truthy := by
  obtain ⟨dropped, hargs⟩ : args.rdropWhile Value.isNil <+: args := List.rdropWhile_prefix _ _
  change ((args.rdropWhile Value.isNil).headD .nil).truthy = _
  cases hentries : args.rdropWhile Value.isNil with
  | nil =>
      -- only nils were sent
      rw [List.rdropWhile_eq_nil_iff] at hentries
      cases args with
      | nil => rfl
      | cons first rest =>
          have hfirst : first.isNil = true := hentries first List.mem_cons_self
          cases first <;> simp_all [Value.isNil, Value.truthy]
  | cons first rest =>
      rw [hentries] at hargs
      rw [← hargs]
      rfl

section Steps

variable {serpent : Serpent (Table Data)} {limit : Nat} {pipe : Pipe Data Receiver}
  {args : List (Value Data)} {rest : List LuaString}

/-- An attempt that takes a deliverable message returns it. -/
theorem attempt_deliverable (hqueue : pipe.queue = serpent.dump (pack args) :: rest)
    (hargs : Deliverable limit args) (receiver : Receiver) :
    pipe.attempt serpent limit receiver =
      { pipe with
        queue := rest
        receivers := Function.update pipe.receivers receiver .idle
        returned := pipe.returned ++ [(receiver, (pack args).entries)] } := by
  have hhead := (truthy_head_pack args).trans hargs.1
  simp only [Pipe.attempt, hqueue, serpent.cString_dump, serpent.load_dump, unpackAll,
    if_pos hargs.2, loop, hhead, if_true]

/-- One that takes any other message returns nothing. -/
theorem attempt_undeliverable (hqueue : pipe.queue = serpent.dump (pack args) :: rest)
    (hargs : ¬ Deliverable limit args) (receiver : Receiver) :
    (pipe.attempt serpent limit receiver).returned = pipe.returned ∧
      (pipe.attempt serpent limit receiver).queue = rest ∧
        (pipe.attempt serpent limit receiver).sent = pipe.sent := by
  simp only [Pipe.attempt, hqueue, serpent.cString_dump, serpent.load_dump, unpackAll]
  by_cases hlength : (pack args).entries.length ≤ limit
  · have hhead : ¬ ((pack args).entries.headD .nil).truthy = true := by
      rw [truthy_head_pack]
      exact fun htruthy => hargs ⟨htruthy, hlength⟩
    simp only [if_pos hlength, loop, if_neg hhead, and_self]
  · simp only [if_neg hlength, and_self]

theorem attempt_empty (hqueue : pipe.queue = []) (receiver : Receiver) :
    pipe.attempt serpent limit receiver = pipe := by
  simp [Pipe.attempt, hqueue, loop, Value.truthy]

/-- Delivery, with all that is in the queue deliverable. -/
def DeliveredFrom (serpent : Serpent (Table Data)) (messages : Set (List (Value Data)))
    (pipe : Pipe Data Receiver) : Prop :=
  ∃ taken pending, pipe.sent = taken ++ pending ∧
    pipe.returned.map Prod.snd = taken.map (fun args => (pack args).entries) ∧
    pipe.queue = pending.map (fun args => serpent.dump (pack args)) ∧
    ∀ args ∈ pending, args ∈ messages

omit [DecidableEq Receiver] in
theorem DeliveredFrom.delivered {messages : Set (List (Value Data))}
    (hpipe : DeliveredFrom serpent messages pipe) : Delivered serpent pipe := by
  obtain ⟨taken, pending, hsent, hreturned, hqueue, -⟩ := hpipe
  exact ⟨taken, pending, hsent, hreturned, hqueue⟩

omit [DecidableEq Receiver] in
theorem DeliveredFrom.send {messages : Set (List (Value Data))}
    (hpipe : DeliveredFrom serpent messages pipe) (hargs : args ∈ messages) :
    DeliveredFrom serpent messages (pipe.send serpent args) := by
  obtain ⟨taken, pending, hsent, hreturned, hqueue, hpending⟩ := hpipe
  refine ⟨taken, pending ++ [args], ?_, hreturned, ?_, ?_⟩
  · simp [Pipe.send, hsent]
  · simp [Pipe.send, hqueue]
  · intro message hmessage
    rcases List.mem_append.mp hmessage with hmem | hmem
    · exact hpending message hmem
    · rw [List.mem_singleton.mp hmem]
      exact hargs

theorem DeliveredFrom.attempt {messages : Set (List (Value Data))}
    (hpipe : DeliveredFrom serpent messages pipe)
    (hmessages : ∀ args ∈ messages, Deliverable limit args) (receiver : Receiver) :
    DeliveredFrom serpent messages (pipe.attempt serpent limit receiver) := by
  obtain ⟨taken, pending, hsent, hreturned, hqueue, hpending⟩ := hpipe
  cases pending with
  | nil =>
      rw [attempt_empty hqueue]
      exact ⟨taken, [], hsent, hreturned, hqueue, hpending⟩
  | cons args pending =>
      have hargs := hmessages args (hpending args List.mem_cons_self)
      rw [attempt_deliverable hqueue hargs]
      refine ⟨taken ++ [args], pending, ?_, ?_, rfl, ?_⟩
      · simp [hsent]
      · simp [hreturned]
      · exact fun message hmessage => hpending message (List.mem_cons_of_mem args hmessage)

theorem pipeNext_delivered {messages : Set (List (Value Data))}
    (hmessages : ∀ args ∈ messages, Deliverable limit args) {label : Label Data Receiver}
    {pipe' : Pipe Data Receiver} (hpipe : DeliveredFrom serpent messages pipe)
    (hlabel : label.SendsOnly messages) (hnext : pipeNext serpent limit pipe label = some pipe') :
    DeliveredFrom serpent messages pipe' := by
  cases label with
  | send args =>
      obtain rfl := Option.some.inj hnext
      exact hpipe.send hlabel
  | recv receiver =>
      obtain ⟨-, ⟨⟩⟩ := Option.ite_none_right_eq_some.mp hnext
      exact hpipe
  | attempt receiver =>
      obtain ⟨-, ⟨⟩⟩ := Option.ite_none_right_eq_some.mp hnext
      exact hpipe.attempt hmessages receiver

/-- A message that is not deliverable is lost by the first attempt that takes it. -/
theorem undeliverable_lost (hlost : ¬ Deliverable limit args) (receiver : Receiver) :
    ∃ pipe, runSchedule (pipeNext serpent limit) .new
        [.send args, .recv receiver, .attempt receiver] = some pipe ∧
      ¬ Delivered serpent pipe := by
  let sent : Pipe Data Receiver := Pipe.new.send serpent args
  let called : Pipe Data Receiver :=
    { sent with receivers := Function.update sent.receivers receiver .inRecv }
  refine ⟨called.attempt serpent limit receiver, ?_, ?_⟩
  · simp [runSchedule, pipeNext, Pipe.new, Pipe.send, called, sent]
  · rintro ⟨taken, pending, hsent, hreturned, hqueue⟩
    obtain ⟨hnone, hempty, hsame⟩ :=
      attempt_undeliverable (show called.queue = [serpent.dump (pack args)] from rfl) hlost receiver
    rw [hempty] at hqueue
    obtain rfl : pending = [] := List.map_eq_nil_iff.mp hqueue.symm
    rw [hnone, show called.returned = [] from rfl] at hreturned
    obtain rfl : taken = [] := List.map_eq_nil_iff.mp hreturned.symm
    rw [hsame] at hsent
    exact List.cons_ne_nil args [] hsent

end Steps

/-- Whatever the senders and receivers do, every message that leaves the queue is
returned by the call that took it, exactly when every message that is sent is
deliverable. -/
theorem slowPipe_delivers_iff (serpent : Serpent (Table Data)) (limit : Nat)
    (messages : Set (List (Value Data))) (receiver : Receiver) :
    (∀ (schedule : List (Label Data Receiver)) (pipe : Pipe Data Receiver),
        (∀ label ∈ schedule, label.SendsOnly messages) →
          runSchedule (pipeNext serpent limit) .new schedule = some pipe →
            Delivered serpent pipe) ↔
      ∀ args ∈ messages, Deliverable limit args := by
  constructor
  · intro hdelivers args hargs
    by_contra hlost
    obtain ⟨pipe, hrun, hnot⟩ := undeliverable_lost hlost receiver
    apply hnot (hdelivers _ pipe _ hrun)
    simp [Label.SendsOnly, hargs]
  · intro hmessages schedule pipe hlabels hrun
    have hpipe : DeliveredFrom serpent messages pipe := invariant_of_schedule
      (fun _ _ _ hpipe hlabel hnext => pipeNext_delivered hmessages hpipe hlabel hnext)
      ⟨[], [], rfl, rfl, rfl, by simp⟩ hlabels hrun
    exact hpipe.delivered

/-! ## A message that starts with false -/

/-- "{…,…}" for a table of booleans. -/
def tableBody (table : Table Empty) : LuaString :=
  0x7b :: ([0x2c].intercalate (table.entries.map literal) ++ [0x7d])

def evalTable (string : LuaString) : Table Empty :=
  let items := (string.drop 1).rdrop 1
  if items = [] then pack [] else pack ((items.splitOn 0x2c).map evalLiteral)

theorem pack_entries (table : Table Data) : pack table.entries = table := by
  ext1
  exact List.rdropWhile_eq_self_iff.mpr table.last_not_nil

theorem evalTable_tableBody (table : Table Empty) : evalTable (tableBody table) = table := by
  have hitems : ((tableBody table).drop 1).rdrop 1 =
      [0x2c].intercalate (table.entries.map literal) := by
    simp [tableBody, List.rdrop_concat_succ]
  rw [evalTable, hitems]
  split
  next hempty =>
      -- no literal is empty
      have hentries : table.entries = [] := by
        rcases hlist : table.entries with _ | ⟨first, _ | ⟨second, rest⟩⟩
        · rfl
        · rcases first with _ | ⟨_ | _⟩ | ⟨⟨⟩⟩ <;> simp [hlist, literal] at hempty
        · simp [hlist] at hempty
      rw [← pack_entries table, hentries]
  next hsome =>
      have hentries : table.entries.map literal ≠ [] := by
        intro hnil
        exact hsome (by rw [hnil, List.intercalate_nil])
      have hcomma : ∀ item ∈ table.entries.map literal, 0x2c ∉ item := by
        intro item hitem
        obtain ⟨value, -, rfl⟩ := List.mem_map.mp hitem
        rcases value with _ | ⟨_ | _⟩ | ⟨⟨⟩⟩ <;> decide
      rw [List.splitOn_intercalate _ hcomma hentries, List.map_map,
        show evalLiteral ∘ literal = id from funext evalLiteral_literal, List.map_id, pack_entries]

theorem tableBody_no_nul (table : Table Empty) : 0 ∉ tableBody table := by
  have hitems : ∀ values : List (Value Empty), 0 ∉ [0x2c].intercalate (values.map literal) := by
    intro values
    induction values with
    | nil => simp
    | cons first rest ih =>
        cases rest with
        | nil => simpa using literal_no_nul first
        | cons second rest =>
            simp only [List.map_cons, List.intercalate_cons_cons] at ih ⊢
            simp [literal_no_nul first, ih]
  simp [tableBody, hitems]

/-- Serpent on tables of booleans. -/
def tableSerpent : Serpent (Table Empty) :=
  .ofBody tableBody evalTable evalTable_tableBody tableBody_no_nul

/-- A message (false, true) is taken from the queue and never returned. -/
theorem false_first_lost :
    ¬ ∀ (Data : Type) (serpent : Serpent (Table Data)) (schedule : List (Label Data Unit))
      (pipe : Pipe Data Unit), runSchedule (pipeNext serpent 249) .new schedule = some pipe →
        Delivered serpent pipe := by
  intro halways
  have hfalse : ¬ Deliverable 249 [Value.boolean false, (.boolean true : Value Empty)] :=
    fun hargs => absurd hargs.1 (by decide)
  obtain ⟨pipe, hrun, hnot⟩ := undeliverable_lost hfalse ()
  exact hnot (halways Empty tableSerpent _ pipe hrun)

end Libmoon.InterTask
