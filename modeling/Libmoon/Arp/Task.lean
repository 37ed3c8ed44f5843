import Libmoon.Foundation.Interleaving
import Mathlib.Algebra.GroupWithZero.Nat
import Mathlib.Algebra.Order.Ring.Rat
import Mathlib.Data.Finmap
import Mathlib.Data.Fintype.Basic

/-! # The ARP table

The ARP task and the tasks that look up addresses share one namespace, the ARP
table. Every namespace operation is atomic; `forEach` holds the namespace's lock
while it visits the entries, and `arp.lookup` takes it to insert an entry. The
task handles replies and ticks: a tick visits every entry, sends requests, and
deletes afterwards, one by one, the entries it found timed out. Each clock
reading is an input of the step that takes it and never before an earlier one.

Besides the state of the program a world has a trace of what happened, newest
first. Answers to requests for our own addresses and gratuitous requests do not
touch the table and are left out, as are the flags in the same namespace that
start and stop the task: a visit skips them.
-/

namespace Libmoon.Arp

variable {Ip Mac Task : Type} [DecidableEq Ip] [DecidableEq Task] {nics : Nat}

/-! ## Entries -/

inductive EntryState where
  | pending
  | requested
  | refreshing
  | current
deriving DecidableEq

/-- A value of the table. -/
structure Entry (Mac : Type) where
  state : EntryState
  timestamp : ℚ
  mac : Option Mac
  updateTime : Option ℚ
  lookupTime : Option ℚ

/-- `ARP_AGING_TIME`. -/
def arpAgingTime : ℚ := 30

/-- What `arp.lookup` inserts. -/
def Entry.ofLookup (clock : ℚ) : Entry Mac where
  state := .pending
  timestamp := clock
  mac := none
  updateTime := none
  lookupTime := none

/-- What a reply stores. -/
def Entry.ofReply (mac : Mac) (timestamp updateTime : ℚ) : Entry Mac where
  state := .current
  timestamp := timestamp
  mac := some mac
  updateTime := some updateTime
  lookupTime := none

/-- What a tick does with an entry. -/
inductive Visit (Mac : Type) where
  | skip
  | timedOut
  | request (entry : Entry Mac)
  /-- Arithmetic on a field that is nil. -/
  | fail

/-- The callback of the tick, for an entry and the time it reads. -/
def visit (entry : Entry Mac) (ts : ℚ) : Visit Mac :=
  if entry.state = .current ∧ entry.timestamp + arpAgingTime > ts then
    .skip
  else if (entry.state = .requested ∨ entry.state = .refreshing) ∧ entry.timestamp + 1 > ts then
    .skip
  else
    match entry.state with
    | .refreshing | .requested =>
        match entry.lookupTime with
        | none => .fail
        | some lookupTime =>
            if lookupTime + arpAgingTime < ts then .timedOut
            else .request { entry with timestamp := ts }
    | .current =>
        .request { entry with state := .refreshing, lookupTime := some ts, timestamp := ts }
    | .pending =>
        .request { entry with state := .requested, lookupTime := some ts, timestamp := ts }

/-! ## Worlds -/

/-- The table: a map from addresses to entries. -/
abbrev Table (Ip Mac : Type) := Finmap fun _ : Ip => Entry Mac

/-- What happened, as far as the table is concerned. -/
inductive Event (Ip Mac : Type) (nics : Nat) where
  | reply (ip : Ip) (mac : Mac) (time : ℚ)
  /-- A tick starts with this table. -/
  | tick (table : Table Ip Mac)
  /-- The tick reads this time for the entry of this address. -/
  | visited (ip : Ip) (time : ℚ)
  /-- A current entry becomes refreshing. -/
  | refreshing (ip : Ip) (time : ℚ)
  | request (ip : Ip) (nic : Fin nics) (time : ℚ)
  /-- An entry is deleted that the tick found timed out at this time. -/
  | removed (ip : Ip) (time : ℚ)

/-- Where the ARP task is: between ticks, or with entries still to visit and
entries found timed out so far. -/
inductive Progress (Ip : Type) where
  | idle
  | ticking (todo : List Ip) (timedOut : List (Ip × ℚ))
  | crashed

/-- Where a task is with respect to `arp.lookup`. -/
inductive Lookup (Ip Mac : Type) where
  | ready
  /-- It read nothing for this address and is about to take the lock. -/
  | missing (ip : Ip)
  | returned (mac : Option Mac) (updateTime : Option ℚ)

structure World (Ip Mac Task : Type) (nics : Nat) where
  table : Table Ip Mac
  now : ℚ
  progress : Progress Ip
  lookups : Task → Lookup Ip Mac
  events : List (Event Ip Mac nics)

def World.initial (start : ℚ) : World Ip Mac Task nics where
  table := ∅
  now := start
  progress := .idle
  lookups := fun _ => .ready
  events := []

/-- `forEach` holds the lock of the namespace. -/
def World.locked (world : World Ip Mac Task nics) : Bool :=
  match world.progress with
  | .ticking (_ :: _) _ => true
  | _ => false

inductive Label (Ip Mac Task : Type) where
  | lookup (task : Task) (ip : Ip)
  | insert (task : Task) (clock : ℚ)
  | reply (ip : Ip) (mac : Mac) (timestamp updateTime : ℚ)
  | tick (order : List Ip)
  | visit (clock : ℚ)
  | delete
  | finish

/-- The first, unlocked read of `arp.lookup`. -/
def World.lookup (world : World Ip Mac Task nics) (task : Task) (ip : Ip) :
    World Ip Mac Task nics :=
  match world.table.lookup ip with
  | some entry =>
      { world with
        lookups := Function.update world.lookups task (.returned entry.mac entry.updateTime) }
  | none => { world with lookups := Function.update world.lookups task (.missing ip) }

/-- The locked part of `arp.lookup`. -/
def World.insert (world : World Ip Mac Task nics) (task : Task) (ip : Ip) (clock : ℚ) :
    World Ip Mac Task nics :=
  { world with
    table :=
      match world.table.lookup ip with
      | some _ => world.table
      | none => Finmap.insert ip (.ofLookup clock) world.table
    now := clock
    lookups := Function.update world.lookups task (.returned none none) }

/-- `handleArpPacket` for a reply. -/
def World.reply (world : World Ip Mac Task nics) (ip : Ip) (mac : Mac)
    (timestamp updateTime : ℚ) : World Ip Mac Task nics :=
  { world with
    table := world.table.insert ip (.ofReply mac timestamp updateTime)
    now := updateTime
    events := .reply ip mac timestamp :: world.events }

/-- The requests of one visit, one on every device, newest first. -/
def requests (ip : Ip) (ts : ℚ) : List (Event Ip Mac nics) :=
  (List.finRange nics).reverse.map fun nic => .request ip nic ts

/-- What one visit adds to the trace if it sends requests. -/
def requestEvents (ip : Ip) (entry : Entry Mac) (ts : ℚ) : List (Event Ip Mac nics) :=
  if entry.state = .current then requests ip ts ++ [.refreshing ip ts] else requests ip ts

/-- The visit to the next entry. -/
def World.visit (world : World Ip Mac Task nics) (ip : Ip) (entry : Entry Mac)
    (todo : List Ip) (timedOut : List (Ip × ℚ)) (ts : ℚ) : World Ip Mac Task nics :=
  let visited := { world with now := ts, events := .visited ip ts :: world.events }
  match Arp.visit entry ts with
  | .skip => { visited with progress := .ticking todo timedOut }
  | .timedOut => { visited with progress := .ticking todo (timedOut ++ [(ip, ts)]) }
  | .request updated =>
      { visited with
        table := world.table.insert ip updated
        progress := .ticking todo timedOut
        events := requestEvents ip entry ts ++ visited.events }
  | .fail => { visited with progress := .crashed }

/-- One step of one of the tasks. -/
def arpNext (world : World Ip Mac Task nics) :
    Label Ip Mac Task → Option (World Ip Mac Task nics)
  | .lookup task ip =>
      match world.lookups task with
      | .missing _ => none
      | _ => if world.locked then none else some (world.lookup task ip)
  | .insert task clock =>
      match world.lookups task with
      | .missing ip =>
          if world.locked = false ∧ world.now ≤ clock then some (world.insert task ip clock)
          else none
      | _ => none
  | .reply ip mac timestamp updateTime =>
      match world.progress with
      | .idle =>
          if world.now ≤ timestamp ∧ timestamp ≤ updateTime then
            some (world.reply ip mac timestamp updateTime)
          else none
      | _ => none
  | .tick order =>
      match world.progress with
      | .idle =>
          if order.Nodup ∧ order.toFinset = world.table.keys then
            some { world with
              progress := .ticking order []
              events := .tick world.table :: world.events }
          else none
      | _ => none
  | .visit clock =>
      match world.progress with
      | .ticking (ip :: todo) timedOut =>
          match world.table.lookup ip with
          | some entry =>
              if world.now ≤ clock then some (world.visit ip entry todo timedOut clock) else none
          | none => none
      | _ => none
  | .delete =>
      match world.progress with
      | .ticking [] ((ip, ts) :: timedOut) =>
          some { world with
            table := world.table.erase ip
            progress := .ticking [] timedOut
            events := .removed ip ts :: world.events }
      | _ => none
  | .finish =>
      match world.progress with
      | .ticking [] [] => some { world with progress := .idle }
      | _ => none

end Libmoon.Arp
