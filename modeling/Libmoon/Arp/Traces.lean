import Libmoon.Arp.Task
import Libmoon.Foundation.Trace
import Mathlib.Tactic.Linarith

/-! # Traces of the ARP table

What is promised of the ARP table, in terms of its trace: requests for an address
keep their distance, a learned address stays until its refresh has been
unanswered for too long, and every tick removes what is due. Below, what one
visit of a tick does to an entry and what it adds to the trace.
-/

namespace Libmoon.Arp

open Foundation

variable {Ip Mac Task : Type} [DecidableEq Ip] {nics : Nat}

/-! ## Reading the trace -/

def Event.requestOf (ip : Ip) : Event Ip Mac nics → Option (Option ℚ)
  | .request ip' _ time => if ip' = ip then some (some time) else none
  | _ => none

/-- When the latest request for the address was sent. -/
def lastRequest (events : List (Event Ip Mac nics)) (ip : Ip) : Option ℚ :=
  latest (Event.requestOf ip) events

def Event.macOf (ip : Ip) : Event Ip Mac nics → Option (Option Mac)
  | .reply ip' mac _ => if ip' = ip then some (some mac) else none
  | .removed ip' _ => if ip' = ip then some none else none
  | _ => none

/-- The address that the latest reply gave, unless the entry was removed since. -/
def learned (events : List (Event Ip Mac nics)) (ip : Ip) : Option Mac :=
  latest (Event.macOf ip) events

def Event.refreshOf (ip : Ip) : Event Ip Mac nics → Option (Option ℚ)
  | .refreshing ip' time => if ip' = ip then some (some time) else none
  | .reply ip' _ _ => if ip' = ip then some none else none
  | .removed ip' _ => if ip' = ip then some none else none
  | _ => none

/-- Since when the entry is refreshing without a reply. -/
def refreshingSince (events : List (Event Ip Mac nics)) (ip : Ip) : Option ℚ :=
  latest (Event.refreshOf ip) events

def Event.tickOf : Event Ip Mac nics → Option (Option (Table Ip Mac))
  | .tick table => some (some table)
  | _ => none

/-- The table that the latest tick started with. -/
def tickTable (events : List (Event Ip Mac nics)) : Option (Table Ip Mac) :=
  latest Event.tickOf events

/-- The events since the latest tick started. -/
def sinceTick (events : List (Event Ip Mac nics)) : List (Event Ip Mac nics) :=
  events.takeWhile fun event => event.tickOf.isNone

/-! ## The properties -/

/-- Two requests for one address are a second apart, or they were sent together
on different devices. -/
def Apart : Event Ip Mac nics → Event Ip Mac nics → Prop
  | .request ip nic time, .request ip' nic' time' =>
      ip = ip' → time' + 1 ≤ time ∨ (time' = time ∧ nic ≠ nic')
  | _, _ => True

def Spaced (events : List (Event Ip Mac nics)) : Prop := events.Pairwise Apart

/-- Whenever an entry with a learned address was removed, it had been refreshing
for more than `ARP_AGING_TIME`, with no reply in between. -/
def Justified : List (Event Ip Mac nics) → Prop
  | [] => True
  | .removed ip time :: older =>
      ((learned older ip).isSome →
        ∃ since, refreshingSince older ip = some since ∧ since + arpAgingTime < time) ∧
        Justified older
  | _ :: older => Justified older

/-- An entry that is older than the limit and whose last request is a second old. -/
def Due (entry : Entry Mac) (ts : ℚ) : Prop :=
  (entry.state = .requested ∨ entry.state = .refreshing) ∧
    (∃ lookupTime, entry.lookupTime = some lookupTime ∧ lookupTime + arpAgingTime < ts) ∧
    entry.timestamp + 1 ≤ ts

/-- Every entry that was in the table when the latest tick started was visited
by it, and removed by it if it was due. -/
def TickDone (events : List (Event Ip Mac nics)) : Prop :=
  ∀ table, tickTable events = some table → ∀ ip entry, table.lookup ip = some entry →
    ∃ ts, .visited ip ts ∈ sinceTick events ∧ (Due entry ts → .removed ip ts ∈ sinceTick events)

/-- What is promised of the ARP table. -/
structure LifeCycle (world : World Ip Mac Task nics) : Prop where
  lookupTime : ∀ ip entry, world.table.lookup ip = some entry →
    entry.state = .requested ∨ entry.state = .refreshing → entry.lookupTime.isSome
  spaced : Spaced world.events
  learned : ∀ ip mac, learned world.events ip = some mac →
    ∃ entry, world.table.lookup ip = some entry ∧ entry.mac = some mac ∧
      (entry.state = .current ∨ entry.state = .refreshing)
  justified : Justified world.events
  tickDone : world.progress = .idle → TickDone world.events

/-! ## One visit -/

theorem visit_of_pending {entry : Entry Mac} (hstate : entry.state = .pending) (ts : ℚ) :
    visit entry ts =
      .request { entry with state := .requested, lookupTime := some ts, timestamp := ts } := by
  simp [visit, hstate]

theorem visit_of_current {entry : Entry Mac} (hstate : entry.state = .current) (ts : ℚ) :
    visit entry ts =
      if entry.timestamp + arpAgingTime > ts then .skip
      else .request
        { entry with state := .refreshing, lookupTime := some ts, timestamp := ts } := by
  simp [visit, hstate]

/-- The entry waits for the answer to a request. -/
def Entry.Waiting (entry : Entry Mac) : Prop :=
  entry.state = .requested ∨ entry.state = .refreshing

theorem visit_of_waiting {entry : Entry Mac} (hwaiting : entry.Waiting) (ts : ℚ) :
    visit entry ts =
      if entry.timestamp + 1 > ts then .skip
      else
        match entry.lookupTime with
        | none => .fail
        | some lookupTime =>
            if lookupTime + arpAgingTime < ts then .timedOut
            else .request { entry with timestamp := ts } := by
  rcases hwaiting with hstate | hstate <;>
    cases hlookup : entry.lookupTime <;> simp [visit, hstate, hlookup]

theorem visit_timedOut_iff (entry : Entry Mac) (ts : ℚ) :
    visit entry ts = .timedOut ↔ Due entry ts := by
  cases hstate : entry.state with
  | pending => simp [visit_of_pending hstate, Due, hstate]
  | current =>
      rw [visit_of_current hstate]
      split <;> simp [Due, hstate]
  | requested | refreshing =>
      rw [visit_of_waiting (by simp [Entry.Waiting, hstate])]
      by_cases hrecent : entry.timestamp + 1 > ts
      · simp [Due, hrecent, not_le.mpr hrecent]
      · rw [if_neg hrecent]
        cases hlookup : entry.lookupTime with
        | none => simp [Due, hlookup]
        | some lookupTime =>
            have hold := not_lt.mp hrecent
            by_cases hlate : lookupTime + arpAgingTime < ts <;>
              simp [Due, hstate, hlookup, hlate, hold]

/-- A visit fails only at an entry that lacks the time it was looked up. -/
theorem waiting_of_visit_fail {entry : Entry Mac} {ts : ℚ} (hvisit : visit entry ts = .fail) :
    entry.Waiting ∧ entry.lookupTime = none := by
  cases hstate : entry.state with
  | pending => simp [visit_of_pending hstate] at hvisit
  | current =>
      rw [visit_of_current hstate] at hvisit
      split at hvisit <;> cases hvisit
  | requested | refreshing =>
      have hwaiting : entry.Waiting := by simp [Entry.Waiting, hstate]
      refine ⟨hwaiting, ?_⟩
      rw [visit_of_waiting hwaiting] at hvisit
      split at hvisit
      · cases hvisit
      · split at hvisit
        next hnone => exact hnone
        next => split at hvisit <;> cases hvisit

/-- How a visit that sends requests changes the entry. -/
inductive Requested (entry : Entry Mac) (ts : ℚ) : Entry Mac → Prop
  | first (hstate : entry.state = .pending) :
      Requested entry ts
        { entry with state := .requested, lookupTime := some ts, timestamp := ts }
  | refresh (hstate : entry.state = .current) (hold : entry.timestamp + arpAgingTime ≤ ts) :
      Requested entry ts
        { entry with state := .refreshing, lookupTime := some ts, timestamp := ts }
  | again (hwaiting : entry.Waiting) (hold : entry.timestamp + 1 ≤ ts) :
      Requested entry ts { entry with timestamp := ts }

theorem requested_of_visit {entry updated : Entry Mac} {ts : ℚ}
    (hvisit : visit entry ts = .request updated) : Requested entry ts updated := by
  cases hstate : entry.state with
  | pending =>
      rw [visit_of_pending hstate] at hvisit
      obtain rfl := Visit.request.inj hvisit
      exact .first hstate
  | current =>
      rw [visit_of_current hstate] at hvisit
      split at hvisit
      next => cases hvisit
      next hold =>
          obtain rfl := Visit.request.inj hvisit
          exact .refresh hstate (not_lt.mp hold)
  | requested | refreshing =>
      have hwaiting : entry.Waiting := by simp [Entry.Waiting, hstate]
      rw [visit_of_waiting hwaiting] at hvisit
      split at hvisit
      next => cases hvisit
      next hold =>
          split at hvisit
          next => cases hvisit
          next =>
              split at hvisit
              next => cases hvisit
              next =>
                  obtain rfl := Visit.request.inj hvisit
                  exact .again hwaiting (not_lt.mp hold)

/-! ## Traces and addresses -/

/-- The address that an event is about; the start of a tick is about none. -/
def Event.about : Event Ip Mac nics → Option Ip
  | .reply ip _ _ => some ip
  | .tick _ => none
  | .visited ip _ => some ip
  | .refreshing ip _ => some ip
  | .request ip _ _ => some ip
  | .removed ip _ => some ip

variable {events newer : List (Event Ip Mac nics)} {ip : Ip}

/-- What the trace tells about one address. -/
structure Told (Mac : Type) where
  requested : Option ℚ
  learned : Option Mac
  since : Option ℚ

def told (events : List (Event Ip Mac nics)) (ip : Ip) : Told Mac where
  requested := lastRequest events ip
  learned := learned events ip
  since := refreshingSince events ip

/-- Events about other addresses tell nothing about this one. -/
theorem told_append_of_about (hnewer : ∀ event ∈ newer, event.about ≠ some ip) :
    told (newer ++ events) ip = told events ip := by
  have hsilent : ∀ event ∈ newer,
      event.requestOf ip = none ∧ event.macOf ip = none ∧ event.refreshOf ip = none := by
    intro event hevent
    have habout := hnewer event hevent
    cases event <;>
      simp_all [Event.about, Event.requestOf, Event.macOf, Event.refreshOf]
  unfold told lastRequest learned refreshingSince
  rw [latest_append_of_silent fun event hevent => (hsilent event hevent).1,
    latest_append_of_silent fun event hevent => (hsilent event hevent).2.1,
    latest_append_of_silent fun event hevent => (hsilent event hevent).2.2]

theorem told_cons_of_about {event : Event Ip Mac nics} (hevent : event.about ≠ some ip) :
    told (event :: events) ip = told events ip :=
  told_append_of_about (by simpa using hevent : ∀ newer ∈ [event], newer.about ≠ some ip)

theorem told_visited (ip' : Ip) (ts : ℚ) :
    told (.visited ip' ts :: events) ip = told events ip := rfl

theorem told_reply (mac : Mac) (time : ℚ) :
    told (.reply ip mac time :: events) ip = ⟨lastRequest events ip, some mac, none⟩ := by
  simp [told, lastRequest, learned, refreshingSince, latest, Event.requestOf, Event.macOf,
    Event.refreshOf]

theorem told_removed (time : ℚ) :
    told (.removed ip time :: events) ip = ⟨lastRequest events ip, none, none⟩ := by
  simp [told, lastRequest, learned, refreshingSince, latest, Event.requestOf, Event.macOf,
    Event.refreshOf]

omit [DecidableEq Ip] in
theorem mem_requestEvents {entry : Entry Mac} {ts : ℚ} {event : Event Ip Mac nics} :
    event ∈ requestEvents ip entry ts ↔
      (∃ nic, event = .request ip nic ts) ∨
        (entry.state = .current ∧ event = .refreshing ip ts) := by
  unfold requestEvents
  split
  next hstate => simp [requests, hstate, eq_comm]
  next hstate => simp [requests, hstate, eq_comm]

theorem lastRequest_requestEvents (ip : Ip) (events : List (Event Ip Mac nics))
    (entry : Entry Mac) (ts : ℚ) :
    lastRequest (requestEvents ip entry ts ++ events) ip = some ts ∨
      lastRequest (requestEvents ip entry ts ++ events) ip = lastRequest events ip := by
  apply latest_append_of_tells
  intro event hevent
  rcases mem_requestEvents.mp hevent with ⟨nic, rfl⟩ | ⟨-, rfl⟩ <;> simp [Event.requestOf]

theorem learned_requestEvents (ip : Ip) (events : List (Event Ip Mac nics))
    (entry : Entry Mac) (ts : ℚ) :
    learned (requestEvents ip entry ts ++ events) ip = learned events ip := by
  apply latest_append_of_silent
  intro event hevent
  rcases mem_requestEvents.mp hevent with ⟨nic, rfl⟩ | ⟨-, rfl⟩ <;> rfl

theorem refreshingSince_requestEvents (ip : Ip) (events : List (Event Ip Mac nics))
    (entry : Entry Mac) (ts : ℚ) :
    refreshingSince (requestEvents ip entry ts ++ events) ip =
      if entry.state = .current then some ts else refreshingSince events ip := by
  have hsilent : ∀ event ∈ (requests ip ts : List (Event Ip Mac nics)),
      event.refreshOf ip = none := by
    intro event hevent
    obtain ⟨nic, -, rfl⟩ := List.mem_map.mp hevent
    rfl
  unfold requestEvents refreshingSince
  split
  next hstate =>
      rw [List.append_assoc, latest_append_of_silent hsilent]
      exact latest_cons_of_tells (by simp [Event.refreshOf]) events
  next hstate => exact latest_append_of_silent hsilent events

/-! ## The distance between requests -/

theorem Spaced.request_le (hspaced : Spaced events) {nic : Fin nics} {time : ℚ}
    (hmem : .request ip nic time ∈ events) :
    ∃ last, lastRequest events ip = some last ∧ time ≤ last := by
  induction events with
  | nil => simp at hmem
  | cons event older ih =>
      obtain ⟨hhead, holder⟩ := List.pairwise_cons.mp hspaced
      rcases List.mem_cons.mp hmem with rfl | hold
      · exact ⟨time, latest_cons_of_tells (by simp [Event.requestOf]) older, le_refl time⟩
      · obtain ⟨last, hlast, hle⟩ := ih holder hold
        by_cases hrequest : ∃ nic' time', event = .request ip nic' time'
        · obtain ⟨nic', time', rfl⟩ := hrequest
          refine ⟨time', latest_cons_of_tells (by simp [Event.requestOf]) older, ?_⟩
          have happart : Apart (.request ip nic' time') (.request ip nic time) := hhead _ hold
          rcases happart rfl with hlater | ⟨hsame, -⟩
          · linarith
          · exact hsame.le
        · refine ⟨last, ?_, hle⟩
          have hsilent : event.requestOf ip = none := by
            cases event <;> simp_all [Event.requestOf]
          rw [lastRequest, latest_cons_of_silent hsilent]
          exact hlast

theorem Spaced.afterRequests (hspaced : Spaced events) (entry : Entry Mac) {ts : ℚ}
    (hold : ∀ time, lastRequest events ip = some time → time + 1 ≤ ts) :
    Spaced (requestEvents ip entry ts ++ events) := by
  have htogether : (requests ip ts : List (Event Ip Mac nics)).Pairwise Apart := by
    rw [requests, List.pairwise_map]
    have hnodup : (List.finRange nics).reverse.Nodup :=
      List.nodup_reverse.mpr (List.nodup_finRange nics)
    exact hnodup.imp fun hne _ => .inr ⟨rfl, hne⟩
  apply List.pairwise_append.mpr
  refine ⟨?_, hspaced, ?_⟩
  · unfold requestEvents
    split
    · apply List.pairwise_append.mpr
      refine ⟨htogether, List.pairwise_singleton _ _, ?_⟩
      intro event _ refreshing hrefreshing
      rw [List.mem_singleton.mp hrefreshing]
      cases event <;> trivial
    · exact htogether
  · intro event hevent older holder
    rcases mem_requestEvents.mp hevent with ⟨nic, rfl⟩ | ⟨-, rfl⟩
    · cases older with
      | request ip' nic' time' =>
          rintro rfl
          obtain ⟨last, hlast, hle⟩ := hspaced.request_le holder
          have hdistance := hold last hlast
          exact .inl (by linarith)
      | _ => trivial
    · trivial

end Libmoon.Arp
