import Libmoon.Arp.Traces

/-! # The life cycle of table entries

What the trace says about an address (when it was last requested, which address
was last learned for it, since when its entry is refreshing) is tied to its entry
by one invariant that every step of every task keeps. The promises about the
trace follow from it.
-/

namespace Libmoon.Arp

open Foundation

variable {Ip Mac Task : Type} [DecidableEq Ip] {nics : Nat}
variable {events newer : List (Event Ip Mac nics)} {ip : Ip}

/-! ## The entry of an address -/

/-- The latest request was sent no later than this. -/
def Told.RequestedBy (told : Told Mac) (time : ℚ) : Prop :=
  ∀ requested, told.requested = some requested → requested ≤ time

/-- What the trace tells about an address, given its entry. -/
inductive Kept (told : Told Mac) (now : ℚ) : Option (Entry Mac) → Prop
  | absent (hlearned : told.learned = none) (hquiet : told.RequestedBy (now - 1)) :
      Kept told now none
  | pending {entry : Entry Mac} (hstate : entry.state = .pending) (hmac : entry.mac = none)
      (hlearned : told.learned = none) (hquiet : told.RequestedBy (now - 1)) :
      Kept told now (some entry)
  | requested {entry : Entry Mac} {lookupTime : ℚ} (hstate : entry.state = .requested)
      (hmac : entry.mac = none) (hlookup : entry.lookupTime = some lookupTime)
      (hlearned : told.learned = none) (hlast : told.RequestedBy entry.timestamp) :
      Kept told now (some entry)
  | refreshing {entry : Entry Mac} {mac : Mac} {lookupTime : ℚ}
      (hstate : entry.state = .refreshing) (hmac : entry.mac = some mac)
      (hlookup : entry.lookupTime = some lookupTime) (hlearned : told.learned = some mac)
      (hsince : told.since = some lookupTime) (hlast : told.RequestedBy entry.timestamp) :
      Kept told now (some entry)
  | current {entry : Entry Mac} {mac : Mac} (hstate : entry.state = .current)
      (hmac : entry.mac = some mac) (hlearned : told.learned = some mac)
      (hlast : told.RequestedBy entry.timestamp) : Kept told now (some entry)

section Kept

variable {told : Told Mac} {now now' ts : ℚ} {entry : Entry Mac}

theorem Told.RequestedBy.mono (hlast : told.RequestedBy now) (hle : now ≤ now') :
    told.RequestedBy now' := fun requested hrequested => (hlast requested hrequested).trans hle

theorem Kept.mono {held : Option (Entry Mac)} (hkept : Kept told now held) (hle : now ≤ now') :
    Kept told now' held := by
  have hquiet' : told.RequestedBy (now - 1) → told.RequestedBy (now' - 1) :=
    fun hquiet => hquiet.mono (by linarith)
  cases hkept with
  | absent hlearned hquiet => exact .absent hlearned (hquiet' hquiet)
  | pending hstate hmac hlearned hquiet => exact .pending hstate hmac hlearned (hquiet' hquiet)
  | requested hstate hmac hlookup hlearned hlast =>
      exact .requested hstate hmac hlookup hlearned hlast
  | refreshing hstate hmac hlookup hlearned hsince hlast =>
      exact .refreshing hstate hmac hlookup hlearned hsince hlast
  | current hstate hmac hlearned hlast => exact .current hstate hmac hlearned hlast

theorem Kept.lookupTime (hkept : Kept told now (some entry)) (hwaiting : entry.Waiting) :
    ∃ lookupTime, entry.lookupTime = some lookupTime := by
  cases hkept with
  | pending hstate | current hstate => simp [Entry.Waiting, hstate] at hwaiting
  | requested _ _ hlookup | refreshing _ _ hlookup => exact ⟨_, hlookup⟩

theorem Kept.learned {held : Option (Entry Mac)} (hkept : Kept told now held) {mac : Mac}
    (hlearned : told.learned = some mac) :
    ∃ entry, held = some entry ∧ entry.mac = some mac ∧
      (entry.state = .current ∨ entry.state = .refreshing) := by
  cases hkept with
  | absent hnone | pending _ _ hnone | requested _ _ _ hnone => simp [hnone] at hlearned
  | refreshing hstate hmac _ hsome =>
      exact ⟨_, rfl, by rw [hmac, ← hsome, hlearned], .inr hstate⟩
  | current hstate hmac hsome =>
      exact ⟨_, rfl, by rw [hmac, ← hsome, hlearned], .inl hstate⟩

/-- A request is never sent within a second of the last one. -/
theorem Kept.requestedBy_of_requested (hkept : Kept told now (some entry)) (hnow : now ≤ ts)
    {updated : Entry Mac} (hrequested : Requested entry ts updated) :
    told.RequestedBy (ts - 1) := by
  have hlong : (1 : ℚ) ≤ arpAgingTime := by norm_num [arpAgingTime]
  cases hrequested with
  | first hfirst =>
      cases hkept with
      | pending _ _ _ hquiet => exact hquiet.mono (by linarith)
      | requested hstate | refreshing hstate | current hstate => simp [hstate] at hfirst
  | refresh hcurrent hold =>
      cases hkept with
      | current _ _ _ hlast => exact hlast.mono (by linarith)
      | pending hstate | requested hstate | refreshing hstate => simp [hstate] at hcurrent
  | again hwaiting hold =>
      cases hkept with
      | requested _ _ _ _ hlast | refreshing _ _ _ _ _ hlast => exact hlast.mono (by linarith)
      | pending hstate | current hstate => simp [Entry.Waiting, hstate] at hwaiting

/-- The entry that is removed when it is due, and what the trace tells about it. -/
theorem Kept.of_due (hkept : Kept told now (some entry)) (hdue : Due entry ts) :
    told.RequestedBy (ts - 1) ∧
      (told.learned.isSome → ∃ since, told.since = some since ∧ since + arpAgingTime < ts) := by
  obtain ⟨hwaiting, ⟨lookupTime, hlookup', hlate⟩, hold⟩ := hdue
  cases hkept with
  | pending hstate | current hstate => simp [hstate] at hwaiting
  | requested _ _ _ hlearned hlast =>
      exact ⟨hlast.mono (by linarith), by simp [hlearned]⟩
  | refreshing _ _ hlookup _ hsince hlast =>
      refine ⟨hlast.mono (by linarith), fun _ => ⟨_, hsince, ?_⟩⟩
      rw [hlookup] at hlookup'
      obtain rfl := Option.some.inj hlookup'
      exact hlate

end Kept

theorem requestedBy_afterRequests {ts : ℚ} (entry : Entry Mac)
    (hbefore : (told events ip).RequestedBy (ts - 1)) :
    (told (requestEvents ip entry ts ++ .visited ip ts :: events) ip).RequestedBy ts := by
  intro requested hlast
  rcases lastRequest_requestEvents ip (.visited ip ts :: events) entry ts with hnew | hold
  · exact (Option.some.inj (hlast.symm.trans hnew)).le
  · have hle := hbefore requested (hold.symm.trans hlast)
    linarith

/-- The requested entry is kept again, now by the longer trace. -/
theorem Kept.afterRequests {now ts : ℚ} {entry updated : Entry Mac}
    (hkept : Kept (told events ip) now (some entry)) (hnow : now ≤ ts)
    (hrequested : Requested entry ts updated) :
    Kept (told (requestEvents ip entry ts ++ .visited ip ts :: events) ip) ts (some updated) := by
  have hlast := requestedBy_afterRequests entry (hkept.requestedBy_of_requested hnow hrequested)
  have hlearned := learned_requestEvents ip (.visited ip ts :: events) entry ts
  have hsince := refreshingSince_requestEvents ip (.visited ip ts :: events) entry ts
  cases hrequested with
  | first hfirst =>
      cases hkept with
      | pending _ hmac hnone =>
          exact .requested rfl hmac rfl (hlearned.trans hnone) hlast
      | requested hstate | refreshing hstate | current hstate => simp [hstate] at hfirst
  | refresh hcurrent =>
      cases hkept with
      | current _ hmac hsome =>
          rw [if_pos hcurrent] at hsince
          exact .refreshing rfl hmac rfl (hlearned.trans hsome) hsince hlast
      | pending hstate | requested hstate | refreshing hstate => simp [hstate] at hcurrent
  | again hwaiting =>
      cases hkept with
      | requested hstate hmac hlookup hnone =>
          exact .requested hstate hmac hlookup (hlearned.trans hnone) hlast
      | refreshing hstate hmac hlookup hsome hsince' =>
          rw [if_neg (by simp [hstate])] at hsince
          exact .refreshing hstate hmac hlookup (hlearned.trans hsome) (hsince.trans hsince') hlast
      | pending hstate | current hstate => simp [Entry.Waiting, hstate] at hwaiting

/-! ## The tick under way -/

omit [DecidableEq Ip] in
theorem tickTable_append (hnewer : ∀ event ∈ newer, event.tickOf = none) :
    tickTable (newer ++ events) = tickTable events := latest_append_of_silent hnewer events

omit [DecidableEq Ip] in
theorem sinceTick_append (hnewer : ∀ event ∈ newer, event.tickOf = none) :
    sinceTick (newer ++ events) = newer ++ sinceTick events := by
  apply List.takeWhile_append_of_pos
  intro event hevent
  rw [hnewer event hevent]
  rfl

theorem justified_append (hnewer : ∀ event ∈ newer, ∀ ip time, event ≠ .removed ip time) :
    Justified (newer ++ events) ↔ Justified events := by
  induction newer with
  | nil => rfl
  | cons event rest ih =>
      have hrest := ih fun later hlater => hnewer later (List.mem_cons_of_mem event hlater)
      have hevent := hnewer event List.mem_cons_self
      cases event <;> simp_all [Justified]

/-- The latest tick visited the address and, if its entry was due, removed it or
is going to. -/
def Handled (events : List (Event Ip Mac nics)) (timedOut : List (Ip × ℚ)) (ip : Ip)
    (entry : Entry Mac) : Prop :=
  ∃ ts, .visited ip ts ∈ sinceTick events ∧
    (Due entry ts → (ip, ts) ∈ timedOut ∨ .removed ip ts ∈ sinceTick events)

/-- A tick with entries still to visit and entries still to delete. -/
structure Ticking (world : World Ip Mac Task nics) (todo : List Ip)
    (timedOut : List (Ip × ℚ)) : Prop where
  distinct : (todo ++ timedOut.map Prod.fst).Nodup
  handled : ∀ table, tickTable world.events = some table →
    ∀ ip entry, table.lookup ip = some entry →
      (ip ∈ todo ∧ world.table.lookup ip = some entry) ∨
        Handled world.events timedOut ip entry
  due : ∀ ip ts, (ip, ts) ∈ timedOut →
    ts ≤ world.now ∧ ∃ entry, world.table.lookup ip = some entry ∧ Due entry ts

def TickOk (world : World Ip Mac Task nics) : Prop :=
  match world.progress with
  | .idle => TickDone world.events
  | .ticking todo timedOut => Ticking world todo timedOut
  | .crashed => False

omit [DecidableEq Ip] in
theorem Handled.mono {timedOut timedOut' : List (Ip × ℚ)} {entry : Entry Mac}
    (hhandled : Handled events timedOut ip entry)
    (hnewer : ∀ event ∈ newer, event.tickOf = none)
    (hout : ∀ pair ∈ timedOut, pair ∈ timedOut') :
    Handled (newer ++ events) timedOut' ip entry := by
  obtain ⟨ts, hvisited, hdue⟩ := hhandled
  refine ⟨ts, ?_, fun h => ?_⟩
  · rw [sinceTick_append hnewer]
    exact List.mem_append_right newer hvisited
  · rw [sinceTick_append hnewer]
    exact (hdue h).imp (hout _) (List.mem_append_right newer)

/-- The visit of the next entry, whatever it does with it. -/
theorem Ticking.advance {world world' : World Ip Mac Task nics} {todo : List Ip}
    {timedOut timedOut' : List (Ip × ℚ)} {entry : Entry Mac} {ts : ℚ}
    (hticking : Ticking world (ip :: todo) timedOut) (newer : List (Event Ip Mac nics))
    (hentry : world.table.lookup ip = some entry) (hnow : world.now ≤ world'.now)
    (htable : ∀ other, other ≠ ip → world'.table.lookup other = world.table.lookup other)
    (hevents : world'.events = newer ++ world.events)
    (hnewer : ∀ event ∈ newer, event.tickOf = none) (hvisited : .visited ip ts ∈ newer)
    (hdistinct : (todo ++ timedOut'.map Prod.fst).Nodup)
    (hout : ∀ pair ∈ timedOut, pair ∈ timedOut') (hdue : Due entry ts → (ip, ts) ∈ timedOut')
    (hnew : ∀ pair ∈ timedOut', pair ∈ timedOut ∨
      (pair = (ip, ts) ∧ Due entry ts ∧ world'.table.lookup ip = some entry ∧ ts ≤ world'.now)) :
    Ticking world' todo timedOut' := by
  have hfresh := hticking.distinct
  rw [List.cons_append, List.nodup_cons] at hfresh
  refine ⟨hdistinct, ?_, ?_⟩
  · intro table hstart other entry' hentry'
    rw [hevents, tickTable_append hnewer] at hstart
    rw [hevents]
    rcases hticking.handled table hstart other entry' hentry' with ⟨htodo, hlookup⟩ | hhandled
    · rcases List.mem_cons.mp htodo with rfl | hrest
      · -- this is the entry that was visited
        obtain rfl : entry' = entry := Option.some.inj (hlookup.symm.trans hentry)
        refine .inr ⟨ts, ?_, fun h => .inl (hdue h)⟩
        rw [sinceTick_append hnewer]
        exact List.mem_append_left _ hvisited
      · have hne : other ≠ ip := by
          rintro rfl
          exact hfresh.1 (List.mem_append_left _ hrest)
        exact .inl ⟨hrest, (htable other hne).trans hlookup⟩
    · exact .inr (hhandled.mono hnewer hout)
  · intro other ts' hpair
    rcases hnew _ hpair with hold | ⟨heq, hdue', hlookup, hle⟩
    · obtain ⟨hle, entry', hlookup, hdue'⟩ := hticking.due other ts' hold
      have hne : other ≠ ip := by
        rintro rfl
        exact hfresh.1 (List.mem_append_right _ (List.mem_map_of_mem hold))
      exact ⟨hle.trans hnow, entry', (htable other hne).trans hlookup, hdue'⟩
    · obtain ⟨rfl, rfl⟩ := Prod.mk.inj heq
      exact ⟨hle, entry, hlookup, hdue'⟩

/-! ## Steps -/

/-- The invariant of the ARP table. -/
structure Consistent (world : World Ip Mac Task nics) : Prop where
  past : ∀ ip, (told world.events ip).RequestedBy world.now
  kept : ∀ ip, Kept (told world.events ip) world.now (world.table.lookup ip)
  spaced : Spaced world.events
  justified : Justified world.events
  tick : TickOk world

section Steps

variable {world : World Ip Mac Task nics}

theorem initial_consistent (start : ℚ) :
    Consistent (World.initial start : World Ip Mac Task nics) := by
  refine ⟨fun _ => nofun, fun ip => ?_, List.Pairwise.nil, trivial, fun _ => nofun⟩
  exact .absent rfl nofun

theorem Consistent.lookups (hworld : Consistent world) (lookups : Task → Lookup Ip Mac) :
    Consistent { world with lookups := lookups } := by
  refine ⟨hworld.past, hworld.kept, hworld.spaced, hworld.justified, ?_⟩
  have htick := hworld.tick
  unfold TickOk at htick ⊢
  cases hprogress : world.progress with
  | idle => simpa [hprogress] using htick
  | crashed => simp [hprogress] at htick
  | ticking todo timedOut =>
      simp only [hprogress] at htick ⊢
      exact ⟨htick.distinct, htick.handled, htick.due⟩

theorem Consistent.lookup [DecidableEq Task] (hworld : Consistent world) (task : Task) (ip : Ip) :
    Consistent (world.lookup task ip) := by
  unfold World.lookup
  split <;> exact hworld.lookups _

/-- While the lock is free, a tick has nothing left to visit. -/
theorem Consistent.insert [DecidableEq Task] (hworld : Consistent world)
    (hfree : world.locked = false) (task : Task) (ip : Ip) {clock : ℚ} (hclock : world.now ≤ clock) :
    Consistent (world.insert task ip clock) := by
  have hpresent : ∀ other entry, world.table.lookup other = some entry →
      (world.insert task ip clock).table.lookup other = some entry := by
    intro other entry hentry
    simp only [World.insert]
    -- an address that is in the table is left alone
    cases hip : world.table.lookup ip with
    | some _ => exact hentry
    | none =>
        have hne : other ≠ ip := by
          rintro rfl
          simp [hip] at hentry
        exact (Finmap.lookup_insert_of_ne _ hne).trans hentry
  refine ⟨fun other => (hworld.past other).mono hclock, ?_, hworld.spaced, hworld.justified, ?_⟩
  · intro other
    have hkept := (hworld.kept other).mono hclock
    simp only [World.insert]
    cases hip : world.table.lookup ip with
    | some _ => exact hkept
    | none =>
        by_cases hother : other = ip
        · subst hother
          rw [hip] at hkept
          rw [Finmap.lookup_insert]
          cases hkept with
          | absent hlearned hquiet => exact .pending rfl rfl hlearned hquiet
        · rw [Finmap.lookup_insert_of_ne _ hother]
          exact hkept
  · have htick := hworld.tick
    unfold TickOk at htick ⊢
    unfold World.locked at hfree
    simp only [World.insert]
    split at hfree
    next => cases hfree
    next hnot =>
        cases hprogress : world.progress with
        | idle => simpa [hprogress] using htick
        | crashed => simp [hprogress] at htick
        | ticking todo timedOut =>
            cases todo with
            | cons ip todo => exact absurd hprogress (hnot _ _ _)
            | nil =>
                simp only [hprogress] at htick
                refine ⟨htick.distinct, ?_, ?_⟩
                · intro table hstart other entry hentry
                  rcases htick.handled table hstart other entry hentry with ⟨htodo, -⟩ | hhandled
                  · simp at htodo
                  · exact .inr hhandled
                · intro other ts hpair
                  obtain ⟨hle, entry, hentry, hdue⟩ := htick.due other ts hpair
                  exact ⟨hle.trans hclock, entry, hpresent other entry hentry, hdue⟩

theorem Consistent.reply (hworld : Consistent world) (hidle : world.progress = .idle) (ip : Ip)
    (mac : Mac) {timestamp updateTime : ℚ} (hclock : world.now ≤ timestamp)
    (hupdate : timestamp ≤ updateTime) : Consistent (world.reply ip mac timestamp updateTime) := by
  have hlater : world.now ≤ updateTime := hclock.trans hupdate
  refine ⟨?_, ?_, ?_, hworld.justified, ?_⟩
  · intro other requested hrequested
    exact ((hworld.past other) requested hrequested).trans hlater
  · intro other
    simp only [World.reply]
    by_cases hother : other = ip
    · subst hother
      rw [told_reply, Finmap.lookup_insert]
      exact .current rfl rfl rfl ((hworld.past other).mono hclock)
    · rw [told_cons_of_about (by simpa [Event.about] using Ne.symm hother),
        Finmap.lookup_insert_of_ne _ hother]
      exact (hworld.kept other).mono hlater
  · exact List.pairwise_cons.mpr ⟨fun event _ => trivial, hworld.spaced⟩
  · have htick := hworld.tick
    simp only [TickOk, World.reply, hidle] at htick ⊢
    intro table hstart other entry hentry
    obtain ⟨ts, hvisited, hdue⟩ := htick table hstart other entry hentry
    exact ⟨ts, List.mem_cons_of_mem _ hvisited, fun h => List.mem_cons_of_mem _ (hdue h)⟩

theorem Consistent.startTick (hworld : Consistent world) {order : List Ip}
    (hnodup : order.Nodup) (horder : order.toFinset = world.table.keys) :
    Consistent { world with
      progress := .ticking order []
      events := .tick world.table :: world.events } := by
  refine ⟨hworld.past, hworld.kept, ?_, hworld.justified, ?_⟩
  · exact List.pairwise_cons.mpr ⟨fun event _ => trivial, hworld.spaced⟩
  · refine ⟨by simpa using hnodup, ?_, by simp⟩
    intro table hstart ip entry hentry
    obtain rfl : world.table = table := Option.some.inj hstart
    refine .inl ⟨?_, hentry⟩
    rw [← List.mem_toFinset, horder, Finmap.mem_keys]
    exact Finmap.mem_of_lookup_eq_some hentry

section Visits

variable {ip : Ip} {entry : Entry Mac} {todo : List Ip} {timedOut : List (Ip × ℚ)} {ts : ℚ}

/-- A visit that leaves the table alone. -/
theorem Consistent.visited {timedOut' : List (Ip × ℚ)} (hworld : Consistent world)
    (hclock : world.now ≤ ts)
    (hticking : Ticking
      { world with now := ts, events := .visited ip ts :: world.events } todo timedOut') :
    Consistent { world with
      now := ts
      events := .visited ip ts :: world.events
      progress := .ticking todo timedOut' } := by
  refine ⟨fun other => (hworld.past other).mono hclock,
    fun other => (hworld.kept other).mono hclock,
    List.pairwise_cons.mpr ⟨fun event _ => trivial, hworld.spaced⟩, hworld.justified, ?_⟩
  exact ⟨hticking.distinct, hticking.handled, hticking.due⟩

theorem Ticking.skip (hticking : Ticking world (ip :: todo) timedOut)
    (hentry : world.table.lookup ip = some entry) (hclock : world.now ≤ ts)
    (hnotDue : ¬ Due entry ts) :
    Ticking { world with now := ts, events := .visited ip ts :: world.events } todo timedOut :=
  hticking.advance [.visited ip ts] hentry hclock (fun _ _ => rfl) rfl (by simp [Event.tickOf])
    List.mem_cons_self (List.nodup_cons.mp hticking.distinct).2 (fun _ => id)
    (fun hdue => absurd hdue hnotDue) (fun _ => .inl)

theorem Ticking.timeOut (hticking : Ticking world (ip :: todo) timedOut)
    (hentry : world.table.lookup ip = some entry) (hclock : world.now ≤ ts)
    (hdue : Due entry ts) :
    Ticking { world with now := ts, events := .visited ip ts :: world.events } todo
      (timedOut ++ [(ip, ts)]) := by
  refine hticking.advance [.visited ip ts] hentry hclock (fun _ _ => rfl) rfl
    (by simp [Event.tickOf]) List.mem_cons_self ?_ (fun _ => List.mem_append_left _)
    (fun _ => by simp) ?_
  · rw [List.map_append, ← List.append_assoc]
    exact (List.perm_append_singleton ip _).nodup_iff.mpr hticking.distinct
  · intro pair hpair
    rcases List.mem_append.mp hpair with hold | hnew
    · exact .inl hold
    · exact .inr ⟨List.mem_singleton.mp hnew, hdue, hentry, le_refl ts⟩

theorem told_afterRequests_of_ne {other : Ip} (hne : other ≠ ip) (entry : Entry Mac) (ts : ℚ) :
    told (requestEvents ip entry ts ++ .visited ip ts :: events) other = told events other := by
  rw [told_append_of_about, told_visited]
  intro event hevent
  rcases mem_requestEvents.mp hevent with ⟨nic, rfl⟩ | ⟨-, rfl⟩ <;>
    simpa [Event.about] using Ne.symm hne

theorem Ticking.request (hticking : Ticking world (ip :: todo) timedOut)
    (hentry : world.table.lookup ip = some entry) (hclock : world.now ≤ ts)
    (hnotDue : ¬ Due entry ts) (updated : Entry Mac) :
    Ticking { world with
      table := world.table.insert ip updated
      now := ts
      events := requestEvents ip entry ts ++ .visited ip ts :: world.events } todo timedOut := by
  refine hticking.advance (requestEvents ip entry ts ++ [.visited ip ts]) hentry hclock
    (fun other hne => Finmap.lookup_insert_of_ne _ hne) (by simp) ?_ (by simp)
    (List.nodup_cons.mp hticking.distinct).2 (fun _ => id) (fun hdue => absurd hdue hnotDue)
    (fun _ => .inl)
  intro event hevent
  rcases List.mem_append.mp hevent with hrequest | hvisited
  · rcases mem_requestEvents.mp hrequest with ⟨nic, rfl⟩ | ⟨-, rfl⟩ <;> rfl
  · rw [List.mem_singleton.mp hvisited]
    rfl

/-- A visit that sends requests. -/
theorem Consistent.request (hworld : Consistent world)
    (hticking : Ticking world (ip :: todo) timedOut)
    (hentry : world.table.lookup ip = some entry) (hclock : world.now ≤ ts)
    {updated : Entry Mac} (hvisit : visit entry ts = .request updated) :
    Consistent { world with
      table := world.table.insert ip updated
      now := ts
      events := requestEvents ip entry ts ++ .visited ip ts :: world.events
      progress := .ticking todo timedOut } := by
  have hrequested := requested_of_visit hvisit
  have hkept : Kept (told world.events ip) world.now (some entry) := hentry ▸ hworld.kept ip
  have hrecent := hkept.requestedBy_of_requested hclock hrequested
  have hnotDue : ¬ Due entry ts := fun hdue => by
    simp [(visit_timedOut_iff entry ts).mpr hdue] at hvisit
  refine ⟨?_, ?_, ?_, ?_, ?_⟩
  · intro other
    by_cases hne : other = ip
    · subst hne
      exact requestedBy_afterRequests entry hrecent
    · simp only [told_afterRequests_of_ne hne]
      exact (hworld.past other).mono hclock
  · intro other
    by_cases hne : other = ip
    · subst hne
      simp only [Finmap.lookup_insert]
      exact hkept.afterRequests hclock hrequested
    · simp only [told_afterRequests_of_ne hne, Finmap.lookup_insert_of_ne _ hne]
      exact (hworld.kept other).mono hclock
  · have hvisited : Spaced (.visited ip ts :: world.events) :=
      List.pairwise_cons.mpr ⟨fun event _ => trivial, hworld.spaced⟩
    refine hvisited.afterRequests entry fun time htime => ?_
    have hle := hrecent time htime
    linarith
  · refine (justified_append ?_).mpr hworld.justified
    intro event hevent
    rcases mem_requestEvents.mp hevent with ⟨nic, rfl⟩ | ⟨-, rfl⟩ <;> simp
  · have hnext := hticking.request hentry hclock hnotDue updated
    exact ⟨hnext.distinct, hnext.handled, hnext.due⟩

theorem Consistent.visit (hworld : Consistent world)
    (hprogress : world.progress = .ticking (ip :: todo) timedOut)
    (hentry : world.table.lookup ip = some entry) (hclock : world.now ≤ ts) :
    Consistent (world.visit ip entry todo timedOut ts) := by
  have hticking : Ticking world (ip :: todo) timedOut := by
    simpa only [TickOk, hprogress] using hworld.tick
  unfold World.visit
  cases hvisit : Arp.visit entry ts with
  | skip =>
      have hnotDue : ¬ Due entry ts := fun hdue => by
        simp [(visit_timedOut_iff entry ts).mpr hdue] at hvisit
      exact hworld.visited hclock (hticking.skip hentry hclock hnotDue)
  | timedOut =>
      have hdue : Due entry ts := (visit_timedOut_iff entry ts).mp hvisit
      exact hworld.visited hclock (hticking.timeOut hentry hclock hdue)
  | request updated => exact hworld.request hticking hentry hclock hvisit
  | fail =>
      have hkept : Kept (told world.events ip) world.now (some entry) := hentry ▸ hworld.kept ip
      obtain ⟨hwaiting, hnone⟩ := waiting_of_visit_fail hvisit
      obtain ⟨lookupTime, hsome⟩ := hkept.lookupTime hwaiting
      simp [hnone] at hsome

theorem Ticking.delete (hticking : Ticking world [] ((ip, ts) :: timedOut)) :
    Ticking { world with
      table := world.table.erase ip
      events := .removed ip ts :: world.events } [] timedOut := by
  have hdistinct := List.nodup_cons.mp hticking.distinct
  refine ⟨hdistinct.2, ?_, ?_⟩
  · intro table hstart other entry hentry
    rcases hticking.handled table hstart other entry hentry with ⟨htodo, -⟩ | ⟨ts', hvisited, hdue⟩
    · simp at htodo
    · refine .inr ⟨ts', List.mem_cons_of_mem _ hvisited, fun h => ?_⟩
      rcases hdue h with hpair | hremoved
      · rcases List.mem_cons.mp hpair with heq | hrest
        · obtain ⟨rfl, rfl⟩ := Prod.mk.inj heq
          exact .inr List.mem_cons_self
        · exact .inl hrest
      · exact .inr (List.mem_cons_of_mem _ hremoved)
  · intro other ts' hpair
    obtain ⟨hle, entry, hentry, hdue⟩ := hticking.due other ts' (List.mem_cons_of_mem _ hpair)
    have hne : other ≠ ip := by
      rintro rfl
      exact hdistinct.1 (List.mem_map.mpr ⟨_, hpair, rfl⟩)
    exact ⟨hle, entry, (Finmap.lookup_erase_ne hne).trans hentry, hdue⟩

theorem Consistent.delete (hworld : Consistent world)
    (hprogress : world.progress = .ticking [] ((ip, ts) :: timedOut)) :
    Consistent { world with
      table := world.table.erase ip
      progress := .ticking [] timedOut
      events := .removed ip ts :: world.events } := by
  have hticking : Ticking world [] ((ip, ts) :: timedOut) := by
    simpa only [TickOk, hprogress] using hworld.tick
  obtain ⟨hle, entry, hentry, hdue⟩ := hticking.due ip ts List.mem_cons_self
  have hkept : Kept (told world.events ip) world.now (some entry) := hentry ▸ hworld.kept ip
  obtain ⟨hquiet, hlong⟩ := hkept.of_due hdue
  refine ⟨hworld.past, ?_, ?_, ⟨hlong, hworld.justified⟩, ?_⟩
  · intro other
    by_cases hother : other = ip
    · subst hother
      rw [told_removed, Finmap.lookup_erase]
      exact .absent rfl (hquiet.mono (by linarith))
    · rw [told_cons_of_about (by simpa [Event.about] using Ne.symm hother),
        Finmap.lookup_erase_ne hother]
      exact hworld.kept other
  · exact List.pairwise_cons.mpr ⟨fun event _ => trivial, hworld.spaced⟩
  · have hnext := hticking.delete
    exact ⟨hnext.distinct, hnext.handled, hnext.due⟩

theorem Consistent.finish (hworld : Consistent world)
    (hprogress : world.progress = .ticking [] []) :
    Consistent { world with progress := .idle } := by
  have hticking : Ticking world [] [] := by
    simpa only [TickOk, hprogress] using hworld.tick
  refine ⟨hworld.past, hworld.kept, hworld.spaced, hworld.justified, ?_⟩
  intro table hstart ip entry hentry
  rcases hticking.handled table hstart ip entry hentry with ⟨htodo, -⟩ | ⟨ts, hvisited, hdue⟩
  · simp at htodo
  · exact ⟨ts, hvisited, fun h => (hdue h).resolve_left List.not_mem_nil⟩

end Visits

theorem arpNext_consistent [DecidableEq Task] {label : Label Ip Mac Task}
    {world' : World Ip Mac Task nics} (hworld : Consistent world)
    (hnext : arpNext world label = some world') : Consistent world' := by
  -- steps that are not allowed in the state lead nowhere
  cases label with
  | lookup task ip =>
      simp only [arpNext] at hnext
      split at hnext
      next => cases hnext
      next =>
          split at hnext
          next => cases hnext
          next =>
              obtain rfl := Option.some.inj hnext
              exact hworld.lookup task ip
  | insert task clock =>
      simp only [arpNext] at hnext
      split at hnext
      next ip _ =>
          obtain ⟨⟨hfree, hclock⟩, ⟨⟩⟩ := Option.ite_none_right_eq_some.mp hnext
          exact hworld.insert hfree task ip hclock
      next => cases hnext
  | reply ip mac timestamp updateTime =>
      simp only [arpNext] at hnext
      split at hnext
      next hidle =>
          obtain ⟨⟨hclock, hupdate⟩, ⟨⟩⟩ := Option.ite_none_right_eq_some.mp hnext
          exact hworld.reply hidle ip mac hclock hupdate
      next => cases hnext
  | tick order =>
      simp only [arpNext] at hnext
      split at hnext
      next hidle =>
          obtain ⟨⟨hnodup, horder⟩, ⟨⟩⟩ := Option.ite_none_right_eq_some.mp hnext
          exact hworld.startTick hnodup horder
      next => cases hnext
  | visit clock =>
      simp only [arpNext] at hnext
      split at hnext
      next ip todo timedOut hprogress =>
          split at hnext
          next entry hentry =>
              obtain ⟨hclock, ⟨⟩⟩ := Option.ite_none_right_eq_some.mp hnext
              exact hworld.visit hprogress hentry hclock
          next => cases hnext
      next => cases hnext
  | delete =>
      simp only [arpNext] at hnext
      split at hnext
      next ip ts timedOut hprogress =>
          obtain rfl := Option.some.inj hnext
          exact hworld.delete hprogress
      next => cases hnext
  | finish =>
      simp only [arpNext] at hnext
      split at hnext
      next hprogress =>
          obtain rfl := Option.some.inj hnext
          exact hworld.finish hprogress
      next => cases hnext

theorem Consistent.lifeCycle (hworld : Consistent world) : LifeCycle world := by
  refine ⟨?_, hworld.spaced, fun ip mac => (hworld.kept ip).learned, hworld.justified, ?_⟩
  · intro ip entry hentry hwaiting
    have hkept : Kept (told world.events ip) world.now (some entry) := hentry ▸ hworld.kept ip
    obtain ⟨lookupTime, hlookup⟩ := hkept.lookupTime hwaiting
    simp [hlookup]
  · intro hidle
    simpa only [TickOk, hidle] using hworld.tick

end Steps

/-- Every interleaving of lookups, replies and ticks keeps the life cycle. -/
theorem arp_lifeCycle [DecidableEq Task] (start : ℚ) {schedule : List (Label Ip Mac Task)}
    {world : World Ip Mac Task nics}
    (hrun : runSchedule arpNext (World.initial start) schedule = some world) :
    LifeCycle world := by
  have hworld : Consistent world := invariant_of_schedule
    (fun _ _ _ hworld _ hnext => arpNext_consistent hworld hnext)
    (initial_consistent start) (fun _ _ => trivial) hrun
  exact hworld.lifeCycle

/-- An address is looked up, learned, refreshed in vain and removed. -/
def wholeLife : List (Label Nat Nat Unit) :=
  [.lookup () 7, .insert () 1, .tick [7], .visit 2, .finish,
    .reply 7 42 3 3, .tick [7], .visit 33, .finish,
    .tick [7], .visit 64, .lookup () 7, .delete, .finish, .lookup () 7, .insert () 65]

theorem arp_lifeCycle_wholeLife :
    ∃ world : World Nat Nat Unit 1,
      runSchedule arpNext (World.initial 0) wholeLife = some world ∧ LifeCycle world := by
  have hrun : (runSchedule arpNext (World.initial 0 : World Nat Nat Unit 1) wholeLife).isSome := by
    decide +kernel
  obtain ⟨world, hworld⟩ := Option.isSome_iff_exists.mp hrun
  exact ⟨world, hworld, arp_lifeCycle 0 hworld⟩

def Event.sent : Event Ip Mac nics → Option (Ip × Fin nics × ℚ)
  | .request ip nic time => some (ip, nic, time)
  | _ => none

/-- The first visit to a new entry. -/
def firstVisit : List (Label Nat Nat Unit) := [.lookup () 7, .insert () 1, .tick [7], .visit 2]

/-- A tick sends its requests for an address on all devices at once. -/
theorem requests_sent_together :
    ¬ ∀ (schedule : List (Label Nat Nat Unit)) (world : World Nat Nat Unit 2),
      runSchedule arpNext (World.initial 0) schedule = some world →
        (world.events.filterMap Event.sent).Pairwise fun later earlier =>
          later.1 = earlier.1 → earlier.2.2 + 1 ≤ later.2.2 := by
  intro halways
  have hrun : (runSchedule arpNext (World.initial 0 : World Nat Nat Unit 2) firstVisit).map
      (fun world => world.events.filterMap Event.sent) = some [(7, 1, 2), (7, 0, 2)] := by
    decide
  obtain ⟨world, hworld, hsent⟩ := Option.map_eq_some_iff.mp hrun
  have hapart := halways firstVisit world hworld
  rw [hsent] at hapart
  exact absurd hapart (by decide +kernel)

end Libmoon.Arp
