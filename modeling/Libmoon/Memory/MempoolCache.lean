import Libmoon.InterTask.Locks
import Libmoon.Serpent.Records
import Mathlib.Data.List.Chain

/-! # The cache of memory pools

DPDK cannot delete memory pools. A task that ends leaves its own in a namespace, from which
later tasks on the same core take them instead of making new ones. Tasks start, take, keep
and leave pools in any interleaving; what a pool passes through is read off the sections
under the lock of the namespace.
-/

namespace Libmoon.Memory

open Foundation InterTask

variable {Pool Thread : Type}

/-- An element of `mempools`, and what is cached. -/
structure Mempool (Pool : Type) where
  pool : Pool
  socket : ℕ
  n : ℕ
  bufSize : ℕ
  core : ℕ
deriving DecidableEq

/-- The arguments of `createMemPool` with their defaults filled in. -/
structure Args where
  socket : ℕ
  n : ℕ
  bufSize : ℕ
deriving DecidableEq

def Args.mempool (args : Args) (core : ℕ) (pool : Pool) : Mempool Pool :=
  ⟨pool, args.socket, args.n, args.bufSize, core⟩

/-- What a task does with pools. What it asks for may depend on the pools that it has got. -/
inductive TaskCode (Pool : Type) where
  | enableCache (next : TaskCode Pool)
  | createMemPool (args : Args) (next : Pool → TaskCode Pool)
  | retain (pool : Pool) (next : TaskCode Pool)
  /-- The end of the task; `freeMemPools` is called if the device was reclaimed. -/
  | finish (reclaimed : Bool)

/-- What the tasks run on. `init_mem` makes a new pool each time: it is taken to succeed, where
DPDK has no memory left it returns a null pointer. `tostring` tells pools apart. -/
structure Platform (Pool Thread : Type) where
  serpent : Serpent (Value (Mempool Pool))
  entries : Store → List (LuaString × LuaString)
  tostring : Pool → Key
  initMem : Thread → ℕ → Pool
  getCore : Thread → ℕ
  tostring_injective : Function.Injective tostring
  tostring_no_nul : ∀ pool, 0 ∉ (tostring pool).name
  initMem_injective : ∀ {thread other count index},
    initMem thread count = initMem other index → thread = other ∧ count = index
  entries_stored : ∀ {store key dump}, (key, dump) ∈ entries store → store key = some dump

theorem cString_tostring (platform : Platform Pool Thread) (pool : Pool) :
    cString (platform.tostring pool).name = (platform.tostring pool).name :=
  cString_of_no_nul (platform.tostring_no_nul pool)

theorem tostring_ne {platform : Platform Pool Thread} {pool other : Pool} (hne : pool ≠ other) :
    (platform.tostring pool).name ≠ (platform.tostring other).name :=
  fun heq => hne (platform.tostring_injective (Key.ext heq))

/-! ## Scripts -/

/-- The callback of `getPoolFromCache`, for all entries in turn. It raises an error at an entry
that is no table. -/
def findPool (args : Args) (core : ℕ) :
    List (LuaString × Value (Mempool Pool)) → Option (Option LuaString)
  | [] => some none
  | (key, .data mem) :: rest =>
      if mem.socket = args.socket ∧ mem.n = args.n ∧ mem.bufSize = args.bufSize ∧
          mem.core = core then some (some key)
      else findPool args core rest
  | _ :: _ => none

theorem findPool_spec (args : Args) (core : ℕ) {entries : List (LuaString × Value (Mempool Pool))}
    (hentries : ∀ entry ∈ entries, ∃ mem, entry.2 = .data mem) :
    findPool args core entries = some none ∨ ∃ name mem,
      findPool args core entries = some (some name) ∧ (name, .data mem) ∈ entries ∧
        mem = args.mempool core mem.pool := by
  induction entries with
  | nil => exact .inl rfl
  | cons entry entries ih =>
      obtain ⟨name, value⟩ := entry
      rw [List.forall_mem_cons] at hentries
      obtain ⟨⟨mem, rfl⟩, hrest⟩ := hentries
      rw [findPool]
      split
      next hfits =>
        refine .inr ⟨name, mem, rfl, List.mem_cons_self, ?_⟩
        obtain ⟨hsocket, hn, hbufSize, hcore⟩ := hfits
        rw [Args.mempool, ← hsocket, ← hn, ← hbufSize, ← hcore]
      next =>
        rcases ih hrest with hnone | ⟨found, result, hfound, hmem, hresult⟩
        · exact .inl hnone
        · exact .inr ⟨found, result, hfound, List.mem_cons_of_mem _ hmem, hresult⟩

section Scripts

variable (platform : Platform Pool Thread)

/-- The function that `getPoolFromCache` calls under the lock. -/
def getPoolFromCache (args : Args) (core : ℕ) : NsScript (Mempool Pool) :=
  forEach platform.serpent fun entries =>
    match findPool args core entries with
    | none => .fail
    | some none => .done (.value .nil)
    | some (some name) =>
        if hkey : name ≠ forEachName ∧ name ≠ lockName then
          readKey platform.serpent ⟨name, hkey.1, hkey.2⟩ fun
            | .data mem =>
                assignKey platform.serpent ⟨name, hkey.1, hkey.2⟩ .nil (.done (.value (.data mem)))
            | _ => .fail
        else .fail

def freeMemPools (mempools : List (Mempool Pool)) : NsScript (Mempool Pool) :=
  mempools.foldr
    (fun mem next => assignKey platform.serpent (platform.tostring mem.pool) (.data mem) next)
    (.done .nothing)

theorem wrapped_freeMemPools (mempools : List (Mempool Pool)) :
    (freeMemPools platform mempools).Wrapped := by
  induction mempools with
  | nil => trivial
  | cons mem mempools ih => exact fun _ => ih

variable [DecidableEq Pool]

/-- A task that has made so many pools so far and owns these. The cache is disabled at the
start of every task. -/
def taskScript (thread : Thread) :
    TaskCode Pool → List (Mempool Pool) → ℕ → Bool → NsScript (Mempool Pool)
  | .enableCache next, mempools, made, _ => taskScript thread next mempools made true
  | .createMemPool args next, mempools, made, cacheEnabled =>
      let core := platform.getCore thread
      let fresh := platform.initMem thread made
      let create := taskScript thread (next fresh) (mempools ++ [args.mempool core fresh])
        (made + 1) cacheEnabled
      if cacheEnabled then
        .locked (getPoolFromCache platform args core) fun
          | .value (.data mem) =>
              taskScript thread (next mem.pool) (mempools ++ [args.mempool core mem.pool]) made
                cacheEnabled
          | _ => create
      else create
  | .retain pool next, mempools, made, cacheEnabled =>
      taskScript thread next (mempools.eraseP fun mem => mem.pool = pool) made cacheEnabled
  | .finish reclaimed, mempools, _, cacheEnabled =>
      if cacheEnabled && reclaimed then freeMemPools platform mempools else .done .nothing

end Scripts

/-! ## What pools pass through -/

/-- A pool is left in the cache, or taken from it. -/
inductive Transfer (Pool Thread : Type) where
  | stored (thread : Thread) (mem : Mempool Pool)
  | taken (thread : Thread) (mem : Mempool Pool)

def Transfer.mem : Transfer Pool Thread → Mempool Pool
  | .stored _ mem => mem
  | .taken _ mem => mem

/-- What a section has come to, as far as it moves a pool. -/
def transfer (entry : Thread × Option (Got (Mempool Pool))) : Option (Transfer Pool Thread) :=
  match entry.2 with
  | some (.assigned _ (.data mem)) => some (.stored entry.1 mem)
  | some (.value (.data mem)) => some (.taken entry.1 mem)
  | _ => none

def transfers [DecidableEq Pool] (pool : Pool)
    (sections : List (Thread × Option (Got (Mempool Pool)))) : List (Transfer Pool Thread) :=
  (sections.filterMap transfer).filter fun transfer => transfer.mem.pool = pool

/-- Only the task that has taken a pool leaves it again, and only a task on the same core takes
it, with the same parameters. -/
def Passes (getCore : Thread → ℕ) : Transfer Pool Thread → Transfer Pool Thread → Prop
  | .stored _ mem, .taken taker taken => taken = mem ∧ getCore taker = mem.core
  | .taken taker mem, .stored thread stored => thread = taker ∧ stored = mem
  | _, _ => False

/-- A pool goes from hand to hand, from the task that has made it on. -/
structure HandedOn (platform : Platform Pool Thread) (pool : Pool)
    (transfers : List (Transfer Pool Thread)) : Prop where
  chain : transfers.IsChain (Passes platform.getCore)
  first : ∀ transfer ∈ transfers.head?, ∃ thread index mem,
    transfer = .stored thread mem ∧ pool = platform.initMem thread index

theorem HandedOn.append {platform : Platform Pool Thread} {pool : Pool}
    {before : List (Transfer Pool Thread)} (hhanded : HandedOn platform pool before)
    {moved : Transfer Pool Thread}
    (hpasses : ∀ last ∈ before.getLast?, Passes platform.getCore last moved)
    (hfirst : before = [] → ∃ thread index mem,
      moved = .stored thread mem ∧ pool = platform.initMem thread index) :
    HandedOn platform pool (before ++ [moved]) where
  chain := by
    refine hhanded.chain.append (List.isChain_singleton moved) fun last hlast next hnext => ?_
    cases hnext
    exact hpasses last hlast
  first := by
    cases before with
    | nil =>
        intro transfer hmem
        cases hmem
        exact hfirst rfl
    | cons first rest => exact hhanded.first

variable [DecidableEq Pool] {platform : Platform Pool Thread}
  {sections : List (Thread × Option (Got (Mempool Pool)))}

theorem transfers_append_of_none {entry : Thread × Option (Got (Mempool Pool))}
    (hentry : transfer entry = none) (pool : Pool) :
    transfers pool (sections ++ [entry]) = transfers pool sections := by
  simp [transfers, hentry]

theorem transfers_append_self {entry : Thread × Option (Got (Mempool Pool))}
    {moved : Transfer Pool Thread} (hentry : transfer entry = some moved) :
    transfers moved.mem.pool (sections ++ [entry]) =
      transfers moved.mem.pool sections ++ [moved] := by
  simp [transfers, hentry]

theorem getLast?_transfers_append {entry : Thread × Option (Got (Mempool Pool))}
    {moved : Transfer Pool Thread} (hentry : transfer entry = some moved) :
    (transfers moved.mem.pool (sections ++ [entry])).getLast? = some moved := by
  rw [transfers_append_self hentry, List.getLast?_concat]

theorem transfers_append_of_ne {entry : Thread × Option (Got (Mempool Pool))}
    {moved : Transfer Pool Thread} (hentry : transfer entry = some moved) {pool : Pool}
    (hne : pool ≠ moved.mem.pool) :
    transfers pool (sections ++ [entry]) = transfers pool sections := by
  simp [transfers, hentry, hne.symm]

/-! ## Who owns a pool -/

/-- The pools of a task are those that it has taken and not left since, and those that it has
made and not left yet. -/
structure Owns (platform : Platform Pool Thread)
    (sections : List (Thread × Option (Got (Mempool Pool)))) (thread : Thread)
    (mempools : List (Mempool Pool)) (made : ℕ) : Prop where
  nodup : (mempools.map Mempool.pool).Nodup
  core : ∀ mem ∈ mempools, mem.core = platform.getCore thread
  held : ∀ mem ∈ mempools,
    (transfers mem.pool sections).getLast? = some (.taken thread mem) ∨
      transfers mem.pool sections = [] ∧ ∃ index < made, mem.pool = platform.initMem thread index
  unmade : ∀ index, made ≤ index → transfers (platform.initMem thread index) sections = []

variable {thread other : Thread} {mempools others : List (Mempool Pool)} {made count : ℕ}

theorem owns_nil (hunmade : ∀ index, made ≤ index →
    transfers (platform.initMem thread index) sections = []) :
    Owns platform sections thread [] made where
  nodup := List.nodup_nil
  core := by simp
  held := by simp
  unmade := hunmade

theorem Owns.sublist (howns : Owns platform sections thread mempools made)
    (hsublist : others.Sublist mempools) : Owns platform sections thread others made where
  nodup := howns.nodup.sublist (hsublist.map _)
  core mem hmem := howns.core mem (hsublist.subset hmem)
  held mem hmem := howns.held mem (hsublist.subset hmem)
  unmade := howns.unmade

/-- Neither does the task own the pool, nor will it make it. -/
def Apart (platform : Platform Pool Thread) (thread : Thread) (mempools : List (Mempool Pool))
    (made : ℕ) (pool : Pool) : Prop :=
  (∀ mem ∈ mempools, mem.pool ≠ pool) ∧ ∀ index, made ≤ index → platform.initMem thread index ≠ pool

theorem Owns.append (howns : Owns platform sections thread mempools made)
    {entry : Thread × Option (Got (Mempool Pool))}
    (hapart : ∀ moved ∈ transfer entry, Apart platform thread mempools made moved.mem.pool) :
    Owns platform (sections ++ [entry]) thread mempools made := by
  have hsame : ∀ pool, (∀ moved ∈ transfer entry, pool ≠ moved.mem.pool) →
      transfers pool (sections ++ [entry]) = transfers pool sections := by
    intro pool hne
    cases hentry : transfer entry with
    | none => exact transfers_append_of_none hentry pool
    | some moved => exact transfers_append_of_ne hentry (hne moved hentry)
  refine ⟨howns.nodup, howns.core, ?_, ?_⟩
  · intro mem hmem
    rw [hsame mem.pool fun moved hmoved => (hapart moved hmoved).1 mem hmem]
    exact howns.held mem hmem
  · intro index hle
    rw [hsame _ fun moved hmoved => (hapart moved hmoved).2 index hle]
    exact howns.unmade index hle

/-- A pool in the cache is nobody's. -/
theorem Owns.apart_of_stored (howns : Owns platform sections thread mempools made) {pool : Pool}
    {mem : Mempool Pool} (hlast : (transfers pool sections).getLast? = some (.stored other mem)) :
    Apart platform thread mempools made pool := by
  constructor
  · rintro owned howned rfl
    rcases howns.held owned howned with htaken | ⟨hnone, -⟩
    · rw [hlast] at htaken
      cases htaken
    · rw [hnone] at hlast
      cases hlast
  · rintro index hle rfl
    rw [howns.unmade index hle] at hlast
    cases hlast

/-- What one task owns is no other's. -/
theorem Owns.apart_of_ne (howns : Owns platform sections thread mempools made)
    (hother : Owns platform sections other others count) (hne : thread ≠ other)
    {mem : Mempool Pool} (hmem : mem ∈ others) : Apart platform thread mempools made mem.pool := by
  rcases hother.held mem hmem with hlast | ⟨hnone, index, -, hpool⟩
  · constructor
    · intro owned howned heq
      rcases howns.held owned howned with htaken | ⟨hnone, -⟩
      · rw [heq, hlast] at htaken
        cases htaken
        exact hne rfl
      · rw [heq] at hnone
        rw [hnone] at hlast
        cases hlast
    · rintro index hle heq
      rw [← heq, howns.unmade index hle] at hlast
      cases hlast
  · constructor
    · intro owned howned heq
      rcases howns.held owned howned with htaken | ⟨-, place, -, howner⟩
      · rw [heq, hnone] at htaken
        cases htaken
      · rw [← heq, howner] at hpool
        exact hne (platform.initMem_injective hpool).1
    · intro place hle heq
      rw [← heq] at hpool
      exact hne (platform.initMem_injective hpool).1

/-- A pool that has been left is not owned any more. -/
theorem Owns.apart_of_cons {mem : Mempool Pool}
    (howns : Owns platform sections thread (mem :: mempools) made) :
    Apart platform thread mempools made mem.pool := by
  have hnodup := howns.nodup
  rw [List.map_cons, List.nodup_cons] at hnodup
  refine ⟨fun owned howned heq => hnodup.1 (heq ▸ List.mem_map_of_mem howned), ?_⟩
  intro index hle heq
  rcases howns.held mem List.mem_cons_self with htaken | ⟨-, place, hlt, hpool⟩
  · rw [← heq, howns.unmade index hle] at htaken
    cases htaken
  · rw [← heq] at hpool
    have hindex := (platform.initMem_injective hpool).2
    omega

theorem Owns.create (howns : Owns platform sections thread mempools made) {args : Args} :
    Owns platform sections thread
      (mempools ++ [args.mempool (platform.getCore thread) (platform.initMem thread made)])
      (made + 1) := by
  have hunmade := howns.unmade made le_rfl
  refine ⟨?_, ?_, ?_, fun index hle => howns.unmade index (Nat.le_of_succ_le hle)⟩
  · rw [List.map_append, List.nodup_append]
    refine ⟨howns.nodup, List.nodup_singleton _, ?_⟩
    rintro pool hpool fresh hfresh rfl
    obtain ⟨mem, hmem, hname⟩ := List.mem_map.mp hpool
    rw [List.map_singleton, List.mem_singleton] at hfresh
    have hfresh : mem.pool = platform.initMem thread made := hname.trans hfresh
    rcases howns.held mem hmem with htaken | ⟨-, index, hlt, hmade⟩
    · rw [hfresh, hunmade] at htaken
      cases htaken
    · rw [hfresh] at hmade
      have hindex := (platform.initMem_injective hmade).2
      omega
  · rw [List.forall_mem_append, List.forall_mem_singleton]
    exact ⟨howns.core, rfl⟩
  · rw [List.forall_mem_append, List.forall_mem_singleton]
    refine ⟨fun mem hmem => ?_, .inr ⟨hunmade, made, Nat.lt_succ_self made, rfl⟩⟩
    rcases howns.held mem hmem with htaken | ⟨hnone, index, hlt, hpool⟩
    · exact .inl htaken
    · exact .inr ⟨hnone, index, Nat.lt_succ_of_lt hlt, hpool⟩

theorem Owns.take (howns : Owns platform sections thread mempools made) {mem : Mempool Pool}
    (hcore : mem.core = platform.getCore thread)
    (hlast : (transfers mem.pool sections).getLast? = some (.stored other mem)) :
    Owns platform (sections ++ [(thread, some (.value (.data mem)))]) thread (mempools ++ [mem])
      made := by
  have hapart := howns.apart_of_stored hlast
  have hentry : transfer (thread, some (.value (.data mem))) = some (.taken thread mem) := rfl
  have hkept : Owns platform (sections ++ [(thread, some (.value (.data mem)))]) thread mempools
      made := by
    refine howns.append fun moved hmoved => ?_
    cases hmoved
    exact hapart
  refine ⟨?_, ?_, ?_, hkept.unmade⟩
  · rw [List.map_append, List.nodup_append]
    refine ⟨howns.nodup, List.nodup_singleton _, ?_⟩
    rintro pool hpool taken htaken rfl
    obtain ⟨owned, howned, hname⟩ := List.mem_map.mp hpool
    rw [List.map_singleton, List.mem_singleton] at htaken
    exact hapart.1 owned howned (hname.trans htaken)
  · rw [List.forall_mem_append, List.forall_mem_singleton]
    exact ⟨howns.core, hcore⟩
  · rw [List.forall_mem_append, List.forall_mem_singleton]
    exact ⟨hkept.held, .inl (getLast?_transfers_append hentry)⟩

/-! ## The cache -/

/-- The cache holds, under its name, each pool that was left last, and nothing else. -/
structure Cached (platform : Platform Pool Thread)
    (sections : List (Thread × Option (Got (Mempool Pool)))) (store : Store) : Prop where
  sound : ∀ {name dump}, store name = some dump → ∃ thread mem,
    name = (platform.tostring mem.pool).name ∧ dump = platform.serpent.dump (.data mem) ∧
      (transfers mem.pool sections).getLast? = some (.stored thread mem)
  complete : ∀ {thread mem}, (transfers mem.pool sections).getLast? = some (.stored thread mem) →
    store (platform.tostring mem.pool).name = some (platform.serpent.dump (.data mem))

/-- The cache yields a pool that fits and was left last, and forgets it. -/
theorem run_getPoolFromCache {store : Store} (hcached : Cached platform sections store)
    (args : Args) (core : ℕ) :
    (getPoolFromCache platform args core).run (accessMap platform.entries) store =
        (store, some (.value .nil)) ∨ ∃ maker mem, mem = args.mempool core mem.pool ∧
      (transfers mem.pool sections).getLast? = some (.stored maker mem) ∧
      (getPoolFromCache platform args core).run (accessMap platform.entries) store =
        (Function.update store (platform.tostring mem.pool).name none,
          some (.value (.data mem))) := by
  have hdata : ∀ entry ∈ (platform.entries store).map fun entry =>
      (cString entry.1, platform.serpent.load (cString entry.2)), ∃ maker mem,
        entry = ((platform.tostring mem.pool).name, .data mem) ∧
        store entry.1 = some (platform.serpent.dump (.data mem)) ∧
        (transfers mem.pool sections).getLast? = some (.stored maker mem) := by
    intro entry hentry
    obtain ⟨⟨name, dump⟩, hmem, rfl⟩ := List.mem_map.mp hentry
    have hstore := platform.entries_stored hmem
    obtain ⟨maker, mem, rfl, rfl, hlast⟩ := hcached.sound hstore
    refine ⟨maker, mem, ?_, ?_, hlast⟩
    · simp [cString_tostring, platform.serpent.load_dump]
    · rw [cString_tostring, hstore]
  rw [getPoolFromCache, run_forEach]
  rcases findPool_spec args core fun entry hentry => by
    obtain ⟨-, mem, rfl, -⟩ := hdata entry hentry
    exact ⟨mem, rfl⟩ with hnone | ⟨name, mem, hfound, hmem, hfits⟩
  · exact .inl (by rw [hnone]; rfl)
  · obtain ⟨maker, cached, heq, hstore, hlast⟩ := hdata _ hmem
    obtain ⟨rfl, rfl⟩ : name = (platform.tostring cached.pool).name ∧ mem = cached := by
      simpa using heq
    refine .inr ⟨maker, mem, hfits, hlast, ?_⟩
    have hname := (platform.tostring mem.pool).not_forEach
    have hheld : held platform.serpent store (platform.tostring mem.pool) = .data mem := by
      rw [held, namespaceRetrieve, cString_tostring, hstore]
      dsimp only
      rw [platform.serpent.cString_dump, platform.serpent.load_dump]
      rfl
    rw [hfound]
    dsimp only
    rw [dif_pos ⟨hname, (platform.tostring mem.pool).not_lock⟩, run_readKey, hheld]
    dsimp only
    rw [run_assignKey, newindex_store, cString_tostring]
    rfl

/-! ## One section after the other -/

/-- Where a task is between two sections, and what it owns there. -/
inductive At (platform : Platform Pool Thread)
    (sections : List (Thread × Option (Got (Mempool Pool)))) (thread : Thread) :
    NsScript (Mempool Pool) → Prop where
  | creating {mempools : List (Mempool Pool)} {made : ℕ} {args : Args}
      {next : Pool → TaskCode Pool} (howns : Owns platform sections thread mempools made) :
      At platform sections thread
        (taskScript platform thread (.createMemPool args next) mempools made true)
  | freeing {mempools : List (Mempool Pool)} {made : ℕ}
      (howns : Owns platform sections thread mempools made) :
      At platform sections thread (freeMemPools platform mempools)

theorem at_taskScript (howns : Owns platform sections thread mempools made)
    (code : TaskCode Pool) (cacheEnabled : Bool) :
    At platform sections thread (taskScript platform thread code mempools made cacheEnabled) := by
  induction code generalizing mempools made cacheEnabled with
  | enableCache next ih => exact ih howns true
  | createMemPool args next ih =>
      cases cacheEnabled with
      | true => exact .creating howns
      | false =>
          simp only [taskScript, Bool.false_eq_true, if_false]
          exact ih _ howns.create false
  | retain pool next ih => exact ih (howns.sublist List.eraseP_sublist) cacheEnabled
  | finish reclaimed =>
      rw [taskScript]
      split
      next => exact .freeing howns
      next => exact .freeing (owns_nil howns.unmade)

theorem wrapped_taskScript (code : TaskCode Pool) (mempools : List (Mempool Pool)) (made : ℕ)
    (cacheEnabled : Bool) :
    (taskScript platform thread code mempools made cacheEnabled).Wrapped := by
  induction code generalizing mempools made cacheEnabled with
  | enableCache next ih => exact ih _ _ _
  | createMemPool args next ih =>
      rw [taskScript]
      split
      next =>
        intro got
        dsimp only
        split
        next => exact ih _ _ _ _
        next => exact ih _ _ _ _
      next => exact ih _ _ _ _
  | retain pool next ih => exact ih _ _ _
  | finish reclaimed =>
      rw [taskScript]
      split
      next => exact wrapped_freeMemPools platform mempools
      next => trivial

/-- What holds between two sections. -/
structure Kept (platform : Platform Pool Thread)
    (serial : Serial Thread Store MapAccess (Got (Mempool Pool))) : Prop where
  handedOn : ∀ pool, HandedOn platform pool (transfers pool serial.sections)
  ended : ∀ entry ∈ serial.sections, entry.2 ≠ none
  cached : Cached platform serial.sections serial.store
  tasks : ∀ thread, At platform serial.sections thread (serial.scripts thread)

theorem handedOn_append {entry : Thread × Option (Got (Mempool Pool))}
    (hhanded : ∀ pool, HandedOn platform pool (transfers pool sections))
    {moved : Transfer Pool Thread} (hentry : transfer entry = some moved)
    (hpasses : ∀ last ∈ (transfers moved.mem.pool sections).getLast?,
      Passes platform.getCore last moved)
    (hfirst : transfers moved.mem.pool sections = [] → ∃ thread index mem,
      moved = .stored thread mem ∧ moved.mem.pool = platform.initMem thread index) (pool : Pool) :
    HandedOn platform pool (transfers pool (sections ++ [entry])) := by
  by_cases hpool : pool = moved.mem.pool
  · subst hpool
    rw [transfers_append_self hentry]
    exact (hhanded _).append hpasses hfirst
  · rw [transfers_append_of_ne hentry hpool]
    exact hhanded pool

theorem Cached.append_of_none {store : Store} (hcached : Cached platform sections store)
    {entry : Thread × Option (Got (Mempool Pool))} (hentry : transfer entry = none) :
    Cached platform (sections ++ [entry]) store where
  sound := by
    intro name dump hstore
    obtain ⟨maker, mem, hname, hdump, hlast⟩ := hcached.sound hstore
    exact ⟨maker, mem, hname, hdump, by rwa [transfers_append_of_none hentry]⟩
  complete := by
    intro maker mem hlast
    rw [transfers_append_of_none hentry] at hlast
    exact hcached.complete hlast

/-- The entry of one pool changes with what happens to the pool. -/
theorem Cached.update {store : Store} (hcached : Cached platform sections store)
    {entry : Thread × Option (Got (Mempool Pool))} {moved : Transfer Pool Thread}
    (hentry : transfer entry = some moved) {held : Option LuaString}
    (hheld : ∀ dump, held = some dump ↔ ∃ thread mem,
      moved = .stored thread mem ∧ dump = platform.serpent.dump (.data mem)) :
    Cached platform (sections ++ [entry])
      (Function.update store (platform.tostring moved.mem.pool).name held) where
  sound := by
    intro name dump hstore
    by_cases hname : name = (platform.tostring moved.mem.pool).name
    · rw [hname, Function.update_self] at hstore
      obtain ⟨maker, mem, rfl, rfl⟩ := (hheld dump).mp hstore
      exact ⟨maker, mem, hname, rfl, getLast?_transfers_append hentry⟩
    · rw [Function.update_of_ne hname] at hstore
      obtain ⟨maker, mem, rfl, hdump, hlast⟩ := hcached.sound hstore
      refine ⟨maker, mem, rfl, hdump, ?_⟩
      rwa [transfers_append_of_ne hentry fun heq => hname (by rw [heq])]
  complete := by
    intro maker mem hlast
    by_cases hpool : mem.pool = moved.mem.pool
    · rw [hpool, getLast?_transfers_append hentry] at hlast
      rw [hpool, Function.update_self]
      exact (hheld _).mpr ⟨maker, mem, Option.some.inj hlast, rfl⟩
    · rw [transfers_append_of_ne hentry hpool] at hlast
      rw [Function.update_of_ne (tostring_ne hpool)]
      exact hcached.complete hlast

theorem Cached.take {store : Store} (hcached : Cached platform sections store) (thread : Thread)
    (mem : Mempool Pool) : Cached platform (sections ++ [(thread, some (.value (.data mem)))])
      (Function.update store (platform.tostring mem.pool).name none) := by
  have hentry : transfer (thread, some (.value (.data mem))) = some (.taken thread mem) := rfl
  exact hcached.update hentry (by simp)

theorem Cached.free {store : Store} (hcached : Cached platform sections store) (thread : Thread)
    (mem : Mempool Pool) : Cached platform
      (sections ++ [(thread, some (.assigned (platform.tostring mem.pool) (.data mem)))])
      (newindex platform.serpent store (platform.tostring mem.pool).name (.data mem)).2 := by
  have hentry : transfer (thread, some (.assigned (platform.tostring mem.pool) (.data mem))) =
    some (.stored thread mem) := rfl
  rw [newindex_store, cString_tostring]
  exact hcached.update hentry (by simp [stored, eq_comm])

theorem At.append {script : NsScript (Mempool Pool)} (hat : At platform sections thread script)
    {entry : Thread × Option (Got (Mempool Pool))}
    (hapart : ∀ mempools made, Owns platform sections thread mempools made →
      ∀ moved ∈ transfer entry, Apart platform thread mempools made moved.mem.pool) :
    At platform (sections ++ [entry]) thread script := by
  cases hat with
  | creating howns => exact .creating (howns.append (hapart _ _ howns))
  | freeing howns => exact .freeing (howns.append (hapart _ _ howns))

theorem kept_start (platform : Platform Pool Thread) (code : Thread → TaskCode Pool) :
    Kept platform
      (.start Store.empty fun thread => taskScript platform thread (code thread) [] 0 false) where
  handedOn pool := ⟨List.isChain_nil, by simp [Serial.start, transfers]⟩
  ended := by simp [Serial.start]
  cached := ⟨by simp [Serial.start, Store.empty], by simp [Serial.start, transfers]⟩
  tasks thread := at_taskScript (owns_nil fun _ _ => rfl) (code thread) false

variable [DecidableEq Thread] {serial serial' : Serial Thread Store MapAccess (Got (Mempool Pool))}

theorem Kept.append (hkept : Kept platform serial) {got : Got (Mempool Pool)} {store : Store}
    {script : NsScript (Mempool Pool)}
    (hhanded : ∀ pool, HandedOn platform pool
      (transfers pool (serial.sections ++ [(thread, some got)])))
    (hcached : Cached platform (serial.sections ++ [(thread, some got)]) store)
    (hself : At platform (serial.sections ++ [(thread, some got)]) thread script)
    (hothers : ∀ other ≠ thread, ∀ mempools made,
      Owns platform serial.sections other mempools made →
      ∀ moved ∈ transfer (thread, some got), Apart platform other mempools made moved.mem.pool) :
    Kept platform
      { store := store
        scripts := Function.update serial.scripts thread script
        sections := serial.sections ++ [(thread, some got)] } where
  handedOn := hhanded
  ended := by
    intro entry hmem
    rcases List.mem_append.mp hmem with hbefore | hlast
    · exact hkept.ended entry hbefore
    · rw [List.mem_singleton.mp hlast]
      exact Option.some_ne_none got
  cached := hcached
  tasks := by
    intro other
    dsimp only
    by_cases hother : other = thread
    · subst other
      rwa [Function.update_self]
    · rw [Function.update_of_ne hother]
      exact (hkept.tasks other).append (hothers other hother)

/-- A pool that a task owns goes into the cache. -/
theorem Kept.free (hkept : Kept platform serial) {mem : Mempool Pool}
    (howns : Owns platform serial.sections thread (mem :: mempools) made) :
    Kept platform
      { store :=
          (newindex platform.serpent serial.store (platform.tostring mem.pool).name (.data mem)).2
        scripts := Function.update serial.scripts thread (freeMemPools platform mempools)
        sections := serial.sections ++
          [(thread, some (.assigned (platform.tostring mem.pool) (.data mem)))] } := by
  have hentry : transfer (thread, some (.assigned (platform.tostring mem.pool) (.data mem))) =
    some (.stored thread mem) := rfl
  have hheld := howns.held mem List.mem_cons_self
  have hrest : Owns platform (serial.sections ++
      [(thread, some (.assigned (platform.tostring mem.pool) (.data mem)))]) thread mempools
      made := by
    refine (howns.sublist (List.sublist_cons_self mem mempools)).append fun moved hmoved => ?_
    cases hmoved
    exact howns.apart_of_cons
  refine hkept.append (handedOn_append hkept.handedOn hentry ?_ ?_) (hkept.cached.free thread mem)
    (.freeing hrest) ?_
  · intro last hlast
    rcases hheld with htaken | ⟨hnone, -⟩
    · obtain rfl : last = .taken thread mem := Option.some.inj (hlast.symm.trans htaken)
      exact ⟨rfl, rfl⟩
    · have hlast : (transfers mem.pool serial.sections).getLast? = some last := hlast
      rw [hnone] at hlast
      cases hlast
  · intro hnone
    have hnone : transfers mem.pool serial.sections = [] := hnone
    rcases hheld with htaken | ⟨-, index, -, hpool⟩
    · rw [hnone] at htaken
      cases htaken
    · exact ⟨thread, index, mem, rfl, hpool⟩
  · intro other hother others count hothers moved hmoved
    cases hmoved
    exact hothers.apart_of_ne howns hother List.mem_cons_self

/-- A pool is taken from the cache. -/
theorem Kept.take (hkept : Kept platform serial)
    (howns : Owns platform serial.sections thread mempools made) {maker : Thread}
    {mem : Mempool Pool} (hcore : mem.core = platform.getCore thread)
    (hlast : (transfers mem.pool serial.sections).getLast? = some (.stored maker mem))
    (code : TaskCode Pool) (cacheEnabled : Bool) :
    Kept platform
      { store := Function.update serial.store (platform.tostring mem.pool).name none
        scripts := Function.update serial.scripts thread
          (taskScript platform thread code (mempools ++ [mem]) made cacheEnabled)
        sections := serial.sections ++ [(thread, some (.value (.data mem)))] } := by
  have hentry : transfer (thread, some (.value (.data mem))) = some (.taken thread mem) := rfl
  refine hkept.append (handedOn_append hkept.handedOn hentry ?_ ?_) (hkept.cached.take thread mem)
    (at_taskScript (howns.take hcore hlast) code cacheEnabled) ?_
  · intro last hmem
    obtain rfl : last = .stored maker mem := Option.some.inj (hmem.symm.trans hlast)
    exact ⟨rfl, hcore.symm⟩
  · intro hnone
    have hnone : transfers mem.pool serial.sections = [] := hnone
    rw [hnone] at hlast
    cases hlast
  · intro other _ others count hothers moved hmoved
    cases hmoved
    exact hothers.apart_of_stored hlast

theorem Kept.step (hkept : Kept platform serial)
    (hnext : serial.next (accessMap platform.entries) thread = some serial') :
    Kept platform serial' := by
  have hat := hkept.tasks thread
  generalize hscript : serial.scripts thread = script at hat
  cases hat with
  | @freeing mempools made howns =>
      cases mempools with
      | nil =>
          rw [Serial.next, hscript] at hnext
          cases hnext
      | cons mem mempools =>
          rw [Serial.next_of_section hscript (firstSection_assignKey _ _ _ _)] at hnext
          cases hnext
          exact hkept.free howns
  | @creating mempools made args next howns =>
      rw [Serial.next, hscript] at hnext
      simp only [taskScript, if_true, Script.firstSection] at hnext
      rcases run_getPoolFromCache hkept.cached args (platform.getCore thread) with
        hnone | ⟨maker, mem, hfits, hlast, hsome⟩
      · rw [hnone] at hnext
        cases hnext
        have hentry : transfer (thread, some (.value .nil)) =
          (none : Option (Transfer Pool Thread)) := rfl
        refine hkept.append ?_ (hkept.cached.append_of_none hentry) (at_taskScript ?_ _ true) ?_
        · intro pool
          rw [transfers_append_of_none hentry]
          exact hkept.handedOn pool
        · refine howns.create.append fun moved hmoved => ?_
          cases hmoved
        · intro other _ others count _ moved hmoved
          cases hmoved
      · rw [hsome] at hnext
        cases hnext
        have hcore : mem.core = platform.getCore thread := by rw [hfits]; rfl
        have htaken := hkept.take howns hcore hlast (next mem.pool) true
        rw [Script.proceed]
        simp only [← hfits]
        exact htaken

theorem Kept.run (hkept : Kept platform serial) {order : List Thread}
    (hrun : runSchedule (Serial.next (accessMap platform.entries)) serial order = some serial') :
    Kept platform serial' := by
  have hstep : ∀ serial thread serial', Kept platform serial → True →
      serial.next (accessMap platform.entries) thread = some serial' → Kept platform serial' :=
    fun _ _ _ hkept _ hnext => hkept.step hnext
  exact invariant_of_schedule hstep hkept (fun _ _ => trivial) hrun

/-! ## Every interleaving -/

/-- Whatever the tasks do with their pools and however they interleave, a pool is in one pair of
hands. It starts with the task that has made it; from then on it is left in the cache by the
task that has it, and taken by one task on the same core with the same parameters, in turns.
While nobody is inside the lock the cache holds just the pools that were left last. -/
theorem mempools_handed_on (platform : Platform Pool Thread) (code : Thread → TaskCode Pool)
    {schedule : List Thread} {state : Threads Thread Store MapAccess (Got (Mempool Pool))}
    (hrun : runSchedule (Threads.next (accessMap platform.entries))
      (.start Store.empty fun thread => taskScript platform thread (code thread) [] 0 false)
      schedule = some state) :
    (∀ pool, HandedOn platform pool (transfers pool state.sections)) ∧
      (∀ entry ∈ state.sections, entry.2 ≠ none) ∧
      (state.lock = none → Cached platform state.sections state.store) := by
  have hwrapped : ∀ thread, (taskScript platform thread (code thread) [] 0 false).Wrapped :=
    fun thread => wrapped_taskScript (code thread) [] 0 false
  obtain ⟨order, serial, horder, -, hserial⟩ := (Serialises.start Store.empty _).exists_order
    (readsOutside_of_wrapped (accessMap platform.entries)) hwrapped hrun
  have hkept := (kept_start platform code).run horder
  rw [hserial.sections]
  refine ⟨hkept.handedOn, hkept.ended, ?_⟩
  intro hfree
  rw [hserial.free hfree]
  exact hkept.cached

/-! ## Two tasks on one core -/

section Example

open HexFloat

def poolType : Serpent.CType :=
  ⟨Serpent.ascii "struct mempool *", by decide, by decide, by decide⟩

def numberLiteral (number : ℕ) : Serpent.Literal := (Serpent.index number).literal

def mempoolRecord (mem : Mempool ℕ) : Serpent.Record where
  entries :=
    [(Serpent.ascii "pool", .pointer poolType mem.pool),
      (Serpent.ascii "socket", numberLiteral mem.socket), (Serpent.ascii "n", numberLiteral mem.n),
      (Serpent.ascii "bufSize", numberLiteral mem.bufSize),
      (Serpent.ascii "core", numberLiteral mem.core)]
  nodup := by
    have hnames : (["pool", "socket", "n", "bufSize", "core"].map Serpent.ascii).Nodup := by decide
    exact hnames
  not_nil := by simp [numberLiteral, Serpent.index]

def numberOf : Serpent.Val ℕ → ℕ
  | .literal (.number (.finite binary)) => binary.mantissa * 2 ^ binary.exponent.toNat
  | _ => 0

def addressOf : Serpent.Val ℕ → ℕ
  | .literal (.pointer _ address) => address
  | _ => 0

def mempoolPlain : Value (Mempool ℕ) → Serpent.Plain
  | .nil => .literal .nil
  | .boolean value => .literal (.boolean value)
  | .data mem => .table (mempoolRecord mem)

def mempoolValue : Option Serpent.Loaded → Value (Mempool ℕ)
  | some (.literal (.boolean value)) => .boolean value
  | some (.table get) =>
      .data
        { pool := addressOf (get (Serpent.ascii "pool"))
          socket := numberOf (get (Serpent.ascii "socket"))
          n := numberOf (get (Serpent.ascii "n"))
          bufSize := numberOf (get (Serpent.ascii "bufSize"))
          core := numberOf (get (Serpent.ascii "core")) }
  | _ => .nil

theorem numberOf_numberLiteral (number : ℕ) :
    numberOf (.literal (numberLiteral number)) = number := Binary.value_of false number

def mempoolSerpent : Serpent (Value (Mempool ℕ)) :=
  Serpent.plainSerpent mempoolPlain mempoolValue fun value => by
    cases value with
    | nil => rfl
    | boolean value => rfl
    | data mem =>
        have hpool : (mempoolRecord mem).get (Serpent.ascii "pool") =
          .pointer poolType mem.pool := rfl
        have hsocket : (mempoolRecord mem).get (Serpent.ascii "socket") =
          numberLiteral mem.socket := rfl
        have hn : (mempoolRecord mem).get (Serpent.ascii "n") = numberLiteral mem.n := rfl
        have hbufSize : (mempoolRecord mem).get (Serpent.ascii "bufSize") =
          numberLiteral mem.bufSize := rfl
        have hcore : (mempoolRecord mem).get (Serpent.ascii "core") =
          numberLiteral mem.core := rfl
        simp only [mempoolPlain, Serpent.Plain.loaded, mempoolValue, hpool, hsocket, hn, hbufSize,
          hcore, numberOf_numberLiteral, addressOf]

/-- `tostring` of a pointer writes at least twelve digits. -/
def pointerDigits (address : ℕ) : ℕ := max 12 (address.log2 / 4 + 1)

def pointerName (address : ℕ) : LuaString :=
  Serpent.ascii "cdata<struct mempool *>: 0x" ++ hexDigits (pointerDigits address) address

theorem lt_pointerDigits (address : ℕ) : address < 16 ^ pointerDigits address :=
  calc address < 2 ^ (address.log2 + 1) := Nat.lt_log2_self
    _ ≤ 2 ^ (4 * pointerDigits address) := by
      refine Nat.pow_le_pow_right (by decide) ?_
      have hdigits : address.log2 / 4 + 1 ≤ pointerDigits address := le_max_right _ _
      omega
    _ = 16 ^ pointerDigits address := by rw [Nat.pow_mul]

theorem pointerName_injective : Function.Injective pointerName := by
  intro first second heq
  have hread : ∀ address : ℕ, readDigits hexValue 16 0
      (hexDigits (pointerDigits address) address) = (address, []) := by
    intro address
    have hread := readDigits_hexDigits (lt_pointerDigits address) 0 []
    simpa [readDigits] using hread
  have hfirst := hread first
  rw [List.append_cancel_left heq, hread second] at hfirst
  exact (congrArg Prod.fst hfirst).symm

theorem pointerName_head (address : ℕ) : (pointerName address).head? = some 99 := rfl

def pointerKey (address : ℕ) : Key where
  name := pointerName address
  not_forEach heq := by
    have hhead := pointerName_head address
    rw [heq] at hhead
    exact absurd hhead (by decide)
  not_lock heq := by
    have hhead := pointerName_head address
    rw [heq] at hhead
    exact absurd hhead (by decide)

/-- Where the pools are that the two tasks make. -/
def poolAddress (thread : Bool) (count : ℕ) : ℕ :=
  140234563583488 + 65536 * (2 * count + if thread then 1 else 0)

/-- The cache, as far as it has entries for the first pools. -/
def firstEntries (store : Store) : List (LuaString × LuaString) :=
  (List.range 4).filterMap fun index =>
    let name := pointerName (140234563583488 + 65536 * index)
    (store name).map fun dump => (name, dump)

def twoTasks : Platform ℕ Bool where
  serpent := mempoolSerpent
  entries := firstEntries
  tostring := pointerKey
  initMem := poolAddress
  getCore _ := 1
  tostring_injective first second heq := pointerName_injective (congrArg Key.name heq)
  tostring_no_nul address hmem := by
    rcases List.mem_append.mp hmem with hhead | hdigits
    · exact absurd hhead (by decide)
    · exact absurd (le_of_mem_hexDigits hdigits) (by decide)
  initMem_injective := by
    intro thread other count index heq
    cases thread <;> cases other <;> simp [poolAddress] at heq ⊢ <;> omega
  entries_stored := by
    intro store key dump hmem
    obtain ⟨index, -, hentry⟩ := List.mem_filterMap.mp hmem
    obtain ⟨stored, hstored, heq⟩ := Option.map_eq_some_iff.mp hentry
    cases heq
    exact hstored

/-- Each task makes one pool and leaves it. The second one gets that of the first. -/
def onePool : TaskCode ℕ :=
  .enableCache <| .createMemPool ⟨0, 2047, 2048⟩ fun _ => .finish true

theorem mempools_handed_on_two_tasks : ∃ state,
    runSchedule (Threads.next (accessMap twoTasks.entries))
      (.start Store.empty fun thread => taskScript twoTasks thread onePool [] 0 false)
      (List.replicate 8 true ++ List.replicate 15 false) = some state ∧
      (transfers (poolAddress true 0) state.sections).length = 3 ∧
      ∀ pool, HandedOn twoTasks pool (transfers pool state.sections) := by
  have hlength : (runSchedule (Threads.next (accessMap twoTasks.entries))
      (.start Store.empty fun thread => taskScript twoTasks thread onePool [] 0 false)
      (List.replicate 8 true ++ List.replicate 15 false)).map
        (fun state => (transfers (poolAddress true 0) state.sections).length) = some 3 := by
    decide +kernel
  obtain ⟨state, hrun, hthree⟩ := Option.map_eq_some_iff.mp hlength
  exact ⟨state, hrun, hthree, (mempools_handed_on twoTasks (fun _ => onePool) hrun).1⟩

end Example

end Libmoon.Memory
