import Libmoon.InterTask.Namespaces
import Libmoon.Foundation.LockedSections

/-! # Namespaces under their lock

An access to a namespace is not one step. The C++ map is accessed under the lock of the
namespace, but a read returns a pointer that is followed later on. That lock is recursive,
and `ns.lock(func)` holds it around a function, whose accesses take it again.
-/

namespace Libmoon.InterTask

open Foundation

variable {Data : Type}

/-- The accesses to the C++ map. -/
inductive MapAccess where
  | store (key value : LuaString)
  | delete (key : LuaString)
  | retrieve (key : LuaString)
  /-- `ffi.string` of the pointer that a retrieval has returned. -/
  | copy (key : LuaString)
  | iterate
deriving DecidableEq

/-- What an access yields, and what a section comes to. -/
inductive Got (Data : Type) where
  | nothing
  | pointer (null : Bool)
  | string (string : LuaString)
  | entries (entries : List (LuaString × LuaString))
  | value (value : Value Data)
  | assigned (key : Key) (value : Value Data)
deriving DecidableEq

abbrev NsScript (Data : Type) := Script MapAccess (Got Data)

/-- One access. `entries` is the order in which the map is iterated. -/
def accessMap (entries : Store → List (LuaString × LuaString)) (store : Store) :
    MapAccess → Store × Got Data
  | .store key value => (namespaceStore store key value, .nothing)
  | .delete key => (namespaceDelete store key, .nothing)
  | .retrieve key => (store, .pointer (namespaceRetrieve store key).isNone)
  | .copy key => (store, ((namespaceRetrieve store key).map cString).elim .nothing .string)
  | .iterate => (store, .entries (entries store))

/-! ## Scripts -/

/-- `loadstring(ffi.string(val))()` with the pointer that a retrieval has returned. -/
def loadRetrieved (serpent : Serpent (Value Data)) (key : Key)
    (next : Value Data → NsScript Data) : NsScript Data :=
  .act (.copy key.name) fun
    | .string dump => next (readBack (serpent.load dump))
    | _ => .fail

/-- `namespace:__index`, and what is done with the value. -/
def readKey (serpent : Serpent (Value Data)) (key : Key) (next : Value Data → NsScript Data) :
    NsScript Data :=
  .locked (.act (.retrieve key.name) .done) fun
    | .pointer false => loadRetrieved serpent key next
    | _ => next .nil

/-- `namespace:__newindex` -/
def assignKey (serpent : Serpent (Value Data)) (key : Key) (value : Value Data)
    (next : NsScript Data) : NsScript Data :=
  let access : MapAccess :=
    match value with
    | .nil => .delete key.name
    | value => .store key.name (serpent.dump value)
  .locked (.act access fun _ => .done (.assigned key value)) fun _ => next

/-- `namespace:forEach` with a function that makes no accesses itself. -/
def forEach (serpent : Serpent (Value Data))
    (next : List (LuaString × Value Data) → NsScript Data) : NsScript Data :=
  .locked (.act .iterate .done) fun
    | .entries entries =>
        next (entries.map fun entry => (cString entry.1, serpent.load (cString entry.2)))
    | _ => .fail

/-- `lock:__call`. An error in the function is raised again, without the lock. -/
def lockCall (func next : NsScript Data) : NsScript Data := .locked func fun _ => next

/-- A call under the lock is one section if the function returns. -/
theorem firstSection_lockCall {exec : Store → MapAccess → Store × Got Data} {func : NsScript Data}
    (next : NsScript Data) {store store' : Store} {got : Got Data}
    (hrun : func.run exec store = (store', some got)) :
    (lockCall func next).firstSection exec store = some (store', some got, next) := by
  simp [lockCall, Script.firstSection, hrun, Script.proceed]

/-! ## Running by itself -/

/-- The value that a read yields. -/
def held (serpent : Serpent (Value Data)) (store : Store) (key : Key) : Value Data :=
  match namespaceRetrieve store key.name with
  | none => .nil
  | some dump => readBack (serpent.load (cString dump))

theorem index_eq_held (serpent : Serpent (Value Data)) (store : Store) (key : Key) :
    index serpent store key.name = .value (held serpent store key) := by
  rw [index, if_neg key.not_forEach, if_neg key.not_lock, held]
  cases namespaceRetrieve store key.name <;> rfl

theorem newindex_store (serpent : Serpent (Value Data)) (store : Store) (key : Key)
    (value : Value Data) : (newindex serpent store key.name value).2 =
      Function.update store (cString key.name) (stored serpent value) :=
  congrArg Prod.snd (namespace_assign serpent store key value)

theorem held_of_retrieve {serpent : Serpent (Value Data)} {store : Store} {key : Key}
    {value : Value Data} (hstored : namespaceRetrieve store key.name = stored serpent value) :
    held serpent store key = readBack value := by
  rw [held, hstored]
  cases value with
  | nil => rfl
  | boolean value => simp [stored, serpent.load_dump]
  | data data => simp [stored, serpent.load_dump]

theorem retrieve_newindex (serpent : Serpent (Value Data)) (store : Store) (key other : Key)
    (value : Value Data) :
    namespaceRetrieve (newindex serpent store key.name value).2 other.name =
      if cString other.name = cString key.name then stored serpent value
      else namespaceRetrieve store other.name := by
  rw [newindex_store, namespaceRetrieve, namespaceRetrieve, Function.update_apply]

theorem held_newindex (serpent : Serpent (Value Data)) (store : Store) (key other : Key)
    (value : Value Data) : held serpent (newindex serpent store key.name value).2 other =
      if cString other.name = cString key.name then readBack value
      else held serpent store other := by
  have hretrieve := retrieve_newindex serpent store key other value
  by_cases hname : cString other.name = cString key.name
  · rw [if_pos hname] at hretrieve ⊢
    exact held_of_retrieve hretrieve
  · rw [if_neg hname] at hretrieve ⊢
    rw [held, hretrieve, held]

section Running

variable {entries : Store → List (LuaString × LuaString)} {serpent : Serpent (Value Data)}

/-- Without others a read is that of the namespace. -/
theorem run_readKey (key : Key) (next : Value Data → NsScript Data) (store : Store) :
    (readKey serpent key next).run (accessMap entries) store =
      (next (held serpent store key)).run (accessMap entries) store := by
  rw [readKey, held]
  cases hretrieve : namespaceRetrieve store key.name with
  | none => simp [Script.run, accessMap, hretrieve]
  | some dump => simp [Script.run, accessMap, loadRetrieved, hretrieve]

/-- Without others an assignment is that of the namespace. -/
theorem run_assignKey (key : Key) (value : Value Data) (next : NsScript Data) (store : Store) :
    (assignKey serpent key value next).run (accessMap entries) store =
      next.run (accessMap entries) (newindex serpent store key.name value).2 := by
  rw [newindex_store]
  cases value <;>
    simp [assignKey, Script.run, accessMap, namespaceStore, namespaceDelete, stored]

/-- Outside a call under the lock the pointer is followed after the section. -/
theorem firstSection_readKey (next : Value Data → NsScript Data) {key : Key} {store : Store}
    {dump : LuaString} (hretrieve : namespaceRetrieve store key.name = some dump) :
    (readKey serpent key next).firstSection (accessMap entries) store =
      some (store, some (.pointer false), loadRetrieved serpent key next) := by
  simp [readKey, Script.firstSection, Script.run, Script.proceed, accessMap, hretrieve]

/-- Outside a call under the lock an assignment is a section of its own. -/
theorem firstSection_assignKey (key : Key) (value : Value Data) (next : NsScript Data)
    (store : Store) : (assignKey serpent key value next).firstSection (accessMap entries) store =
      some ((newindex serpent store key.name value).2, some (.assigned key value), next) := by
  rw [newindex_store]
  cases value <;>
    simp [assignKey, Script.firstSection, Script.run, Script.proceed, accessMap, namespaceStore,
      namespaceDelete, stored]

section Keeping

variable {property : Store → Prop} {key : Key} {store : Store}

theorem keeps_readKey {next : Value Data → NsScript Data} (hnow : property store)
    (hnext : (next (held serpent store key)).Keeps (accessMap entries) property store) :
    (readKey serpent key next).Keeps (accessMap entries) property store := by
  refine ⟨⟨hnow, hnow⟩, ?_⟩
  intro got hgot
  obtain rfl : Got.pointer (namespaceRetrieve store key.name).isNone = got :=
    Option.some.inj hgot
  rw [held] at hnext
  cases hretrieve : namespaceRetrieve store key.name with
  | none =>
      rw [hretrieve] at hnext
      exact hnext
  | some dump =>
      rw [hretrieve] at hnext
      refine ⟨hnow, ?_⟩
      simp only [Script.run, accessMap, hretrieve]
      exact hnext

theorem keeps_assignKey {value : Value Data} {next : NsScript Data} (hnow : property store)
    (hnext : next.Keeps (accessMap entries) property (newindex serpent store key.name value).2) :
    (assignKey serpent key value next).Keeps (accessMap entries) property store := by
  rw [newindex_store] at hnext
  refine ⟨⟨hnow, ?_⟩, ?_⟩
  · have hassigned := hnext.now
    cases value <;>
      simpa [accessMap, namespaceStore, namespaceDelete, stored, Script.Keeps] using hassigned
  · intro got _
    cases value <;>
      simpa [Script.run, accessMap, namespaceStore, namespaceDelete, stored] using hnext

end Keeping

theorem run_forEach (next : List (LuaString × Value Data) → NsScript Data) (store : Store) :
    (forEach serpent next).run (accessMap entries) store =
      (next ((entries store).map fun entry =>
        (cString entry.1, serpent.load (cString entry.2)))).run (accessMap entries) store := rfl

end Running

end Libmoon.InterTask
