import Libmoon.InterTask.Serialization
import Libmoon.Foundation.Machine
import Mathlib.Data.Set.Function

/-! # Namespaces

A namespace is a C++ map from strings to strings that all tasks share. The Lua
side serialises the values and passes keys and dumps as C strings. It is compared
with what it should be, a map from keys to values, over every sequence of
assignments and reads.
-/

namespace Libmoon.InterTask

open Foundation

/-! ## `namespaces.cpp` -/

/-- The `unordered_map` of a namespace. -/
abbrev Store := LuaString → Option LuaString

def Store.empty : Store := fun _ => none

def namespaceStore (store : Store) (key value : LuaString) : Store :=
  Function.update store (cString key) (some (cString value))

def namespaceDelete (store : Store) (key : LuaString) : Store :=
  Function.update store (cString key) none

def namespaceRetrieve (store : Store) (key : LuaString) : Option LuaString :=
  store (cString key)

/-! ## `namespaces.lua` -/

/-- "forEach" -/
def forEachName : LuaString := [0x66, 0x6f, 0x72, 0x45, 0x61, 0x63, 0x68]
/-- "lock" -/
def lockName : LuaString := [0x6c, 0x6f, 0x63, 0x6b]

/-- What an access to a namespace evaluates to. -/
inductive Reply (Data : Type) where
  | value (value : Value Data)
  | forEach
  | lock
  | stored
  /-- "… is reserved" -/
  | fatal (key : LuaString)
deriving DecidableEq

variable {Data : Type}

/-- The value that a read makes of what was stored: `… and value or nil`. -/
def readBack (value : Value Data) : Value Data := if value.truthy then value else .nil

/-- `namespace:__index`. -/
def index (serpent : Serpent (Value Data)) (store : Store) (key : LuaString) : Reply Data :=
  if key = forEachName then
    .forEach
  else if key = lockName then
    .lock
  else
    match namespaceRetrieve store key with
    | none => .value .nil
    | some dump => .value (readBack (serpent.load (cString dump)))

/-- `namespace:__newindex`. -/
def newindex (serpent : Serpent (Value Data)) (store : Store) (key : LuaString)
    (value : Value Data) : Reply Data × Store :=
  if key = forEachName ∨ key = lockName then
    (.fatal key, store)
  else
    match value with
    | .nil => (.stored, namespaceDelete store key)
    | value => (.stored, namespaceStore store key (serpent.dump value))

/-- A key that is not one of the reserved member names. -/
@[ext] structure Key where
  name : LuaString
  not_forEach : name ≠ forEachName
  not_lock : name ≠ lockName

instance : DecidableEq Key := fun key other =>
  decidable_of_iff (key.name = other.name) ⟨Key.ext, congrArg Key.name⟩

inductive Access (Data : Type) where
  | assign (key : Key) (value : Value Data)
  | read (key : Key)

/-- A namespace in use. -/
def namespaceMachine (serpent : Serpent (Value Data)) : Machine Store (Access Data) (Reply Data) where
  step store access :=
    match access with
    | .assign key value => newindex serpent store key.name value
    | .read key => (index serpent store key.name, store)

/-- What a namespace should be: a map from keys to values in which nil is absence. -/
def mapMachine (Data : Type) : Machine (Key → Value Data) (Access Data) (Reply Data) where
  step map access :=
    match access with
    | .assign key value => (.stored, Function.update map key value)
    | .read key => (.value (map key), map)

/-- Every answer is the map's answer. -/
def ActsAsMap (serpent : Serpent (Value Data)) (accesses : List (Access Data)) : Prop :=
  (namespaceMachine serpent).answers Store.empty accesses =
    (mapMachine Data).answers (fun _ => .nil) accesses

/-- The access uses only these keys and assigns only these values. -/
def Access.Within (keys : Set Key) (values : Set (Value Data)) : Access Data → Prop
  | .assign key value => key ∈ keys ∧ value ∈ values
  | .read key => key ∈ keys

/-! ## One access -/

/-- What the map holds for a value. -/
def stored (serpent : Serpent (Value Data)) : Value Data → Option LuaString
  | .nil => none
  | value => some (serpent.dump value)

theorem readBack_of_ne_false {value : Value Data} (hvalue : value ≠ .boolean false) :
    readBack value = value := by
  cases value with
  | nil => rfl
  | boolean value =>
      cases value with
      | false => exact absurd rfl hvalue
      | true => rfl
  | data value => rfl

theorem namespace_assign (serpent : Serpent (Value Data)) (store : Store) (key : Key)
    (value : Value Data) :
    (namespaceMachine serpent).step store (.assign key value) =
      (.stored, Function.update store (cString key.name) (stored serpent value)) := by
  have hkey : ¬ (key.name = forEachName ∨ key.name = lockName) :=
    not_or.mpr ⟨key.not_forEach, key.not_lock⟩
  cases value <;>
    simp [namespaceMachine, newindex, hkey, stored, namespaceDelete, namespaceStore]

theorem namespace_read {serpent : Serpent (Value Data)} {store : Store} {key : Key}
    {value : Value Data} (hstore : store (cString key.name) = stored serpent value) :
    (namespaceMachine serpent).step store (.read key) = (.value (readBack value), store) := by
  cases value <;>
    simp [namespaceMachine, index, key.not_forEach, key.not_lock, namespaceRetrieve, hstore,
      stored, serpent.load_dump]
  rfl

/-! ## Whole sequences -/

/-- For each key in use the store holds what was assigned last, or nothing. -/
def Represents (serpent : Serpent (Value Data)) (keys : Set Key) (values : Set (Value Data))
    (store : Store) (map : Key → Value Data) : Prop :=
  ∀ key ∈ keys, store (cString key.name) = stored serpent (map key) ∧
    (map key = .nil ∨ map key ∈ values)

/-- The keys can be told apart on the C side, or there is nothing to tell apart. -/
def Distinguishable (keys : Set Key) (values : Set (Value Data)) : Prop :=
  Set.InjOn (fun key : Key => cString key.name) keys ∨ ∀ value ∈ values, value = .nil

theorem represents_assign {serpent : Serpent (Value Data)} {keys : Set Key}
    {values : Set (Value Data)} (hkeys : Distinguishable keys values) {store : Store}
    {map : Key → Value Data} (hmap : Represents serpent keys values store map) {key : Key}
    (hkey : key ∈ keys) {value : Value Data} (hvalue : value ∈ values) :
    Represents serpent keys values
      (Function.update store (cString key.name) (stored serpent value))
      (Function.update map key value) := by
  intro other hother
  obtain ⟨hstore, hheld⟩ := hmap other hother
  by_cases heq : other = key
  · subst heq
    simp [hvalue]
  · rw [Function.update_of_ne heq]
    refine ⟨?_, hheld⟩
    by_cases hname : cString other.name = cString key.name
    · -- two keys of one name: nothing but nil is ever assigned to either
      rcases hkeys with hinj | hnil
      · exact absurd (hinj hother hkey hname) heq
      · have hother : map other = .nil := hheld.elim id (hnil _)
        rw [hname, Function.update_self, hnil value hvalue, hother]
    · rw [Function.update_of_ne hname]
      exact hstore

theorem represents_step {serpent : Serpent (Value Data)} {keys : Set Key}
    {values : Set (Value Data)} (hfalse : .boolean false ∉ values)
    (hkeys : Distinguishable keys values) (store : Store) (map : Key → Value Data)
    (access : Access Data) (hmap : Represents serpent keys values store map)
    (hwithin : access.Within keys values) :
    ((namespaceMachine serpent).step store access).1 = ((mapMachine Data).step map access).1 ∧
      Represents serpent keys values ((namespaceMachine serpent).step store access).2
        ((mapMachine Data).step map access).2 := by
  cases access with
  | assign key value =>
      rw [namespace_assign]
      exact ⟨rfl, represents_assign hkeys hmap hwithin.1 hwithin.2⟩
  | read key =>
      obtain ⟨hstore, hheld⟩ := hmap key hwithin
      have hvalue : map key ≠ .boolean false := by
        rcases hheld with hnil | hmem
        · simp [hnil]
        · exact fun heq => hfalse (heq ▸ hmem)
      rw [namespace_read hstore, readBack_of_ne_false hvalue]
      exact ⟨rfl, hmap⟩

theorem actsAsMap_of_within {serpent : Serpent (Value Data)} {keys : Set Key}
    {values : Set (Value Data)} (hfalse : .boolean false ∉ values)
    (hkeys : Distinguishable keys values) {accesses : List (Access Data)}
    (hwithin : ∀ access ∈ accesses, access.Within keys values) : ActsAsMap serpent accesses := by
  apply (namespaceMachine serpent).answers_eq_of_related (mapMachine Data)
    (represents_step hfalse hkeys) _ hwithin
  intro key _
  exact ⟨rfl, .inl rfl⟩

/-- An assignment to one key and a read of another with the same C string. -/
theorem actsAsMap_assign_read_iff (serpent : Serpent (Value Data)) {key other : Key}
    (hname : cString other.name = cString key.name) (value : Value Data) :
    ActsAsMap serpent [.assign key value, .read other] ↔
      readBack value = if other = key then value else .nil := by
  have hstore : Function.update Store.empty (cString key.name) (stored serpent value)
      (cString other.name) = stored serpent value := by
    rw [hname, Function.update_self]
  simp only [ActsAsMap, Machine.answers, namespace_assign, namespace_read hstore, mapMachine,
    Function.update_apply, List.cons.injEq, true_and, and_true, Reply.value.injEq]

/-- A namespace behaves as a map in every sequence of accesses with the given
keys and values exactly when false is never assigned and the keys differ before
their first NUL byte; or else when nothing can be observed at all. -/
theorem namespace_actsAsMap_iff (serpent : Serpent (Value Data)) (keys : Set Key)
    (values : Set (Value Data)) :
    (∀ accesses : List (Access Data), (∀ access ∈ accesses, access.Within keys values) →
        ActsAsMap serpent accesses) ↔
      keys = ∅ ∨ (.boolean false ∉ values ∧ Distinguishable keys values) := by
  constructor
  · intro hmap
    rw [or_iff_not_imp_left]
    intro hnonempty
    obtain ⟨key, hkey⟩ := Set.nonempty_iff_ne_empty.mpr hnonempty
    -- one assignment and one read are enough
    have hassign : ∀ key ∈ keys, ∀ other ∈ keys, ∀ value ∈ values,
        cString other.name = cString key.name →
          readBack value = if other = key then value else .nil := by
      intro key hkey other hother value hvalue hname
      apply (actsAsMap_assign_read_iff serpent hname value).mp
      apply hmap
      simp [Access.Within, hkey, hother, hvalue]
    have hfalse : .boolean false ∉ values := by
      intro hmem
      have hread := hassign key hkey key hkey _ hmem rfl
      rw [if_pos rfl] at hread
      simp [readBack, Value.truthy] at hread
    refine ⟨hfalse, ?_⟩
    rw [Distinguishable, or_iff_not_imp_right]
    intro hsome key hkey other hother hname
    obtain ⟨value, hvalue, hne⟩ : ∃ value ∈ values, value ≠ .nil := by
      simpa using hsome
    by_contra hdiff
    have hread := hassign other hother key hkey value hvalue hname
    rw [if_neg hdiff, readBack_of_ne_false (fun heq => hfalse (heq ▸ hvalue))] at hread
    exact hne hread
  · intro hcondition accesses hwithin
    rcases hcondition with rfl | ⟨hfalse, hkeys⟩
    · cases accesses with
      | nil => rfl
      | cons access rest =>
          have hfirst := hwithin access List.mem_cons_self
          cases access <;> simp [Access.Within] at hfirst
    · exact actsAsMap_of_within hfalse hkeys hwithin

/-! ## A stored false -/

/-- Serpent on nil and the booleans. -/
def booleanSerpent : Serpent (Value Empty) :=
  .ofBody literal evalLiteral evalLiteral_literal literal_no_nul

/-- The key "done". -/
def doneKey : Key := ⟨[0x64, 0x6f, 0x6e, 0x65], by decide, by decide⟩

/-- A stored false reads as nil. -/
theorem false_reads_nil :
    ¬ ∀ (Data : Type) (serpent : Serpent (Value Data)) (accesses : List (Access Data)),
      ActsAsMap serpent accesses := by
  intro halways
  have hmap := halways Empty booleanSerpent [.assign doneKey (.boolean false), .read doneKey]
  rw [actsAsMap_assign_read_iff _ rfl] at hmap
  exact absurd hmap (by decide)

end Libmoon.InterTask
