import Libmoon.Foundation.ByteMemory
import Mathlib.Tactic.IntervalCases

/-! # Fields with their bytes

A header that is written field by field holds the bytes of every field in the end, if the
fields do not overlap. If they cover the header, then it equals another one exactly if that
one holds the same fields.
-/

namespace Foundation

/-- Bytes at an offset. -/
structure FieldBytes where
  offset : Nat
  bytes : List UInt8

/-- Where a field is, and its size. -/
def FieldBytes.slot (field : FieldBytes) : Nat × Nat := (field.offset, field.bytes.length)

/-- One slot ends in front of the other. -/
def Apart (first second : Nat × Nat) : Prop :=
  first.1 + first.2 ≤ second.1 ∨ second.1 + second.2 ≤ first.1

instance (first second : Nat × Nat) : Decidable (Apart first second) :=
  inferInstanceAs (Decidable (_ ∨ _))

/-- Slots make up the bytes from 0 to a size. -/
def Fills (slots : List (Nat × Nat)) (size : Nat) : Prop :=
  (∀ slot ∈ slots, slot.1 + slot.2 ≤ size) ∧
    ∀ i < size, ∃ slot ∈ slots, slot.1 ≤ i ∧ i < slot.1 + slot.2

instance (slots : List (Nat × Nat)) (size : Nat) : Decidable (Fills slots size) :=
  inferInstanceAs (Decidable (_ ∧ ∀ i < size, ∃ slot ∈ slots, _))

/-- The bytes of a field are in the memory, counted from a base. -/
def HoldsField (mem : Memory) (base : Nat) (field : FieldBytes) : Prop :=
  mem.load (base + field.offset) field.bytes.length = field.bytes

/-- All fields are there. -/
def Holds (mem : Memory) (base : Nat) (fields : List FieldBytes) : Prop :=
  ∀ field ∈ fields, HoldsField mem base field

variable {mem : Memory} {base : Nat} {field : FieldBytes} {fields : List FieldBytes}

theorem holdsField_store (mem : Memory) (base : Nat) (field : FieldBytes) :
    HoldsField (mem.store (base + field.offset) field.bytes) base field :=
  mem.load_store _ _

/-- Writing another field leaves one alone. -/
theorem HoldsField.store {other : FieldBytes} (hfield : HoldsField mem base field)
    (hapart : Apart field.slot other.slot) :
    HoldsField (mem.store (base + other.offset) other.bytes) base field := by
  refine Eq.trans ?_ hfield
  apply Memory.load_congr
  intro i hlow hhigh
  unfold Apart FieldBytes.slot at hapart
  exact if_neg (by omega)

/-- A header with certain fields is equal to those that hold them, too. -/
theorem Holds.eq_iff {size : Nat} {src : Memory} (hholds : Holds mem base fields)
    (hfills : Fills (fields.map FieldBytes.slot) size) :
    (∀ i < size, mem (base + i) = src (base + i)) ↔ Holds src base fields := by
  constructor
  · intro heq field hfield
    refine Eq.trans ?_ (hholds field hfield)
    apply Memory.load_eq_load
    intro j hj
    have hend := hfills.1 _ (List.mem_map_of_mem hfield)
    unfold FieldBytes.slot at hend
    rw [Nat.add_assoc, heq _ (by omega)]
  · intro hsrc i hi
    obtain ⟨slot, hslot, hlow, hhigh⟩ := hfills.2 i hi
    obtain ⟨field, hfield, rfl⟩ := List.mem_map.mp hslot
    unfold FieldBytes.slot at hlow hhigh
    obtain ⟨j, rfl⟩ := Nat.exists_eq_add_of_le hlow
    have hj : j < field.bytes.length := by omega
    have hload := (hholds field hfield).trans (hsrc field hfield).symm
    have hbyte := congrArg (fun bytes => bytes[j]?) hload
    simpa [Memory.load, hj, Nat.add_assoc] using hbyte

/-- A computation that leaves a header with certain fields makes it a copy of those that hold
them, too. -/
theorem Holds.copies_iff {size : Nat} {src : Memory} {filled : Option Memory}
    (hfilled : filled = some mem) (hholds : Holds mem base fields)
    (hfills : Fills (fields.map FieldBytes.slot) size) :
    (∃ mem', filled = some mem' ∧ ∀ i < size, mem' (base + i) = src (base + i)) ↔
      Holds src base fields := by
  rw [← hholds.eq_iff hfills]
  subst hfilled
  exact ⟨fun ⟨_, heq, hall⟩ => Option.some.inj heq ▸ hall, fun hall => ⟨mem, rfl, hall⟩⟩

end Foundation
