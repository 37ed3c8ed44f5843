import Libmoon.Foundation.BitMemory

/-! # Layout of C structures

The members of a structure stand in the order of their declaration, each at the
next multiple of its size. Two declarations of a structure that one program writes
with and another one reads with agree on the members they share as long as these
come first.
-/

namespace Foundation

universe u

variable {Name : Type u}

/-- A scalar member, whose alignment is its size. -/
structure Member (Name : Type u) where
  name : Name
  size : Nat

/-- Where a member stands. -/
structure Slot (Name : Type u) where
  name : Name
  offset : Nat
  size : Nat

/-- The next multiple of a size. -/
def alignUp (position size : Nat) : Nat := (position + size - 1) / size * size

/-- The members of a structure from a position on. -/
def placeFrom : Nat → List (Member Name) → List (Slot Name)
  | _, [] => []
  | position, member :: rest =>
      let offset := alignUp position member.size
      ⟨member.name, offset, member.size⟩ :: placeFrom (offset + member.size) rest

/-- The slots of a structure. -/
def layout (members : List (Member Name)) : List (Slot Name) := placeFrom 0 members

/-- `sizeof`: the end of the last member, up to a multiple of the largest alignment. -/
def sizeOfStruct (members : List (Member Name)) : Nat :=
  alignUp ((layout members).foldl (fun _ slot => slot.offset + slot.size) 0)
    ((members.map Member.size).foldl max 1)

/-- Write a value into every slot of a structure at an address, cut to the size of the slot. -/
def fillSlots (base : Nat) (value : Name → Nat) : List (Slot Name) → Memory → Memory
  | [], mem => mem
  | slot :: rest, mem =>
      fillSlots base value rest
        (mem.setWord (base + slot.offset) (BitVec.ofNat (8 * slot.size) (value slot.name)))

theorem le_alignUp (position : Nat) {size : Nat} (hsize : 0 < size) :
    position ≤ alignUp position size := by
  have hdiv := Nat.div_add_mod (position + size - 1) size
  have hmod := Nat.mod_lt (position + size - 1) hsize
  rw [alignUp, Nat.mul_comm]
  omega

theorem placeFrom_offset {members : List (Member Name)} (hsize : ∀ member ∈ members, 0 < member.size)
    (position : Nat) : ∀ slot ∈ placeFrom position members, position ≤ slot.offset := by
  induction members generalizing position with
  | nil => exact nofun
  | cons member rest ih =>
      have hnext := le_alignUp position (hsize member List.mem_cons_self)
      intro slot hslot
      rcases List.mem_cons.mp hslot with rfl | hslot
      · exact hnext
      · have hlater := ih (fun later hmem => hsize later (List.mem_cons_of_mem _ hmem)) _ slot hslot
        omega

/-- Slots behind a word leave it alone. -/
theorem word_fillSlots_of_le {base start size : Nat} {slots : List (Slot Name)}
    (hbehind : ∀ slot ∈ slots, start + size ≤ base + slot.offset) (value : Name → Nat)
    (mem : Memory) : (fillSlots base value slots mem).word start size = mem.word start size := by
  induction slots generalizing mem with
  | nil => rfl
  | cons slot rest ih =>
      rw [fillSlots, ih fun later hlater => hbehind later (List.mem_cons_of_mem _ hlater)]
      exact Memory.word_setWord_of_disjoint _ (.inl (hbehind slot List.mem_cons_self))

/-- What was written into a slot of a structure is read from it. -/
theorem word_fillSlots {members : List (Member Name)}
    (hsize : ∀ member ∈ members, 0 < member.size) (base position : Nat) (value : Name → Nat)
    (mem : Memory) : ∀ slot ∈ placeFrom position members,
      (fillSlots base value (placeFrom position members) mem).word (base + slot.offset)
        slot.size = BitVec.ofNat (8 * slot.size) (value slot.name) := by
  induction members generalizing position mem with
  | nil => exact nofun
  | cons member rest ih =>
      have hrest : ∀ later ∈ rest, 0 < later.size :=
        fun later hmem => hsize later (List.mem_cons_of_mem _ hmem)
      intro slot hslot
      rcases List.mem_cons.mp hslot with rfl | hslot
      · rw [placeFrom, fillSlots, word_fillSlots_of_le, Memory.word_setWord]
        intro later hlater
        have hlater := placeFrom_offset hrest _ later hlater
        show base + alignUp position member.size + member.size ≤ base + later.offset
        omega
      · exact ih hrest _ _ slot hslot

end Foundation
