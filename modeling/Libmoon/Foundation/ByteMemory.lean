import Mathlib.Algebra.BigOperators.Group.List.Basic
import Mathlib.Algebra.GroupWithZero.Nat
import Mathlib.Data.List.GetD
import Mathlib.Tactic.Common

/-! # Byte-addressed memory and traced reads

A memory is a total function from addresses to bytes; what is mapped and what is
not is a matter of the spans a computation touches. Words are little endian, as
on the hosts DPDK runs on. `Traced` computations record every span they read, in
program order, next to the value they return.
-/

namespace Foundation

universe u v

/-- The byte at every address. -/
abbrev Memory : Type := Nat → UInt8

namespace Memory

/-- The `length` bytes from `start` on. -/
def load (mem : Memory) (start length : Nat) : List UInt8 :=
  (List.range' start length).map mem

/-- Overwrite the bytes from `start` on. -/
def store (mem : Memory) (start : Nat) (bytes : List UInt8) : Memory := fun i =>
  if start ≤ i ∧ i < start + bytes.length then bytes.getD (i - start) 0 else mem i

/-- The 16-bit word at an address. -/
def word16 (mem : Memory) (start : Nat) : UInt16 :=
  UInt16.ofNat ((mem start).toNat + 2 ^ 8 * (mem (start + 1)).toNat)

/-- The 32-bit word at an address. -/
def word32 (mem : Memory) (start : Nat) : UInt32 :=
  UInt32.ofNat ((mem start).toNat + 2 ^ 8 * (mem (start + 1)).toNat +
    2 ^ 16 * (mem (start + 2)).toNat + 2 ^ 24 * (mem (start + 3)).toNat)

end Memory

/-- The bytes of a 16-bit word. -/
def le16 (word : UInt16) : List UInt8 :=
  [UInt8.ofNat word.toNat, UInt8.ofNat (word.toNat / 2 ^ 8)]

/-- The bytes of a 32-bit word. -/
def le32 (word : UInt32) : List UInt8 :=
  [UInt8.ofNat word.toNat, UInt8.ofNat (word.toNat / 2 ^ 8),
    UInt8.ofNat (word.toNat / 2 ^ 16), UInt8.ofNat (word.toNat / 2 ^ 24)]

@[simp] theorem length_le16 (word : UInt16) : (le16 word).length = 2 := rfl

@[simp] theorem length_le32 (word : UInt32) : (le32 word).length = 4 := rfl

namespace Memory

variable (mem : Memory)

@[simp] theorem length_load (start length : Nat) : (mem.load start length).length = length := by
  simp [load]

theorem load_add (start first second : Nat) :
    mem.load start (first + second) = mem.load start first ++ mem.load (start + first) second := by
  rw [load, ← List.range'_append_1, List.map_append]
  rfl

/-- Memories that agree on spans of one length load the same bytes from them. -/
theorem load_eq_load {mem mem' : Memory} {start start' length : Nat}
    (hagree : ∀ j < length, mem (start + j) = mem' (start' + j)) :
    mem.load start length = mem'.load start' length := by
  induction length with
  | zero => rfl
  | succ length ih =>
      rw [load_add, load_add, ih fun j hj => hagree j (by omega)]
      exact congrArg (fun byte => _ ++ [byte]) (hagree length (by omega))

/-- Memories that agree on a span load the same bytes from it. -/
theorem load_congr {mem mem' : Memory} {start length : Nat}
    (hagree : ∀ i, start ≤ i → i < start + length → mem i = mem' i) :
    mem.load start length = mem'.load start length := by
  apply List.map_congr_left
  intro i hi
  rw [List.mem_range'_1] at hi
  exact hagree i hi.1 hi.2

theorem store_of_lt {start i : Nat} (bytes : List UInt8) (hi : i < start) :
    mem.store start bytes i = mem i := by
  unfold store
  rw [if_neg (by omega)]

/-- What was stored is loaded again. -/
theorem load_store (start : Nat) (bytes : List UInt8) :
    (mem.store start bytes).load start bytes.length = bytes := by
  apply List.ext_getElem
  · simp
  · intro k hk hk'
    simp only [load, List.getElem_map, List.getElem_range', store]
    rw [if_pos (by omega), List.getD_eq_getElem _ _ (by omega)]
    congr 1
    omega

/-- A store in front of which another one ends leaves that one alone. -/
theorem load_store_of_le {start start' length : Nat} (bytes : List UInt8)
    (hle : start' + length ≤ start) :
    (mem.store start bytes).load start' length = mem.load start' length := by
  apply load_congr
  intro i _ hi
  exact mem.store_of_lt bytes (by omega)

/-- Two adjacent stores are one. -/
theorem store_append (start : Nat) (first second : List UInt8) :
    (mem.store start first).store (start + first.length) second =
      mem.store start (first ++ second) := by
  funext i
  unfold store
  rw [List.length_append]
  by_cases hsecond : start + first.length ≤ i ∧ i < start + first.length + second.length
  · rw [if_pos hsecond, if_pos (by omega), List.getD_append_right _ _ _ _ (by omega)]
    congr 1
    omega
  · rw [if_neg hsecond]
    by_cases hfirst : start ≤ i ∧ i < start + first.length
    · rw [if_pos hfirst, if_pos (by omega), List.getD_append _ _ _ _ (by omega)]
    · rw [if_neg hfirst, if_neg (by omega)]

/-- The same if the second one has been stored first. -/
theorem store_in_front (start : Nat) (first second : List UInt8) :
    (mem.store (start + first.length) second).store start first =
      mem.store start (first ++ second) := by
  rw [← store_append]
  funext i
  unfold store
  split_ifs <;> first | rfl | omega

theorem store_nil (start : Nat) : mem.store start [] = mem := by
  funext i
  exact if_neg (by simp)

/-- What is loaded as two parts is loaded part by part. -/
theorem load_append_inv {mem : Memory} {start : Nat} {first second : List UInt8}
    (hload : mem.load start (first ++ second).length = first ++ second) :
    mem.load start first.length = first ∧
      mem.load (start + first.length) second.length = second := by
  rw [List.length_append, load_add] at hload
  exact List.append_inj hload (by simp)

theorem word32_of_load {start : Nat} {word : UInt32} (hload : mem.load start 4 = le32 word) :
    mem.word32 start = word := by
  simp only [load, List.range', List.map_cons, List.map_nil, le32, List.cons.injEq,
    and_true] at hload
  obtain ⟨h0, h1, h2, h3⟩ := hload
  apply UInt32.toNat_inj.mp
  have hword := word.toNat_lt
  rw [word32, h0, h1, h2, h3, UInt32.toNat_ofNat']
  simp only [UInt8.toNat_ofNat']
  omega

theorem word16_of_load {start : Nat} {word : UInt16} (hload : mem.load start 2 = le16 word) :
    mem.word16 start = word := by
  simp only [load, List.range', List.map_cons, List.map_nil, le16, List.cons.injEq,
    and_true] at hload
  obtain ⟨h0, h1⟩ := hload
  apply UInt16.toNat_inj.mp
  have hword := word.toNat_lt
  rw [word16, h0, h1, UInt16.toNat_ofNat']
  simp only [UInt8.toNat_ofNat']
  omega

end Memory

/-! ## Traced reads -/

/-- The addresses `start .. start + length - 1`. -/
structure Span where
  start : Nat
  length : Nat
deriving DecidableEq, Repr

/-- Every address of the span is below a bound. -/
def Span.Below (span : Span) (bound : Nat) : Prop :=
  span.length = 0 ∨ span.start + span.length ≤ bound

instance (span : Span) (bound : Nat) : Decidable (span.Below bound) :=
  inferInstanceAs (Decidable (_ ∨ _))

/-- Every address of the span is at least `low` and below `high`. -/
def Span.Within (span : Span) (low high : Nat) : Prop :=
  span.length = 0 ∨ low ≤ span.start ∧ span.start + span.length ≤ high

instance (span : Span) (low high : Nat) : Decidable (span.Within low high) :=
  inferInstanceAs (Decidable (_ ∨ _))

/-- A value together with the spans that were read to compute it. -/
structure Traced (α : Type u) where
  value : α
  reads : List Span

namespace Traced

variable {α : Type u} {β : Type u}

instance : Monad Traced where
  pure value := ⟨value, []⟩
  bind first next := ⟨(next first.value).value, first.reads ++ (next first.value).reads⟩

@[simp] theorem value_pure (value : α) : (pure value : Traced α).value = value := rfl

@[simp] theorem reads_pure (value : α) : (pure value : Traced α).reads = [] := rfl

@[simp] theorem value_bind (first : Traced α) (next : α → Traced β) :
    (first >>= next).value = (next first.value).value := rfl

@[simp] theorem reads_bind (first : Traced α) (next : α → Traced β) :
    (first >>= next).reads = first.reads ++ (next first.value).reads := rfl

theorem bind_mk (value : α) (reads : List Span) (next : α → Traced β) :
    ((⟨value, reads⟩ : Traced α) >>= next) = ⟨(next value).value, reads ++ (next value).reads⟩ :=
  rfl

/-- Read a byte. -/
def byte (mem : Memory) (start : Nat) : Traced UInt8 := ⟨mem start, [⟨start, 1⟩]⟩

/-- Read a 32-bit word. -/
def word32 (mem : Memory) (start : Nat) : Traced UInt32 := ⟨mem.word32 start, [⟨start, 4⟩]⟩

/-- Read a run of bytes. -/
def load (mem : Memory) (start length : Nat) : Traced (List UInt8) :=
  ⟨mem.load start length, [⟨start, length⟩]⟩

end Traced

end Foundation
