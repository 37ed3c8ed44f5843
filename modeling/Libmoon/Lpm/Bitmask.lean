import Mathlib.Tactic.Common

/-! # Bitmasks

The operators of `bitmask.lua` on the C functions behind them. Indices begin with one in Lua
and with zero in C.
-/

namespace Libmoon.Lpm

/-- The functions on `struct mg_bitmask` as documented: bits below the size are set, cleared
and read one by one. -/
structure BitmaskFunctions (Mask : Type) where
  size : Mask → ℕ
  getBit : Mask → ℕ → UInt8
  setBit : Mask → ℕ → Mask
  clearBit : Mask → ℕ → Mask
  size_setBit : ∀ mask n, n < size mask → size (setBit mask n) = size mask
  size_clearBit : ∀ mask n, n < size mask → size (clearBit mask n) = size mask
  getBit_setBit : ∀ mask n, n < size mask → getBit (setBit mask n) n ≠ 0
  getBit_clearBit : ∀ mask n, n < size mask → getBit (clearBit mask n) n = 0
  getBit_setBit_of_ne : ∀ mask n k, n < size mask → k < size mask → k ≠ n →
    getBit (setBit mask n) k = getBit mask k
  getBit_clearBit_of_ne : ∀ mask n k, n < size mask → k < size mask → k ≠ n →
    getBit (clearBit mask n) k = getBit mask k

namespace BitmaskFunctions

variable {Mask : Type} (bitmask : BitmaskFunctions Mask)

/-- `mask[x]` -/
def index (mask : Mask) (x : ℕ) : Bool := bitmask.getBit mask (x - 1) ≠ 0

/-- `mask[x] = y` -/
def newindex (mask : Mask) (x y : ℕ) : Mask :=
  if y = 0 then bitmask.clearBit mask (x - 1) else bitmask.setBit mask (x - 1)

variable {bitmask} {mask : Mask} {n k : ℕ}

theorem size_newindex (y : ℕ) (hn : n < bitmask.size mask) :
    bitmask.size (bitmask.newindex mask (n + 1) y) = bitmask.size mask := by
  unfold newindex
  split
  · exact bitmask.size_clearBit mask n hn
  · exact bitmask.size_setBit mask n hn

theorem index_newindex (y : ℕ) (hn : n < bitmask.size mask) :
    bitmask.index (bitmask.newindex mask (n + 1) y) (n + 1) = true ↔ y ≠ 0 := by
  unfold newindex index
  split
  next hy => simp [bitmask.getBit_clearBit mask n hn, hy]
  next hy => simp [bitmask.getBit_setBit mask n hn, hy]

theorem index_newindex_of_ne (y : ℕ) (hn : n < bitmask.size mask) (hk : k < bitmask.size mask)
    (hne : k ≠ n) :
    bitmask.index (bitmask.newindex mask (n + 1) y) (k + 1) = bitmask.index mask (k + 1) := by
  unfold newindex index
  split
  · simp [bitmask.getBit_clearBit_of_ne mask n k hn hk hne]
  · simp [bitmask.getBit_setBit_of_ne mask n k hn hk hne]

end BitmaskFunctions

end Libmoon.Lpm
