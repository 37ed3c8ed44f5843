import Libmoon.Foundation.LuaBit
import Mathlib.Data.Int.CardIntervalMod

/-! # The RSS redirection table

`setRssQueues` fills the redirection table in groups of 64 entries. A counter goes round the
queues and is carried on from one group to the next.
-/

namespace Libmoon.Device

open Foundation

/-- `struct rte_eth_rss_reta_entry64`. -/
structure RetaEntry64 where
  mask : UInt64
  reta : List UInt16
  length_reta : reta.length = 64

/-- The arguments of `rte_eth_dev_rss_reta_update`. -/
structure RetaUpdate where
  entries : List RetaEntry64
  retaSize : ℕ

/-- `setRssQueues` with the calls that it makes: a warning, the update of the table, and the
error it ends with. -/
structure RssRun where
  warned : Bool
  update : Option RetaUpdate
  error : Option String

/-- The queue after another one. -/
def nextQueue (baseQueue n queue : ℕ) : ℕ :=
  if queue + 1 = baseQueue + n then baseQueue else queue + 1

/-- The inner loop: the entries of a group and the queue it ends with. -/
def fillReta (baseQueue n : ℕ) : ℕ → ℕ → List UInt16 × ℕ
  | 0, queue => ([], queue)
  | left + 1, queue =>
      let (reta, last) := fillReta baseQueue n left (nextQueue baseQueue n queue)
      (UInt16.ofNat queue :: reta, last)

theorem length_fillReta (baseQueue n left queue : ℕ) :
    (fillReta baseQueue n left queue).1.length = left := by
  induction left generalizing queue with
  | zero => rfl
  | succ left ih => exact congrArg (· + 1) (ih _)

/-- The outer loop. -/
def fillEntries (baseQueue n : ℕ) : ℕ → ℕ → List RetaEntry64
  | 0, _ => []
  | left + 1, queue =>
      ⟨0xFFFFFFFFFFFFFFFF, (fillReta baseQueue n 64 queue).1,
        length_fillReta baseQueue n 64 queue⟩ ::
        fillEntries baseQueue n left (fillReta baseQueue n 64 queue).2

/-- `dev:setRssQueues`, where `update` is what `rte_eth_dev_rss_reta_update` returns, and
`strError` the text for an error. The size of the table is one of the device. -/
def setRssQueues (retaSize : UInt16) (update : RetaUpdate → ℤ) (strError : ℤ → String) (n : ℕ)
    (baseQueue : Option ℕ) : RssRun :=
  let baseQueue := baseQueue.getD 0
  -- unbalanced unless the number of queues is a power of two
  let warned := decide (tobit n &&& tobit (n - 1) ≠ 0)
  if ¬ n > 0 then ⟨false, none, some "assertion failed!"⟩
  else if retaSize.toNat % 64 ≠ 0 then
    ⟨warned, none, some "NYI: number of RETA entries is not a multiple of 64"⟩
  else
    let call : RetaUpdate :=
      ⟨fillEntries baseQueue n (retaSize.toNat / 64) baseQueue, retaSize.toNat⟩
    let ret := update call
    if ret ≠ 0 then ⟨warned, some call, some ("Error setting up RETA table: " ++ strError ret)⟩
    else ⟨warned, some call, none⟩

/-- `dev:setRssQueues` of `mlx5.lua`. -/
def mlx5SetRssQueues (update : RetaUpdate → ℤ) (strError : ℤ → String) (n : ℕ)
    (baseQueue : Option ℕ) : RssRun :=
  let baseQueue := baseQueue.getD 0
  let warned := decide (tobit n &&& tobit (n - 1) ≠ 0)
  if ¬ n > 0 then ⟨false, none, some "assertion failed!"⟩
  else
    let retaSize := 64
    let call : RetaUpdate := ⟨fillEntries baseQueue n (retaSize / 64) baseQueue, retaSize⟩
    let ret := update call
    if ret ≠ 0 then ⟨warned, some call, some ("Error setting up RETA table: " ++ strError ret)⟩
    else ⟨warned, some call, none⟩

/-! ## The rotation -/

/-- The counter after some entries. -/
theorem nextQueue_add_mod {baseQueue n : ℕ} (hn : 0 < n) (k : ℕ) :
    nextQueue baseQueue n (baseQueue + k % n) = baseQueue + (k + 1) % n := by
  have hlt := Nat.mod_lt k hn
  rw [nextQueue]
  -- the last queue is followed by the first one
  split
  next hlast =>
    have hmod : k % n = n - 1 := by omega
    rw [← Nat.mod_add_mod, hmod, Nat.sub_add_cancel hn, Nat.mod_self, Nat.add_zero]
  next hmore =>
    rw [← Nat.mod_add_mod, Nat.mod_eq_of_lt (show k % n + 1 < n by omega)]
    rfl

theorem fillReta_eq {baseQueue n : ℕ} (hn : 0 < n) (left k : ℕ) :
    fillReta baseQueue n left (baseQueue + k % n) =
      ((List.range' k left).map fun i => UInt16.ofNat (baseQueue + i % n),
        baseQueue + (k + left) % n) := by
  induction left generalizing k with
  | zero => rfl
  | succ left ih =>
      rw [fillReta, nextQueue_add_mod hn, ih]
      simp only [List.range'_succ, List.map_cons, Nat.add_assoc, Nat.add_comm 1]

/-- The entries of all groups, one after the other. -/
def RetaUpdate.table (update : RetaUpdate) : List UInt16 :=
  update.entries.flatMap RetaEntry64.reta

theorem flatMap_fillEntries {baseQueue n : ℕ} (hn : 0 < n) (left k : ℕ) :
    (fillEntries baseQueue n left (baseQueue + k % n)).flatMap RetaEntry64.reta =
      (List.range' k (64 * left)).map fun i => UInt16.ofNat (baseQueue + i % n) := by
  induction left generalizing k with
  | zero => rfl
  | succ left ih =>
      rw [fillEntries, List.flatMap_cons]
      simp only [fillReta_eq hn]
      rw [ih, ← List.map_append, Nat.mul_succ, Nat.add_comm (64 * left), ← List.range'_append,
        Nat.one_mul]

theorem length_fillEntries (baseQueue n left queue : ℕ) :
    (fillEntries baseQueue n left queue).length = left := by
  induction left generalizing queue with
  | zero => rfl
  | succ left ih => exact congrArg (· + 1) (ih _)

theorem mask_of_mem_fillEntries {baseQueue n left queue : ℕ} {group : RetaEntry64}
    (hgroup : group ∈ fillEntries baseQueue n left queue) :
    group.mask = 0xFFFFFFFFFFFFFFFF := by
  induction left generalizing queue with
  | zero => cases hgroup
  | succ left ih =>
      rcases List.mem_cons.mp hgroup with rfl | hrest
      · rfl
      · exact ih hrest

/-- How often a queue is reached in a number of steps. -/
theorem count_rotation {n : ℕ} (hn : 0 < n) (size baseQueue queue : ℕ) (hqueue : queue < n) :
    ((List.range size).map fun k => baseQueue + k % n).count (baseQueue + queue) =
      size / n + if queue < size % n then 1 else 0 := by
  have hcount := Nat.count_modEq_card size hn queue
  rw [Nat.mod_eq_of_lt hqueue] at hcount
  rw [← hcount, Nat.count, List.count_eq_countP, List.countP_map]
  apply List.countP_congr
  intro k _
  simp [Nat.ModEq, Nat.mod_eq_of_lt hqueue]

section RoundRobin

variable {n base : ℕ}

theorem update_setRssQueues (update : RetaUpdate → ℤ) (strError : ℤ → String) (hn : 0 < n)
    (baseQueue : Option ℕ) {retaSize : UInt16} (hsize : 64 ∣ retaSize.toNat) :
    (setRssQueues retaSize update strError n baseQueue).update =
      some ⟨fillEntries (baseQueue.getD 0) n (retaSize.toNat / 64) (baseQueue.getD 0),
        retaSize.toNat⟩ := by
  rw [setRssQueues, if_neg (not_not_intro hn),
    if_neg (not_not_intro (Nat.mod_eq_zero_of_dvd hsize))]
  dsimp only
  split <;> rfl

/-- The check for a multiple of 64, which `mlx5.lua` leaves out, passes for 64 entries. -/
theorem mlx5SetRssQueues_eq (update : RetaUpdate → ℤ) (strError : ℤ → String) (n : ℕ)
    (baseQueue : Option ℕ) :
    mlx5SetRssQueues update strError n baseQueue =
      setRssQueues 64 update strError n baseQueue := by
  have hmultiple : ¬ (64 : UInt16).toNat % 64 ≠ 0 := by decide
  rw [setRssQueues, if_neg hmultiple]
  rfl

theorem table_eq {retaSize : ℕ} (hn : 0 < n) (hfits : base + n ≤ 65536) (hsize : 64 ∣ retaSize) :
    (RetaUpdate.table ⟨fillEntries base n (retaSize / 64) base, retaSize⟩).map UInt16.toNat =
      (List.range retaSize).map fun k => base + k % n := by
  have htable := @flatMap_fillEntries base n hn (retaSize / 64) 0
  rw [Nat.zero_mod, Nat.add_zero, Nat.mul_div_cancel' hsize, ← List.range_eq_range'] at htable
  rw [RetaUpdate.table, htable, List.map_map]
  apply List.map_congr_left
  intro k _
  have hlt := Nat.mod_lt k hn
  exact UInt16.toNat_ofNat_of_lt' (show base + k % n < 2 ^ 16 by omega)

end RoundRobin

/-- The table goes round the queues, all groups of it are enabled, and no queue has more than
one entry more than another one. The version of `mlx5.lua` agrees for 64 entries. -/
theorem setRssQueues_roundRobin (update : RetaUpdate → ℤ) (strError : ℤ → String) {n : ℕ}
    (hn : 1 ≤ n) (baseQueue : Option ℕ) (hfits : baseQueue.getD 0 + n ≤ 65536)
    {retaSize : UInt16} (hsize : 64 ∣ retaSize.toNat) :
    (∃ call, (setRssQueues retaSize update strError n baseQueue).update = some call ∧
      call.retaSize = retaSize.toNat ∧ call.entries.length = retaSize.toNat / 64 ∧
      (∀ group ∈ call.entries, group.mask = 0xFFFFFFFFFFFFFFFF) ∧
      call.table.map UInt16.toNat =
        (List.range retaSize.toNat).map (fun k => baseQueue.getD 0 + k % n) ∧
      (∀ queue ∈ call.table, baseQueue.getD 0 ≤ queue.toNat ∧
        queue.toNat < baseQueue.getD 0 + n) ∧
      ∀ queue other : UInt16, baseQueue.getD 0 ≤ queue.toNat →
        queue.toNat < baseQueue.getD 0 + n → baseQueue.getD 0 ≤ other.toNat →
        other.toNat < baseQueue.getD 0 + n →
          call.table.count queue ≤ call.table.count other + 1) ∧
      mlx5SetRssQueues update strError n baseQueue =
        setRssQueues 64 update strError n baseQueue := by
  refine ⟨⟨_, update_setRssQueues update strError hn baseQueue hsize, rfl,
    length_fillEntries .., fun group => mask_of_mem_fillEntries, table_eq hn hfits hsize, ?_, ?_⟩,
    mlx5SetRssQueues_eq update strError n baseQueue⟩
  · intro queue hqueue
    have hmem := List.mem_map_of_mem (f := UInt16.toNat) hqueue
    rw [table_eq hn hfits hsize] at hmem
    obtain ⟨k, -, hk⟩ := List.mem_map.mp hmem
    have hlt := Nat.mod_lt k hn
    omega
  · intro queue other hlow hhigh hlow' hhigh'
    -- only the last time round may end before all queues were reached
    have hcount (queue : UInt16) (hlow : baseQueue.getD 0 ≤ queue.toNat)
        (hhigh : queue.toNat < baseQueue.getD 0 + n) :
        (RetaUpdate.table ⟨fillEntries (baseQueue.getD 0) n (retaSize.toNat / 64)
          (baseQueue.getD 0), retaSize.toNat⟩).count queue = retaSize.toNat / n +
            if queue.toNat - baseQueue.getD 0 < retaSize.toNat % n then 1 else 0 := by
      have hinjective : Function.Injective UInt16.toNat := fun _ _ => UInt16.toNat_inj.mp
      rw [← List.count_map_of_injective _ _ hinjective, table_eq hn hfits hsize,
        ← count_rotation hn retaSize.toNat (baseQueue.getD 0) _ (by omega),
        Nat.add_sub_cancel' hlow]
    rw [hcount queue hlow hhigh, hcount other hlow' hhigh']
    split <;> split <;> omega

/-- 128 entries for three queues from the fifth one on. -/
theorem setRssQueues_roundRobin_three :
    ∃ call, (setRssQueues 128 (fun _ => 0) (fun _ => "") 3 (some 5)).update = some call ∧
      call.table.map UInt16.toNat = (List.range 128).map (fun k => 5 + k % 3) := by
  obtain ⟨⟨call, hcall, -, -, -, htable, -⟩, -⟩ := @setRssQueues_roundRobin (fun _ => 0)
    (fun _ => "") 3 (by decide) (some 5) (by decide) 128 (by decide)
  exact ⟨call, hcall, htable⟩

end Libmoon.Device
