import Libmoon.Foundation.Stepping
import Mathlib.Data.List.Range
import Mathlib.Logic.Function.Basic

/-! # Bulk allocation of mbufs

`alloc_mbufs` takes the buffers from the mempool all at once and sets each of them up. The
loop is unrolled four times and entered in its middle, at the case for the remainder of the
length. What DPDK does is a parameter with its documented behaviour.
-/

namespace Libmoon.Memory

open Foundation

universe u

variable {Pool Ptr Metadata : Type u}

/-- `struct rte_mbuf`. -/
structure Mbuf (Metadata : Type u) where
  refcnt : UInt16
  pktLen : UInt32
  dataLen : UInt16
  metadata : Metadata
deriving DecidableEq

/-- What is used of DPDK. `rte_mempool_get_bulk` supplies all objects or none. -/
structure Dpdk (Pool Ptr Metadata : Type u) where
  mempoolGetBulk : Pool → ℕ → Option (List Ptr × Pool)
  available : Pool → ℕ
  pktmbufReset : Mbuf Metadata → Mbuf Metadata
  getBulk_of_le : ∀ mp n, n ≤ available mp →
    ∃ objs mp', mempoolGetBulk mp n = some (objs, mp') ∧ objs.length = n ∧ objs.Nodup
  getBulk_of_lt : ∀ mp n, available mp < n → mempoolGetBulk mp n = none
  refcnt_reset : ∀ mbuf, (pktmbufReset mbuf).refcnt = mbuf.refcnt

/-- The mempool, the memory from `bufs` on, the mbufs, and the elements of the array whose mbufs
have been set up, in order. -/
structure AllocState (Pool Ptr Metadata : Type u) where
  mp : Pool
  bufs : ℕ → Option Ptr
  mbufs : Ptr → Mbuf Metadata
  touched : List ℕ

/-- The places in the loop: its test and the labels in its body. -/
inductive Label where
  | test | case0 | case3 | case2 | case1
deriving DecidableEq

/-- `switch (len % 4)`. -/
def Label.of (len : ℕ) : Label :=
  match len % 4 with
  | 0 => .case0
  | 1 => .case1
  | 2 => .case2
  | _ => .case3

section Loop

variable [DecidableEq Ptr] (dpdk : Dpdk Pool Ptr Metadata) (pktLen : UInt16)

/-- Set up one mbuf. -/
def setUp (mbuf : Mbuf Metadata) : Mbuf Metadata :=
  { dpdk.pktmbufReset { mbuf with refcnt := 1 } with
    pktLen := pktLen.toUInt32
    dataLen := pktLen }

/-- The statements at each label. A null pointer ends the program. -/
def AllocState.setUp (state : AllocState Pool Ptr Metadata) (i : ℕ) :
    Option (AllocState Pool Ptr Metadata) := do
  let buf ← state.bufs i
  some { state with
    mbufs := Function.update state.mbufs buf (Memory.setUp dpdk pktLen (state.mbufs buf))
    touched := state.touched ++ [i] }

/-- One step of the loop. -/
def allocStep (len : UInt32) : Label × UInt32 × AllocState Pool Ptr Metadata →
    Stepped (Label × UInt32 × AllocState Pool Ptr Metadata)
      (Option (AllocState Pool Ptr Metadata))
  | (.test, i, state) => if i ≠ len then .next (.case0, i, state) else .done (some state)
  | (.case0, i, state) => fallThrough .case3 i state
  | (.case3, i, state) => fallThrough .case2 i state
  | (.case2, i, state) => fallThrough .case1 i state
  | (.case1, i, state) => fallThrough .test i state
where
  fallThrough (label : Label) (i : UInt32) (state : AllocState Pool Ptr Metadata) :=
    match state.setUp dpdk pktLen i.toNat with
    | some state => .next (label, i + 1, state)
    | none => .done none

end Loop

/-- What `rte_mempool_get_bulk` leaves behind. Its result is not looked at. -/
def AllocState.getBulk (dpdk : Dpdk Pool Ptr Metadata) (state : AllocState Pool Ptr Metadata)
    (len : UInt32) : AllocState Pool Ptr Metadata :=
  match dpdk.mempoolGetBulk state.mp len.toNat with
  | some (objs, mp) =>
      { state with mp := mp, bufs := fun i => (objs[i]?).or (state.bufs i) }
  | none => state

/-- `alloc_mbufs` ends with this result, or with a crash. -/
def AllocMbufs [DecidableEq Ptr] (dpdk : Dpdk Pool Ptr Metadata)
    (state : AllocState Pool Ptr Metadata) (len : UInt32) (pktLen : UInt16)
    (result : Option (AllocState Pool Ptr Metadata)) : Prop :=
  Yields (allocStep dpdk pktLen len) (.of len.toNat, 0, state.getBulk dpdk len) result

/-! ## The loop -/

section Run

variable [DecidableEq Ptr] {dpdk : Dpdk Pool Ptr Metadata} {pktLen : UInt16} {len i : UInt32}
  {state : AllocState Pool Ptr Metadata}

/-- The label for some remaining mbufs is followed by that for one less. In front of a multiple
of four there is the test. -/
theorem allocStep_of (remaining : ℕ) :
    allocStep dpdk pktLen len (.of (remaining + 1), i, state) =
      allocStep.fallThrough dpdk pktLen
        (if remaining % 4 = 0 then .test else .of remaining) i state := by
  have hcases : remaining % 4 = 0 ∨ remaining % 4 = 1 ∨ remaining % 4 = 2 ∨ remaining % 4 = 3 := by
    omega
  unfold Label.of
  rw [Nat.add_mod]
  rcases hcases with hmod | hmod | hmod | hmod <;> rw [hmod] <;> rfl

/-- Where mbufs remain, the test leads to their label. -/
theorem yields_of_rest {remaining : ℕ} {result : Option (AllocState Pool Ptr Metadata)}
    (hremaining : i.toNat + remaining = len.toNat) (hpos : 0 < remaining)
    (hyields : Yields (allocStep dpdk pktLen len) (.of remaining, i, state) result) :
    Yields (allocStep dpdk pktLen len)
      (if remaining % 4 = 0 then .test else .of remaining, i, state) result := by
  split
  next hmod =>
    have hne : i ≠ len := by
      rintro rfl
      omega
    have hlabel : Label.of remaining = .case0 := by
      rw [Label.of, hmod]
      rfl
    rw [hlabel] at hyields
    exact .of_next (if_pos hne) hyields
  next => exact hyields

/-- From the label for the remaining mbufs on, these are set up and no others. -/
theorem yields_foldlM (remaining : ℕ) (hremaining : i.toNat + remaining = len.toNat)
    (hpos : 0 < remaining) :
    Yields (allocStep dpdk pktLen len) (.of remaining, i, state)
      ((List.range' i.toNat remaining).foldlM (AllocState.setUp dpdk pktLen) state) := by
  induction remaining generalizing i state with
  | zero => exact absurd hpos (lt_irrefl 0)
  | succ remaining ih =>
      have hstep := @allocStep_of _ _ _ _ dpdk pktLen len i state remaining
      rw [List.range'_succ, List.foldlM_cons]
      cases hsetUp : state.setUp dpdk pktLen i.toNat with
      | none =>
          -- the null pointer ends the loop and the fold
          rw [allocStep.fallThrough, hsetUp] at hstep
          exact .of_done hstep
      | some state' =>
          rw [allocStep.fallThrough, hsetUp] at hstep
          have hi : (i + 1).toNat = i.toNat + 1 := by
            rw [UInt32.toNat_add]
            exact Nat.mod_eq_of_lt (by have := len.toNat_lt; simp; omega)
          apply Yields.of_next hstep
          rcases Nat.eq_zero_or_pos remaining with rfl | hpos
          -- after the last mbuf the test ends the loop
          · have hlast : i + 1 = len := UInt32.toNat_inj.mp (by omega)
            exact .of_done (if_neg (not_not_intro hlast))
          · apply yields_of_rest (by omega) hpos
            rw [← hi]
            exact ih (by omega) hpos

/-- The mbufs after those that some pointers lead to have been set up. -/
def setUpAll (dpdk : Dpdk Pool Ptr Metadata) (pktLen : UInt16) (ptrs : List Ptr)
    (mbufs : Ptr → Mbuf Metadata) : Ptr → Mbuf Metadata :=
  ptrs.foldl (fun mbufs buf => Function.update mbufs buf (setUp dpdk pktLen (mbufs buf))) mbufs

theorem setUpAll_of_notMem {ptrs : List Ptr} {mbufs : Ptr → Mbuf Metadata} {buf : Ptr}
    (hbuf : buf ∉ ptrs) : setUpAll dpdk pktLen ptrs mbufs buf = mbufs buf := by
  induction ptrs generalizing mbufs with
  | nil => rfl
  | cons first rest ih =>
      rw [List.mem_cons, not_or] at hbuf
      rw [setUpAll, List.foldl_cons]
      exact (ih hbuf.right).trans (Function.update_of_ne hbuf.left _ _)

theorem setUpAll_of_mem {ptrs : List Ptr} (hnodup : ptrs.Nodup) {mbufs : Ptr → Mbuf Metadata}
    {buf : Ptr} (hbuf : buf ∈ ptrs) :
    setUpAll dpdk pktLen ptrs mbufs buf = setUp dpdk pktLen (mbufs buf) := by
  induction ptrs generalizing mbufs with
  | nil => cases hbuf
  | cons first rest ih =>
      obtain ⟨hfirst, hrest⟩ := List.nodup_cons.mp hnodup
      rw [setUpAll, List.foldl_cons]
      -- no later pointer leads to the same mbuf
      rcases List.mem_cons.mp hbuf with rfl | hmem
      · exact (setUpAll_of_notMem hfirst).trans (Function.update_self _ _ _)
      · refine (ih hrest hmem).trans ?_
        rw [Function.update_of_ne]
        rintro rfl
        exact hfirst hmem

theorem foldlM_setUp {ptrs : List Ptr} {start : ℕ}
    (hbufs : ∀ k < ptrs.length, state.bufs (start + k) = ptrs[k]?) :
    (List.range' start ptrs.length).foldlM (AllocState.setUp dpdk pktLen) state =
      some { state with
        mbufs := setUpAll dpdk pktLen ptrs state.mbufs
        touched := state.touched ++ List.range' start ptrs.length } := by
  induction ptrs generalizing start state with
  | nil => simp [setUpAll]
  | cons buf rest ih =>
      have hfirst := hbufs 0 (Nat.succ_pos _)
      have hsetUp : state.setUp dpdk pktLen start = some { state with
          mbufs := Function.update state.mbufs buf (setUp dpdk pktLen (state.mbufs buf))
          touched := state.touched ++ [start] } := by
        rw [Nat.add_zero, List.getElem?_cons_zero] at hfirst
        rw [AllocState.setUp, hfirst]
        rfl
      rw [List.length_cons, List.range'_succ, List.foldlM_cons, hsetUp, Option.bind_eq_bind,
        Option.bind_some, ih]
      · simp [setUpAll]
      · intro k hk
        have hnext := hbufs (k + 1) (Nat.succ_lt_succ hk)
        rwa [Nat.add_comm k, ← Nat.add_assoc, Nat.add_comm 1, List.getElem?_cons_succ] at hnext

theorem touched_setUp {j : ℕ} {state' : AllocState Pool Ptr Metadata}
    (hsetUp : state.setUp dpdk pktLen j = some state') :
    state'.touched = state.touched ++ [j] := by
  unfold AllocState.setUp at hsetUp
  cases hbuf : state.bufs j with
  | none =>
      rw [hbuf] at hsetUp
      cases hsetUp
  | some buf =>
      rw [hbuf] at hsetUp
      cases hsetUp
      rfl

/-- Past the test a step is for one mbuf. -/
theorem allocStep_of_ne_test {label : Label} (hlabel : label ≠ .test) : ∃ label',
    allocStep dpdk pktLen len (label, i, state) =
      allocStep.fallThrough dpdk pktLen label' i state := by
  cases label with
  | test => exact absurd rfl hlabel
  | case0 => exact ⟨_, rfl⟩
  | case3 => exact ⟨_, rfl⟩
  | case2 => exact ⟨_, rfl⟩
  | case1 => exact ⟨_, rfl⟩

theorem runSteps_of_ne_test {label : Label} (hlabel : label ≠ .test) {fuel : ℕ}
    {state' : AllocState Pool Ptr Metadata}
    (hrun : runSteps (allocStep dpdk pktLen len) (fuel + 1) (label, i, state) =
      some (some state')) :
    ∃ label' next, next.touched = state.touched ++ [i.toNat] ∧
      runSteps (allocStep dpdk pktLen len) fuel (label', i + 1, next) = some (some state') := by
  obtain ⟨label', hstep⟩ := @allocStep_of_ne_test _ _ _ _ dpdk pktLen len i state _ hlabel
  rw [runSteps, hstep, allocStep.fallThrough] at hrun
  cases hsetUp : state.setUp dpdk pktLen i.toNat with
  | none =>
      rw [hsetUp] at hrun
      cases hrun
  | some next =>
      rw [hsetUp] at hrun
      exact ⟨label', next, touched_setUp hsetUp, hrun⟩

/-- The mbufs that a run sets up are added to those that were. -/
theorem prefix_of_runSteps {fuel : ℕ} {label : Label} {state' : AllocState Pool Ptr Metadata}
    (hrun : runSteps (allocStep dpdk pktLen len) fuel (label, i, state) = some (some state')) :
    state.touched <+: state'.touched := by
  induction fuel generalizing label i state with
  | zero => cases hrun
  | succ fuel ih =>
      -- the test sets up nothing, every other step one mbuf
      by_cases hlabel : label = .test
      · subst hlabel
        rw [runSteps, allocStep] at hrun
        split at hrun
        next hstep =>
          split_ifs at hstep
          cases hstep
          exact ih hrun
        next hstep =>
          split_ifs at hstep
          cases hstep
          cases hrun
          exact List.prefix_refl _
      · obtain ⟨label', next, htouched, hrest⟩ := runSteps_of_ne_test hlabel hrun
        exact (List.prefix_append _ _).trans (htouched ▸ ih hrest)

end Run

theorem Label.of_ne_test (len : ℕ) : Label.of len ≠ .test := by
  unfold Label.of
  split <;> decide

variable [DecidableEq Ptr] {dpdk : Dpdk Pool Ptr Metadata}
  {state state' : AllocState Pool Ptr Metadata} {len : UInt32} {pktLen : UInt16}

/-- Whatever is asked for, the first mbuf is set up. -/
theorem AllocMbufs.prefix_touched (halloc : AllocMbufs dpdk state len pktLen (some state')) :
    (state.getBulk dpdk len).touched ++ [0] <+: state'.touched := by
  obtain ⟨fuel, hrun⟩ := halloc
  cases fuel with
  | zero => cases hrun
  | succ fuel =>
      obtain ⟨label, next, htouched, hrest⟩ := runSteps_of_ne_test (Label.of_ne_test _) hrun
      exact htouched ▸ prefix_of_runSteps hrest

/-- Where the first pointers of the array are known after the mempool was asked, and they are
as many as asked for, their mbufs are set up and nothing else. -/
theorem allocMbufs_of_bufs {ptrs : List Ptr} (hlength : ptrs.length = len.toNat)
    (hpos : 0 < len.toNat)
    (hbufs : ∀ i < len.toNat, (state.getBulk dpdk len).bufs i = ptrs[i]?) :
    AllocMbufs dpdk state len pktLen (some { state.getBulk dpdk len with
      mbufs := setUpAll dpdk pktLen ptrs (state.getBulk dpdk len).mbufs
      touched := (state.getBulk dpdk len).touched ++ List.range len.toNat }) := by
  have hrun := @yields_foldlM _ _ _ _ dpdk pktLen len 0 (state.getBulk dpdk len) len.toNat
    (Nat.zero_add _) hpos
  rw [← hlength] at hrun hbufs
  rw [show (0 : UInt32).toNat = 0 from rfl, foldlM_setUp (by simpa using hbufs), hlength,
    ← List.range_eq_range'] at hrun
  exact hrun

end Libmoon.Memory
