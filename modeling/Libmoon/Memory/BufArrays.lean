import Libmoon.Memory.AllocMbufs

/-! # Arrays of buffers

`bufArray:alloc` and `bufArray:allocN` have an array filled by `alloc_mbufs`. Both are for
packet generators, which use one array over and over again.
-/

namespace Libmoon.Memory

universe u

variable {Pool Ptr Metadata : Type u} {dpdk : Dpdk Pool Ptr Metadata}
  {state state' : AllocState Pool Ptr Metadata} {len : UInt32} {pktLen : UInt16}

theorem touched_getBulk : (state.getBulk dpdk len).touched = state.touched := by
  unfold AllocState.getBulk
  split <;> rfl

theorem setUp_spec (mbuf : Mbuf Metadata) :
    (setUp dpdk pktLen mbuf).refcnt = 1 ∧ (setUp dpdk pktLen mbuf).pktLen = pktLen.toUInt32 ∧
      (setUp dpdk pktLen mbuf).dataLen = pktLen :=
  ⟨dpdk.refcnt_reset _, rfl, rfl⟩

variable [DecidableEq Ptr]

/-- The sizes of a `bufArray`. Its array is part of the state. -/
structure BufArray where
  size : ℕ
  maxSize : ℕ

/-- `bufArray:resize` -/
def BufArray.resize (arr : BufArray) (size : ℕ) : Except String BufArray :=
  if size > arr.maxSize then
    .error "enlarging a bufArray is currently not supported"
  else
    .ok { arr with size := size }

/-- `bufArray:alloc` -/
def BufArray.Alloc (dpdk : Dpdk Pool Ptr Metadata) (arr : BufArray)
    (state : AllocState Pool Ptr Metadata) (size : UInt16)
    (result : Option (AllocState Pool Ptr Metadata)) : Prop :=
  AllocMbufs dpdk state (.ofNat arr.size) size result

/-- `bufArray:allocN`, where the array is not enlarged. -/
def BufArray.AllocN (dpdk : Dpdk Pool Ptr Metadata) (arr : BufArray)
    (state : AllocState Pool Ptr Metadata) (size : UInt16) (num : ℕ)
    (result : Option (AllocState Pool Ptr Metadata)) : Prop :=
  ∃ arr', arr.resize num = .ok arr' ∧ arr'.Alloc dpdk state size result

theorem BufArray.allocN_iff {arr : BufArray} {num : ℕ} (hle : num ≤ arr.maxSize)
    {result : Option (AllocState Pool Ptr Metadata)} :
    arr.AllocN dpdk state pktLen num result ↔
      AllocMbufs dpdk state (.ofNat num) pktLen result := by
  have hresize : arr.resize num = .ok { arr with size := num } :=
    if_neg (Nat.not_lt_of_ge hle)
  constructor
  · rintro ⟨arr', harr', halloc⟩
    rw [hresize] at harr'
    cases harr'
    exact halloc
  · intro halloc
    exact ⟨_, hresize, halloc⟩

/-- The call ends with the first `len` elements of the array replaced by what the mempool
supplies and the mbufs of these set up in order, each once. The rest of the array and the other
mbufs are as before. -/
def InitialisesEachOnce (dpdk : Dpdk Pool Ptr Metadata) (state : AllocState Pool Ptr Metadata)
    (len : UInt32) (pktLen : UInt16) : Prop :=
  ∃ objs mp state', dpdk.mempoolGetBulk state.mp len.toNat = some (objs, mp) ∧
    objs.length = len.toNat ∧
    objs.Nodup ∧
    AllocMbufs dpdk state len pktLen (some state') ∧
    state'.mp = mp ∧
    state'.touched = state.touched ++ List.range len.toNat ∧
    (∀ i < len.toNat, state'.bufs i = objs[i]?) ∧
    (∀ i, len.toNat ≤ i → state'.bufs i = state.bufs i) ∧
    (∀ buf ∈ objs,
      state'.mbufs buf = setUp dpdk pktLen (state.mbufs buf) ∧
      (state'.mbufs buf).refcnt = 1 ∧
      (state'.mbufs buf).pktLen = pktLen.toUInt32 ∧
      (state'.mbufs buf).dataLen = pktLen) ∧
    ∀ buf, buf ∉ objs → state'.mbufs buf = state.mbufs buf

/-- The call ends with the array and all mbufs as they were. -/
def FailsCleanly (dpdk : Dpdk Pool Ptr Metadata) (state : AllocState Pool Ptr Metadata)
    (len : UInt32) (pktLen : UInt16) : Prop :=
  ∃ state', AllocMbufs dpdk state len pktLen (some state') ∧
    state'.touched = state.touched ∧ state'.bufs = state.bufs ∧ state'.mbufs = state.mbufs

/-- No call leaves all mbufs alone. -/
theorem AllocMbufs.touched_ne (halloc : AllocMbufs dpdk state len pktLen (some state')) :
    state'.touched ≠ state.touched := by
  intro hsame
  have hlength := halloc.prefix_touched.length_le
  rw [touched_getBulk, hsame, List.length_append, List.length_singleton] at hlength
  omega

theorem not_initialisesEachOnce_of_zero : ¬ InitialisesEachOnce dpdk state 0 pktLen := by
  rintro ⟨objs, mp, state', -, -, -, halloc, -, htouched, -⟩
  exact halloc.touched_ne (htouched.trans (List.append_nil _))

/-- While the mempool has as many buffers as are asked for, each of them is initialised once
unless none are asked for. -/
theorem initialisesEachOnce_iff (hle : len.toNat ≤ dpdk.available state.mp) :
    InitialisesEachOnce dpdk state len pktLen ↔ len ≠ 0 := by
  constructor
  · rintro hinit rfl
    exact not_initialisesEachOnce_of_zero hinit
  · intro hne
    have hpos : 0 < len.toNat := by
      refine Nat.pos_of_ne_zero fun hzero => hne (UInt32.toNat_inj.mp ?_)
      rw [hzero]
      rfl
    obtain ⟨objs, mp, hbulk, hlength, hnodup⟩ := dpdk.getBulk_of_le _ _ hle
    -- the first pointers of the array are those of the mempool now
    have hstate : state.getBulk dpdk len =
        { state with mp := mp, bufs := fun i => (objs[i]?).or (state.bufs i) } := by
      rw [AllocState.getBulk, hbulk]
    have hbufs (i : ℕ) (hi : i < len.toNat) :
        (state.getBulk dpdk len).bufs i = objs[i]? := by
      rw [hstate]
      change (objs[i]?).or (state.bufs i) = objs[i]?
      rw [List.getElem?_eq_getElem (by omega), Option.some_or]
    have halloc := @allocMbufs_of_bufs _ _ _ _ dpdk state len pktLen objs hlength hpos hbufs
    rw [hstate] at halloc
    refine ⟨objs, mp, _, hbulk, hlength, hnodup, halloc, rfl, rfl, ?_, ?_, ?_, ?_⟩
    · intro i hi
      rw [← hbufs i hi, hstate]
    · intro i hi
      change (objs[i]?).or (state.bufs i) = state.bufs i
      rw [List.getElem?_eq_none (by omega)]
      rfl
    · intro buf hbuf
      have hsetUp : setUpAll dpdk pktLen objs state.mbufs buf = _ :=
        setUpAll_of_mem hnodup hbuf
      dsimp only
      rw [hsetUp]
      exact ⟨rfl, setUp_spec _⟩
    · intro buf hbuf
      exact setUpAll_of_notMem hbuf

/-- What an mbuf that is in use looks like here: two references, 60 bytes. -/
def inUse : Mbuf Unit := ⟨2, 60, 60, ()⟩

/-- A mempool that is the list of its free mbufs, the first ones of which it supplies. -/
def listPool : Dpdk {free : List ℕ // free.Nodup} ℕ Unit where
  mempoolGetBulk mp n :=
    if n ≤ mp.val.length then
      some (mp.val.take n, ⟨mp.val.drop n, mp.property.sublist (List.drop_sublist n _)⟩)
    else
      none
  available mp := mp.val.length
  pktmbufReset mbuf := { mbuf with pktLen := 0, dataLen := 0 }
  getBulk_of_le mp n hle :=
    ⟨_, _, if_pos hle, List.length_take_of_le hle, mp.property.sublist (List.take_sublist n _)⟩
  getBulk_of_lt _ _ hlt := if_neg (Nat.not_le_of_gt hlt)
  refcnt_reset _ := rfl

/-- An array that points to the first mbufs, all of them in use. -/
def listState (free : {free : List ℕ // free.Nodup}) :
    AllocState {free : List ℕ // free.Nodup} ℕ Unit :=
  ⟨free, some, fun _ => inUse, []⟩

theorem initialisesEachOnce_iff_five :
    InitialisesEachOnce listPool (listState ⟨[9, 3, 5, 7, 4, 8], by decide⟩) 5 60 ↔
      (5 : UInt32) ≠ 0 :=
  initialisesEachOnce_iff (by decide)

/-- Asked for no buffers, `allocN` sets one up all the same. -/
theorem allocN_zero_not_initialises :
    (∀ result, (⟨63, 63⟩ : BufArray).AllocN listPool (listState ⟨[9, 3], by decide⟩) 60 0 result ↔
      AllocMbufs listPool (listState ⟨[9, 3], by decide⟩) 0 60 result) ∧
    (0 : UInt32).toNat ≤ listPool.available (listState ⟨[9, 3], by decide⟩).mp ∧
    ¬ InitialisesEachOnce listPool (listState ⟨[9, 3], by decide⟩) 0 60 :=
  ⟨fun _ => BufArray.allocN_iff (Nat.zero_le 63), Nat.zero_le _,
    not_initialisesEachOnce_of_zero⟩

/-- Without enough free buffers, a call sets up mbufs that the array pointed to before, and it
may as well have succeeded. -/
theorem not_failsCleanly (hlt : dpdk.available state.mp < len.toNat) :
    ¬ FailsCleanly dpdk state len pktLen ∧
    ∀ ptrs : List Ptr, ptrs.length = len.toNat → (∀ i < len.toNat, state.bufs i = ptrs[i]?) →
      ∃ failed, AllocMbufs dpdk state len pktLen (some failed) ∧
        failed.bufs = state.bufs ∧
        failed.mbufs = setUpAll dpdk pktLen ptrs state.mbufs ∧
        ∀ mp mp', dpdk.mempoolGetBulk mp len.toNat = some (ptrs, mp') →
          AllocMbufs dpdk { state with mp := mp } len pktLen (some { failed with mp := mp' }) := by
  constructor
  · rintro ⟨state', halloc, htouched, -⟩
    exact halloc.touched_ne htouched
  · intro ptrs hlength hbufs
    have hpos : 0 < len.toNat := Nat.zero_lt_of_lt hlt
    have hfailed : state.getBulk dpdk len = state := by
      rw [AllocState.getBulk, dpdk.getBulk_of_lt _ _ hlt]
    have halloc := @allocMbufs_of_bufs _ _ _ _ dpdk state len pktLen ptrs hlength hpos
      (by rwa [hfailed])
    rw [hfailed] at halloc
    refine ⟨_, halloc, rfl, rfl, ?_⟩
    -- a mempool that supplies the old pointers makes no difference to the array
    intro mp mp' hbulk
    have hsucceeded : { state with mp := mp }.getBulk dpdk len = { state with mp := mp' } := by
      rw [AllocState.getBulk, hbulk]
      have hsame : (fun i => (ptrs[i]?).or (state.bufs i)) = state.bufs := by
        funext i
        rcases Nat.lt_or_ge i len.toNat with hi | hi
        · rw [hbufs i hi, Option.or_self]
        · rw [List.getElem?_eq_none (by omega), Option.none_or]
      exact congrArg (fun bufs => { state with mp := mp', bufs := bufs }) hsame
    have halloc := @allocMbufs_of_bufs _ _ _ _ dpdk { state with mp := mp } len pktLen ptrs
      hlength hpos (by rwa [hsucceeded])
    rwa [hsucceeded] at halloc

theorem not_failsCleanly_one :
    ¬ FailsCleanly listPool (listState ⟨[], by decide⟩) 1 60 :=
  (not_failsCleanly (by decide)).left

/-- A packet that is still in use is reset when the mempool is empty. -/
theorem alloc_resets_inUse :
    listPool.available (listState ⟨[], by decide⟩).mp < 1 ∧
    (∃ state' : AllocState {free : List ℕ // free.Nodup} ℕ Unit,
      (⟨1, 1⟩ : BufArray).Alloc listPool (listState ⟨[], by decide⟩) 1400 (some state') ∧
      (listState ⟨[], by decide⟩).mbufs 0 = ⟨2, 60, 60, ()⟩ ∧
      state'.mbufs 0 = ⟨1, 1400, 1400, ()⟩) ∧
    ¬ FailsCleanly listPool (listState ⟨[], by decide⟩) 1 1400 := by
  refine ⟨by decide, ⟨_, ⟨2, rfl⟩, rfl, rfl⟩, ?_⟩
  rintro ⟨state', halloc, htouched, -⟩
  exact halloc.touched_ne htouched

end Libmoon.Memory
