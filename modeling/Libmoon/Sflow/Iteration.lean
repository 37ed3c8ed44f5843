import Libmoon.Foundation.LuaBit
import Libmoon.Foundation.Stepping

/-! # Iteration over sFlow records

A datagram has samples, and a flow sample has entries. Both are records with a type and a
length, and the iterators walk from one to the next by adding the length, which is a signed
number. They stop after as many records as the datagram claims to have, or where a record
ends too far behind the beginning; nothing stops them from going backwards.
-/

namespace Libmoon.Sflow

open Foundation

/-- The bytes around the beginning of the samples or entries. -/
abbrev Payload : Type := ℤ → UInt8

/-- `cast(uint32, payload + pos)[0]`. -/
def Payload.word (payload : Payload) (pos : ℤ) : BitVec 32 :=
  (payload (pos + 3)).toBitVec ++ (payload (pos + 2)).toBitVec ++ (payload (pos + 1)).toBitVec ++
    (payload pos).toBitVec

/-- `ntoh`, the result of which has a sign. -/
def ntoh (word : BitVec 32) : ℤ := (bswap (tobit word.toNat)).toInt

/-- A function that `genIntGetter` returns. -/
def intGetter (word : BitVec 32) : ℤ :=
  let num := ntoh word
  if num < 0 then 0x100000000 + num else num

/-- What a record is cast to. -/
inductive RecordKind where
  | flowSample | extSwitchData | rawPacket | unknownEntry
deriving DecidableEq, Repr

structure Record where
  kind : RecordKind
  offset : ℤ
deriving DecidableEq, Repr

/-- `sflow.RECORD_TYPE_FLOW_SAMPLE_BE` and `sflow.RECORD_TYPE_RAW_PACKET_BE`. -/
def recordTypeOne : ℤ := ntoh 0x01#32

/-- `sflow.RECORD_TYPE_EXT_SWITCH_DATA_BE`. -/
def recordTypeExtSwitchData : ℤ := 0xe9030000

/-- The types that `iterateSamples` knows. -/
def sampleKind (recordType : BitVec 32) : RecordKind :=
  if (recordType.toNat : ℤ) = recordTypeOne then .flowSample else .unknownEntry

/-- The types that `iterateEntries` knows. -/
def entryKind (recordType : BitVec 32) : RecordKind :=
  if (recordType.toNat : ℤ) = recordTypeExtSwitchData then .extSwitchData
  else if (recordType.toNat : ℤ) = recordTypeOne then .rawPacket
  else .unknownEntry

/-- A loop over an iterator: the control variable, the position, and the records so far. -/
structure Walk where
  i : ℕ
  pos : ℤ
  records : List Record

/-- One turn of the loop, with a call of the iterator. -/
def turn (kind : BitVec 32 → RecordKind) (payload : Payload) (num : ℤ) (walk : Walk) :
    Stepped Walk (List Record) :=
  if (walk.i : ℤ) = num then .done walk.records
  else
    let recordType := payload.word walk.pos
    let recordLen := ntoh (payload.word (walk.pos + 4))
    let record : Record := ⟨kind recordType, walk.pos⟩
    let pos := walk.pos + recordLen + 8
    if 1600 < pos then .done walk.records
    else .next ⟨walk.i + 1, pos, walk.records ++ [record]⟩

/-- The beginning of a loop. -/
def Walk.start : Walk := ⟨0, 0, []⟩

/-- `sflowHeader:getNumSamples`; the member is in front of the payload. -/
def getNumSamples (payload : Payload) : ℤ := intGetter (payload.word (-4))

/-- `sflowFlowSample:getNumEntries`, which does not add `0x100000000`. -/
def getNumEntries (payload : Payload) : ℤ := ntoh (payload.word (-4))

/-- A loop over `sflowHeader:iterateSamples`. -/
def iterateSamples (payload : Payload) : Walk → Stepped Walk (List Record) :=
  turn sampleKind payload (getNumSamples payload)

/-- A loop over `sflowFlowSample:iterateEntries`. -/
def iterateEntries (payload : Payload) : Walk → Stepped Walk (List Record) :=
  turn entryKind payload (getNumEntries payload)

/-! ## Bounds -/

/-- A loop ends, after 201 records at most, each of which is behind the previous one and not
too far away. -/
def Bounded (step : Walk → Stepped Walk (List Record)) : Prop :=
  ∃ records, Yields step .start records ∧
    (∀ record ∈ records, 0 ≤ record.offset ∧ record.offset ≤ 1600) ∧
    (records.map Record.offset).Pairwise (· < ·) ∧ records.length ≤ 201

/-- The length in the record at a position. -/
def recordLen (payload : Payload) (pos : ℤ) : ℤ := ntoh (payload.word (pos + 4))

/-- Where the records begin if each one is followed by another one. -/
def recordStart (payload : Payload) : ℕ → ℤ
  | 0 => 0
  | k + 1 => recordStart payload k + recordLen payload (recordStart payload k) + 8

/-- A record is not there: there are only as many, or it ends too far away. -/
def Stops (payload : Payload) (num : ℤ) (k : ℕ) : Prop :=
  (k : ℤ) = num ∨ 1600 < recordStart payload (k + 1)

/-- One of the first 202 records is not there, and those in front of it that are followed by
others have lengths above -8. -/
def Advances (payload : Payload) (num : ℤ) : Prop :=
  ∃ n ≤ 201, Stops payload num n ∧
    ∀ k, k + 1 < n → -8 < recordLen payload (recordStart payload k)

section Laws

variable {payload : Payload} {num : ℤ}

/-- The loop in front of a record. -/
def walkAt (kind : BitVec 32 → RecordKind) (payload : Payload) (k : ℕ) : Walk :=
  ⟨k, recordStart payload k,
    (List.range k).map fun j => ⟨kind (payload.word (recordStart payload j)), recordStart payload j⟩⟩

variable (kind : BitVec 32 → RecordKind)

theorem turn_walkAt_of_stops {k : ℕ} (hstops : Stops payload num k) :
    turn kind payload num (walkAt kind payload k) = .done (walkAt kind payload k).records := by
  unfold turn
  split
  next => rfl
  next hnum => exact if_pos (hstops.resolve_left hnum)

theorem turn_walkAt_of_not_stops {k : ℕ} (hstops : ¬ Stops payload num k) :
    turn kind payload num (walkAt kind payload k) = .next (walkAt kind payload (k + 1)) := by
  unfold Stops at hstops
  rw [not_or] at hstops
  unfold turn
  refine (if_neg hstops.1).trans ((if_neg hstops.2).trans ?_)
  simp only [walkAt, List.range_succ, List.map_append, List.map_cons, List.map_nil]
  rfl

/-- A loop ends in front of the first record that is not there. -/
theorem yields_iff {records : List Record} :
    Yields (turn kind payload num) .start records ↔
      ∃ n, Stops payload num n ∧ (∀ k < n, ¬ Stops payload num k) ∧
        records = (walkAt kind payload n).records := by
  have hdone (k : ℕ) (hstops : Stops payload num k) := turn_walkAt_of_stops kind hstops
  have hnext (k : ℕ) (hstops : ¬ Stops payload num k) := turn_walkAt_of_not_stops kind hstops
  exact Yields.iff_of_stateAt hdone hnext

/-- A record that is followed by another one begins in front of it. -/
theorem recordStart_lt_succ_iff {k : ℕ} :
    recordStart payload k < recordStart payload (k + 1) ↔
      -8 < recordLen payload (recordStart payload k) := by
  rw [recordStart]
  omega

theorem recordStart_lt {n : ℕ}
    (hlens : ∀ k, k + 1 < n → -8 < recordLen payload (recordStart payload k)) {j k : ℕ}
    (hjk : j < k) (hk : k < n) : recordStart payload j < recordStart payload k := by
  induction k with
  | zero => omega
  | succ k ih =>
      have hstep := recordStart_lt_succ_iff.mpr (hlens k hk)
      by_cases heq : j = k
      · rw [heq]
        exact hstep
      · exact (ih (by omega) (by omega)).trans hstep

theorem offsets_walkAt (n : ℕ) : (walkAt kind payload n).records.map Record.offset =
    (List.range n).map (recordStart payload) := by
  rw [walkAt, List.map_map]
  rfl

/-- For every content and every count: a loop is bounded exactly if it advances. -/
theorem turn_bounded_iff : Bounded (turn kind payload num) ↔ Advances payload num := by
  constructor
  · rintro ⟨records, hyields, _, hincreasing, hcount⟩
    obtain ⟨n, hstops, _, rfl⟩ := (yields_iff kind).mp hyields
    rw [offsets_walkAt, List.pairwise_map, List.pairwise_iff_getElem] at hincreasing
    refine ⟨n, by simpa [walkAt] using hcount, hstops, fun k hk => ?_⟩
    have hlt := hincreasing k (k + 1) (by simp; omega) (by simp; omega) (Nat.lt_succ_self k)
    simp only [List.getElem_range] at hlt
    exact recordStart_lt_succ_iff.mp hlt
  · rintro ⟨n, hn, hstops, hlens⟩
    classical
    -- the loop ends at the first place that stops it
    have hex : ∃ m, Stops payload num m := ⟨n, hstops⟩
    have hle : Nat.find hex ≤ n := Nat.find_min' hex hstops
    have hfirst : ∀ k < Nat.find hex, ¬ Stops payload num k := fun k hk => Nat.find_min hex hk
    have hlens' : ∀ k, k + 1 < Nat.find hex → -8 < recordLen payload (recordStart payload k) :=
      fun k hk => hlens k (by omega)
    refine ⟨_, (yields_iff kind).mpr ⟨_, Nat.find_spec hex, hfirst, rfl⟩, ?_, ?_, ?_⟩
    · intro record hrecord
      obtain ⟨k, hk, rfl⟩ := List.mem_map.mp hrecord
      rw [List.mem_range] at hk
      cases k with
      | zero => exact ⟨Int.le_refl 0, by simp [recordStart]⟩
      | succ k =>
          have hpos : recordStart payload 0 < recordStart payload (k + 1) :=
            recordStart_lt hlens' (Nat.succ_pos k) hk
          have hnear := hfirst k (by omega)
          unfold Stops at hnear
          exact ⟨hpos.le, by simp only; omega⟩
    · rw [offsets_walkAt, List.pairwise_map]
      apply List.pairwise_lt_range.imp_of_mem
      intro j k _ hk hjk
      exact recordStart_lt hlens' hjk (List.mem_range.mp hk)
    · rw [walkAt, List.length_map, List.length_range]
      omega

/-- Where no length has a sign, the distance is enough to end a loop. -/
theorem advances_of_nonneg (payload : Payload) (num : ℤ)
    (hlens : ∀ k ≤ 200, 0 ≤ recordLen payload (recordStart payload k)) : Advances payload num := by
  have hfar (k : ℕ) (hk : k ≤ 201) : 8 * (k : ℤ) ≤ recordStart payload k := by
    induction k with
    | zero => exact Int.le_refl 0
    | succ k ih =>
        have hlen := hlens k (by omega)
        have hstart := ih (by omega)
        rw [recordStart]
        omega
  refine ⟨200, by decide, .inr ?_, fun k hk => ?_⟩
  · have hend := hfar (200 + 1) (Nat.le_refl 201)
    omega
  · have hlen := hlens k (by omega)
    omega

end Laws

/-- For every content of the datagram, the iteration over samples and the one over entries are
bounded exactly if their records advance. -/
theorem iteration_bounded_iff (payload : Payload) :
    (Bounded (iterateSamples payload) ↔ Advances payload (getNumSamples payload)) ∧
      (Bounded (iterateEntries payload) ↔ Advances payload (getNumEntries payload)) :=
  ⟨turn_bounded_iff sampleKind, turn_bounded_iff entryKind⟩

theorem ntoh_eq (word : BitVec 32) : ntoh word = (bswap word).toInt := by
  rw [ntoh, tobit_toNat]

/-- Three records are announced, and the first one has the length -8. -/
def stuckPayload : Payload := fun i =>
  if i = -1 then 3 else if 4 ≤ i ∧ i ≤ 6 then 0xff else if i = 7 then 0xf8 else 0

theorem recordLen_stuckPayload : recordLen stuckPayload 0 = -8 := by
  rw [recordLen, ntoh_eq]
  decide

theorem recordStart_stuckPayload (k : ℕ) : recordStart stuckPayload k = 0 := by
  induction k with
  | zero => rfl
  | succ k ih =>
      rw [recordStart, ih, recordLen_stuckPayload]
      decide

/-- The first record is found again and again. -/
theorem stuckPayload_not_bounded :
    ¬ Bounded (iterateSamples stuckPayload) ∧ ¬ Bounded (iterateEntries stuckPayload) := by
  have hnum : ntoh (stuckPayload.word (-4)) = 3 := by
    rw [ntoh_eq]
    decide
  have hstuck : ¬ Advances stuckPayload 3 := by
    rintro ⟨n, _, hstops, hlens⟩
    rw [Stops, recordStart_stuckPayload] at hstops
    have hlen := hlens 0 (by omega)
    rw [recordStart_stuckPayload, recordLen_stuckPayload] at hlen
    exact absurd hlen (by decide)
  rw [iterateSamples, iterateEntries, turn_bounded_iff, turn_bounded_iff, getNumSamples,
    getNumEntries, intGetter, hnum]
  exact ⟨hstuck, hstuck⟩

end Libmoon.Sflow
