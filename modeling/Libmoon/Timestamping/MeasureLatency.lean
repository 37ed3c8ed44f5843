import Libmoon.Foundation.Custody
import Libmoon.Foundation.Machine
import Mathlib.Algebra.Order.Ring.Rat

/-! # Latency measurements and their buffers

`timestamper:measureLatency` sends a packet and waits for it in a loop. Each turn
of the loop receives a batch into `rxBufs` and frees it again: at once where the
NIC has no timestamp, otherwise packet by packet or all at once. What the call
reads from outside (packets, timestamps, how often the timer lets the loop turn)
is its input; which buffers it holds is kept in a ledger beside the array.
-/

namespace Libmoon.Timestamping

open Foundation

/-- The size of `rxBufs`. -/
def rxBufsSize : Nat := 128

/-- `dpdk.PKT_RX_IEEE1588_TMST`. -/
def pktRxIeee1588Tmst : BitVec 64 := 1 <<< 10

/-- A received packet: its buffer, its flags and the sequence number in its PTP
header, and what reading its timestamp from the NIC or from the buffer returns. -/
structure RxPacket where
  buf : Nat
  olFlags : BitVec 64
  seq : Nat
  registerTimestamp : Option ℚ
  packetTimestamp : ℚ

/-- `pkt:hasTimestamp`. -/
def RxPacket.hasTimestamp (pkt : RxPacket) : Bool := pkt.olFlags ||| pktRxIeee1588Tmst != 0

/-- One turn of the loop: the batch that `tryRecv` returns and the answer of
`hasRxTimestamp`. A batch has at most as many packets as the array, all of them in
different buffers. -/
structure Turn where
  batch : List RxPacket
  hasRxTimestamp : Option ℤ
  fits : batch.length ≤ rxBufsSize
  distinct : (batch.map RxPacket.buf).Nodup

/-- What one call reads: `maxWait` in seconds, the timestamp of the transmission and
the turns of the loop until the timer ends it. -/
structure Measurement where
  maxWait : ℚ
  tx : Option ℚ
  turns : List Turn

structure Timestamper where
  rxBufs : List (Option Nat)
  seq : Nat
  embeddedTimestampInPacket : Bool
  custody : Custody Nat

/-- `newTimestamper`. -/
def newTimestamper (embeddedTimestampInPacket : Bool) : Timestamper where
  rxBufs := List.replicate rxBufsSize none
  seq := 1
  embeddedTimestampInPacket := embeddedTimestampInPacket
  custody := .empty

/-! ## Buffers -/

/-- The loop of `bufArray:freeAll` over the rest of the array. -/
def freeEntries : List (Option Nat) → Custody Nat → List (Option Nat) × Custody Nat
  | [], custody => ([], custody)
  | none :: rest, custody => (none :: rest, custody)
  | some buf :: rest, custody =>
      let freed := freeEntries rest (custody.free buf)
      (none :: freed.1, freed.2)

/-- `self.rxBufs:freeAll()`. -/
def Timestamper.freeAll (self : Timestamper) : Timestamper :=
  let freed := freeEntries self.rxBufs self.custody
  { self with rxBufs := freed.1, custody := freed.2 }

/-- `buf:free()`, which does not clear the entry of the array. -/
def Timestamper.free (self : Timestamper) (buf : Nat) : Timestamper :=
  { self with custody := self.custody.free buf }

/-- `self.rxQueue:tryRecv(self.rxBufs, 1000)`: the first entries are overwritten. -/
def Timestamper.tryRecv (self : Timestamper) (batch : List RxPacket) : Timestamper :=
  { self with
    rxBufs := batch.map (fun pkt => some pkt.buf) ++ self.rxBufs.drop batch.length
    custody := self.custody.take (batch.map RxPacket.buf) }

/-! ## The loop -/

/-- The four branches for a packet of a batch with a timestamp. -/
inductive Verdict where
  /-- the packet that was sent -/
  | found
  /-- a timestamp, but the wrong sequence number -/
  | stray
  /-- the packet that was sent, but not the one with the timestamp -/
  | missed
  | other
deriving DecidableEq

def RxPacket.verdict (pkt : RxPacket) (embedded : Bool) (expectedSeq : Nat)
    (timestampedPkt : ℤ) : Verdict :=
  if pkt.hasTimestamp ∧ pkt.seq = expectedSeq ∧
      ((pkt.seq = timestampedPkt ∨ timestampedPkt = -1) ∨ embedded) then
    .found
  else if pkt.hasTimestamp ∧ (pkt.seq = timestampedPkt ∨ timestampedPkt = -1) then
    .stray
  else if pkt.seq = expectedSeq ∧ (pkt.seq ≠ timestampedPkt ∧ timestampedPkt ≠ -1) then
    .missed
  else
    .other

/-- The latency that is reported for the packet that was sent. -/
def RxPacket.latency (pkt : RxPacket) (embedded : Bool) (tx maxWait : ℚ) : Option ℚ :=
  let rxTs := if embedded then some pkt.packetTimestamp else pkt.registerTimestamp
  rxTs.bind fun rxTs =>
    let lat := rxTs - tx
    if lat > 0 ∧ lat < 2 * maxWait * 10 ^ 9 then some lat else none

/-- The loop over the packets of a batch. The first component is the latency that the
call returns, if it returns here. An entry `rxBufs[i]` is the buffer of the packet
`i`: the array is only cleared where the call returns. -/
def Timestamper.examine (expectedSeq : Nat) (timestampedPkt : ℤ) (tx maxWait : ℚ) :
    Timestamper → List RxPacket → Option (Option ℚ) × Timestamper
  | self, [] => (none, self)
  | self, pkt :: rest =>
      match pkt.verdict self.embeddedTimestampInPacket expectedSeq timestampedPkt with
      | .found =>
          (some (pkt.latency self.embeddedTimestampInPacket tx maxWait), self.freeAll)
      | .missed => (some none, self.freeAll)
      | .stray | .other =>
          Timestamper.examine expectedSeq timestampedPkt tx maxWait (self.free pkt.buf) rest

def Timestamper.turn (self : Timestamper) (expectedSeq : Nat) (tx maxWait : ℚ) (turn : Turn) :
    Option (Option ℚ) × Timestamper :=
  let received := self.tryRecv turn.batch
  match turn.hasRxTimestamp with
  | none => (none, received.freeAll)
  | some timestampedPkt => received.examine expectedSeq timestampedPkt tx maxWait turn.batch

/-- The loop of `measureLatency`: the latency and the number of packets. -/
def Timestamper.waitForPacket (expectedSeq : Nat) (tx maxWait : ℚ) :
    Timestamper → List Turn → Nat → (Option ℚ × Nat) × Timestamper
  | self, [], numPkts => ((none, numPkts), self)
  | self, turn :: rest, numPkts =>
      match self.turn expectedSeq tx maxWait turn with
      | (some lat, self') => ((lat, numPkts + turn.batch.length), self')
      | (none, self') =>
          Timestamper.waitForPacket expectedSeq tx maxWait self' rest
            (numPkts + turn.batch.length)

/-- `timestamper:measureLatency`. -/
def Timestamper.measureLatency (self : Timestamper) (call : Measurement) :
    (Option ℚ × Nat) × Timestamper :=
  let expectedSeq := self.seq
  let self := { self with seq := (self.seq + 1) % 2 ^ 16 }
  match call.tx with
  | none => ((none, 0), self)
  | some tx => self.waitForPacket expectedSeq tx call.maxWait call.turns 0

def measuring : Machine Timestamper Measurement (Option ℚ × Nat) where
  step := Timestamper.measureLatency

/-! ## What each turn frees -/

/-- The call returns at this packet. -/
def Verdict.decides : Verdict → Bool
  | .found | .missed => true
  | .stray | .other => false

/-- The first packet of the batch at which the call returns. -/
def Turn.decisive (turn : Turn) (embedded : Bool) (expectedSeq : Nat) (timestampedPkt : ℤ) :
    Option Nat :=
  turn.batch.findIdx? fun pkt => (pkt.verdict embedded expectedSeq timestampedPkt).decides

/-- Whenever the array is freed as a whole, the batch has overwritten all of the
`stale` entries that were left in it, and no packet of the batch was freed before. -/
def TurnsFresh (embedded : Bool) (expectedSeq : Nat) : Nat → List Turn → Prop
  | _, [] => True
  | stale, turn :: rest =>
      match turn.hasRxTimestamp with
      | none => stale ≤ turn.batch.length ∧ TurnsFresh embedded expectedSeq 0 rest
      | some timestampedPkt =>
          match turn.decisive embedded expectedSeq timestampedPkt with
          | some i => i = 0 ∧ stale ≤ turn.batch.length
          | none => TurnsFresh embedded expectedSeq (max stale turn.batch.length) rest

instance decidableTurnsFresh (embedded : Bool) (expectedSeq stale : Nat) (turns : List Turn) :
    Decidable (TurnsFresh embedded expectedSeq stale turns) :=
  match turns with
  | [] => isTrue trivial
  | turn :: rest =>
      match hstamp : turn.hasRxTimestamp with
      | none =>
          haveI := decidableTurnsFresh embedded expectedSeq 0 rest
          decidable_of_iff (stale ≤ turn.batch.length ∧ TurnsFresh embedded expectedSeq 0 rest)
            (by simp [TurnsFresh, hstamp])
      | some timestampedPkt =>
          match hdecisive : turn.decisive embedded expectedSeq timestampedPkt with
          | some i =>
              decidable_of_iff (i = 0 ∧ stale ≤ turn.batch.length)
                (by simp [TurnsFresh, hstamp, hdecisive])
          | none =>
              haveI := decidableTurnsFresh embedded expectedSeq (max stale turn.batch.length) rest
              decidable_of_iff
                (TurnsFresh embedded expectedSeq (max stale turn.batch.length) rest)
                (by simp [TurnsFresh, hstamp, hdecisive])

/-- The entries at the start of the array that are not nil. Before a call they are left
over from packets that were freed one by one. -/
def Timestamper.stale (self : Timestamper) : Nat :=
  (self.rxBufs.takeWhile Option.isSome).length

/-- The condition on a call and the state it is issued in. -/
def FreesFresh (self : Timestamper) (call : Measurement) : Prop :=
  call.tx ≠ none →
    TurnsFresh self.embeddedTimestampInPacket self.seq self.stale call.turns

instance (self : Timestamper) (call : Measurement) : Decidable (FreesFresh self call) :=
  inferInstanceAs (Decidable (_ → _))

/-- An array that starts with the given buffers and is nil from there on. -/
def arrayOf (bufs : List Nat) : List (Option Nat) :=
  bufs.map some ++ List.replicate (rxBufsSize - bufs.length) none

theorem freeEntries_map (bufs : List Nat) (free : Nat) (custody : Custody Nat) :
    freeEntries (bufs.map some ++ List.replicate free none) custody =
      (List.replicate (bufs.length + free) none, custody.freeList bufs) := by
  induction bufs generalizing custody with
  | nil => cases free <;> simp [freeEntries, List.replicate_succ, Custody.freeList]
  | cons buf rest ih =>
      simp only [List.map_cons, List.cons_append, freeEntries, ih, List.length_cons,
        Nat.succ_add, List.replicate_succ]
      rfl

section Turns

variable {self : Timestamper} {bufs : List Nat}

theorem stale_of_arrayOf (harray : self.rxBufs = arrayOf bufs) : self.stale = bufs.length := by
  have hentries : ∀ free, ((bufs.map some ++ List.replicate free none).takeWhile
      Option.isSome).length = bufs.length := by
    intro free
    induction bufs with
    | nil => cases free <;> simp [List.replicate_succ]
    | cons buf rest ih => simp
  rw [Timestamper.stale, harray]
  exact hentries _

theorem freeAll_of_arrayOf (harray : self.rxBufs = arrayOf bufs)
    (hfits : bufs.length ≤ rxBufsSize) :
    self.freeAll =
      { self with rxBufs := arrayOf [], custody := self.custody.freeList bufs } := by
  rw [Timestamper.freeAll, harray, arrayOf, freeEntries_map, Nat.add_sub_cancel' hfits]
  rfl

/-- The buffers in the array after a batch was received into it. -/
def received (turn : Turn) (bufs : List Nat) : List Nat :=
  turn.batch.map RxPacket.buf ++ bufs.drop turn.batch.length

theorem length_received (turn : Turn) (bufs : List Nat) :
    (received turn bufs).length = max bufs.length turn.batch.length := by
  simp only [received, List.length_append, List.length_map, List.length_drop]
  omega

theorem tryRecv_of_arrayOf (harray : self.rxBufs = arrayOf bufs) (turn : Turn) :
    self.tryRecv turn.batch =
      { self with
        rxBufs := arrayOf (received turn bufs)
        custody := self.custody.take (turn.batch.map RxPacket.buf) } := by
  have hfits := turn.fits
  have hentries : turn.batch.map (fun pkt => some pkt.buf) ++
      (arrayOf bufs).drop turn.batch.length = arrayOf (received turn bufs) := by
    rw [arrayOf, arrayOf, length_received, received, List.map_append, List.map_map,
      List.drop_append, List.drop_replicate, List.length_map, ← List.map_drop, List.append_assoc]
    congr 3
    omega
  rw [Timestamper.tryRecv, harray, hentries]

/-- The packets before the decisive one are freed one by one. -/
theorem examine_eq (expectedSeq : Nat) (timestampedPkt : ℤ) (tx maxWait : ℚ)
    (self : Timestamper) (batch : List RxPacket) :
    let decisive := batch.findIdx? fun pkt =>
      (pkt.verdict self.embeddedTimestampInPacket expectedSeq timestampedPkt).decides
    let freed := fun n : Nat =>
      { self with custody := self.custody.freeList ((batch.map RxPacket.buf).take n) }
    (decisive = none →
      self.examine expectedSeq timestampedPkt tx maxWait batch = (none, freed batch.length)) ∧
    ∀ i, decisive = some i → i < batch.length ∧ ∃ lat,
      self.examine expectedSeq timestampedPkt tx maxWait batch =
        (some lat, (freed i).freeAll) := by
  induction batch generalizing self with
  | nil => exact ⟨fun _ => rfl, nofun⟩
  | cons pkt rest ih =>
      have hnext := ih (self.free pkt.buf)
      simp only [List.findIdx?_cons, Timestamper.examine]
      cases hverdict : pkt.verdict self.embeddedTimestampInPacket expectedSeq timestampedPkt with
      | found | missed =>
          refine ⟨by simp [Verdict.decides], ?_⟩
          intro i hi
          obtain rfl : i = 0 := by simpa [Verdict.decides, eq_comm] using hi
          exact ⟨Nat.succ_pos _, _, rfl⟩
      | stray | other =>
          simp only [Verdict.decides, Bool.false_eq_true, if_false, Option.map_eq_none_iff,
            Option.map_eq_some_iff]
          refine ⟨hnext.1, ?_⟩
          rintro i ⟨j, hj, rfl⟩
          obtain ⟨hlt, lat, heq⟩ := hnext.2 j hj
          exact ⟨Nat.succ_lt_succ hlt, lat, heq⟩

/-- What a turn leaves behind, in the three ways it can go. -/
theorem turn_cases (harray : self.rxBufs = arrayOf bufs) (hfits : bufs.length ≤ rxBufsSize)
    (expectedSeq : Nat) (tx maxWait : ℚ) (turn : Turn) :
    let taken := self.custody.take (turn.batch.map RxPacket.buf)
    let result := self.turn expectedSeq tx maxWait turn
    (turn.hasRxTimestamp = none ∧
      result = (none, { self with
        rxBufs := arrayOf []
        custody := taken.freeList (received turn bufs) })) ∨
    (∃ timestampedPkt i lat, turn.hasRxTimestamp = some timestampedPkt ∧
      turn.decisive self.embeddedTimestampInPacket expectedSeq timestampedPkt = some i ∧
      i < turn.batch.length ∧
      result = (some lat, { self with
        rxBufs := arrayOf []
        custody := (taken.freeList ((turn.batch.map RxPacket.buf).take i)).freeList
          (received turn bufs) })) ∨
    (∃ timestampedPkt, turn.hasRxTimestamp = some timestampedPkt ∧
      turn.decisive self.embeddedTimestampInPacket expectedSeq timestampedPkt = none ∧
      result = (none, { self with
        rxBufs := arrayOf (received turn bufs)
        custody := taken.freeList (turn.batch.map RxPacket.buf) })) := by
  have hreceived : (received turn bufs).length ≤ rxBufsSize := by
    rw [length_received]
    exact Nat.max_le.mpr ⟨hfits, turn.fits⟩
  simp only [Timestamper.turn, tryRecv_of_arrayOf harray]
  cases hstamp : turn.hasRxTimestamp with
  | none => exact .inl ⟨rfl, by rw [freeAll_of_arrayOf rfl hreceived]⟩
  | some timestampedPkt =>
      obtain ⟨hundecided, hdecided⟩ := examine_eq expectedSeq timestampedPkt tx maxWait
        { self with
          rxBufs := arrayOf (received turn bufs)
          custody := self.custody.take (turn.batch.map RxPacket.buf) } turn.batch
      cases hdecisive : turn.decisive self.embeddedTimestampInPacket expectedSeq
          timestampedPkt with
      | none =>
          refine .inr (.inr ⟨timestampedPkt, rfl, hdecisive, ?_⟩)
          simp only [hundecided hdecisive, ← List.length_map RxPacket.buf, List.take_length]
      | some i =>
          obtain ⟨hlt, lat, heq⟩ := hdecided i hdecisive
          refine .inr (.inl ⟨timestampedPkt, i, lat, rfl, hdecisive, hlt, ?_⟩)
          simp only [heq]
          rw [freeAll_of_arrayOf rfl hreceived]

end Turns

/-! ## Whole calls and whole runs -/

/-- Every buffer that was received has been freed, once, and nothing else was. -/
def FreedOnce (self : Timestamper) : Prop := self.custody.Settled

instance (self : Timestamper) : Decidable (FreedOnce self) :=
  inferInstanceAs (Decidable (Custody.Settled _))

/-- The array consists of buffers followed by nil. -/
def Packed (self : Timestamper) : Prop :=
  ∃ bufs, bufs.length ≤ rxBufsSize ∧ self.rxBufs = arrayOf bufs

section Calls

variable {self : Timestamper}

theorem turn_packed (hpacked : Packed self) (expectedSeq : Nat) (tx maxWait : ℚ) (turn : Turn) :
    Packed (self.turn expectedSeq tx maxWait turn).2 := by
  obtain ⟨bufs, hfits, harray⟩ := hpacked
  obtain ⟨-, hresult⟩ | ⟨_, _, _, -, -, -, hresult⟩ | ⟨_, -, -, hresult⟩ :=
    turn_cases harray hfits expectedSeq tx maxWait turn
  · rw [hresult]
    exact ⟨[], Nat.zero_le _, rfl⟩
  · rw [hresult]
    exact ⟨[], Nat.zero_le _, rfl⟩
  · rw [hresult]
    refine ⟨received turn bufs, ?_, rfl⟩
    rw [length_received]
    exact Nat.max_le.mpr ⟨hfits, turn.fits⟩

theorem turn_misfreed (hpacked : Packed self) (hfault : self.custody.misfreed = true)
    (expectedSeq : Nat) (tx maxWait : ℚ) (turn : Turn) :
    (self.turn expectedSeq tx maxWait turn).2.custody.misfreed = true := by
  obtain ⟨bufs, hfits, harray⟩ := hpacked
  have htaken : (self.custody.take (turn.batch.map RxPacket.buf)).misfreed = true := hfault
  obtain ⟨-, hresult⟩ | ⟨_, _, _, -, -, -, hresult⟩ | ⟨_, -, -, hresult⟩ :=
    turn_cases harray hfits expectedSeq tx maxWait turn
  · rw [hresult]
    exact Custody.misfreed_freeList htaken _
  · rw [hresult]
    exact Custody.misfreed_freeList (Custody.misfreed_freeList htaken _) _
  · rw [hresult]
    exact Custody.misfreed_freeList htaken _

theorem waitForPacket_packed (hpacked : Packed self) (expectedSeq : Nat) (tx maxWait : ℚ)
    (turns : List Turn) (numPkts : Nat) :
    Packed (self.waitForPacket expectedSeq tx maxWait turns numPkts).2 := by
  induction turns generalizing self numPkts with
  | nil => exact hpacked
  | cons turn rest ih =>
      have hturn := turn_packed hpacked expectedSeq tx maxWait turn
      unfold Timestamper.waitForPacket
      split
      next hresult => rwa [hresult] at hturn
      next hresult =>
          rw [hresult] at hturn
          exact ih hturn _

theorem waitForPacket_misfreed (hpacked : Packed self) (hfault : self.custody.misfreed = true)
    (expectedSeq : Nat) (tx maxWait : ℚ) (turns : List Turn) (numPkts : Nat) :
    (self.waitForPacket expectedSeq tx maxWait turns numPkts).2.custody.misfreed = true := by
  induction turns generalizing self numPkts with
  | nil => exact hfault
  | cons turn rest ih =>
      have hturn := turn_packed hpacked expectedSeq tx maxWait turn
      have hfaulty := turn_misfreed hpacked hfault expectedSeq tx maxWait turn
      unfold Timestamper.waitForPacket
      split
      next hresult => rwa [hresult] at hfaulty
      next hresult =>
          rw [hresult] at hturn hfaulty
          exact ih hturn hfaulty _

theorem not_settled_of_misfreed {custody : Custody Nat} (hfault : custody.misfreed = true) :
    ¬ custody.Settled := by
  intro hsettled
  exact Bool.noConfusion (hfault.symm.trans hsettled.misfreed)

/-- A call that starts with nothing held ends so, without a fault, exactly if its
turns free nothing but what they have received. -/
theorem waitForPacket_settled_iff {bufs : List Nat} (harray : self.rxBufs = arrayOf bufs)
    (hfits : bufs.length ≤ rxBufsSize) (hsettled : self.custody.Settled) (expectedSeq : Nat)
    (tx maxWait : ℚ) (turns : List Turn) (numPkts : Nat) :
    (self.waitForPacket expectedSeq tx maxWait turns numPkts).2.custody.Settled ↔
      TurnsFresh self.embeddedTimestampInPacket expectedSeq bufs.length turns := by
  induction turns generalizing self bufs numPkts with
  | nil => exact iff_of_true hsettled trivial
  | cons turn rest ih =>
      have hpacked := turn_packed ⟨bufs, hfits, harray⟩ expectedSeq tx maxWait turn
      have hold : bufs.drop turn.batch.length = [] ↔ bufs.length ≤ turn.batch.length :=
        List.drop_eq_nil_iff
      have hagain := fun i hi => hsettled.freeList_again turn.distinct i hi
        (bufs.drop turn.batch.length)
      unfold Timestamper.waitForPacket TurnsFresh
      obtain ⟨hstamp, hresult⟩ | ⟨timestampedPkt, i, lat, hstamp, hdecisive, hlt, hresult⟩ |
          ⟨timestampedPkt, hstamp, hdecisive, hresult⟩ :=
        turn_cases harray hfits expectedSeq tx maxWait turn
      · -- the batch is thrown away
        rw [hresult] at hpacked ⊢
        simp only [hstamp]
        obtain ⟨hback, hfault⟩ := hagain 0 (Nat.zero_le _)
        by_cases hstale : bufs.length ≤ turn.batch.length
        · have hcustody : (self.custody.take (turn.batch.map RxPacket.buf)).freeList
              (received turn bufs) = self.custody := hback ⟨rfl, hold.mpr hstale⟩
          rw [and_iff_right hstale, hcustody]
          exact @ih { self with rxBufs := arrayOf [] } [] rfl (Nat.zero_le _) hsettled _
        · refine iff_of_false (not_settled_of_misfreed ?_) fun hfresh => hstale hfresh.1
          exact waitForPacket_misfreed hpacked
            (hfault fun hnone => hstale (hold.mp hnone.2)) expectedSeq tx maxWait rest _
      · -- the call returns
        rw [hresult]
        simp only [hstamp, hdecisive]
        obtain ⟨hback, hfault⟩ := hagain i (by rw [List.length_map]; omega)
        by_cases hfresh : i = 0 ∧ bufs.length ≤ turn.batch.length
        · have hcustody := hback ⟨hfresh.1, hold.mpr hfresh.2⟩
          refine iff_of_true ?_ hfresh
          exact hcustody.symm ▸ hsettled
        · refine iff_of_false (not_settled_of_misfreed ?_) hfresh
          exact hfault fun hnone => hfresh ⟨hnone.1, hold.mp hnone.2⟩
      · -- every packet is freed by itself and its entry stays
        rw [hresult]
        simp only [hstamp, hdecisive]
        have hreceived : (received turn bufs).length ≤ rxBufsSize := by
          rw [length_received]
          exact Nat.max_le.mpr ⟨hfits, turn.fits⟩
        rw [hsettled.take_freeList turn.distinct, ← length_received]
        exact @ih { self with rxBufs := arrayOf (received turn bufs) } _ rfl hreceived hsettled _

theorem measureLatency_packed (hpacked : Packed self) (call : Measurement) :
    Packed (self.measureLatency call).2 := by
  unfold Timestamper.measureLatency
  split
  next => exact hpacked
  next =>
      exact @waitForPacket_packed { self with seq := (self.seq + 1) % 2 ^ 16 } hpacked _ _ _ _ _

theorem measureLatency_settled_iff (hpacked : Packed self) (hsettled : FreedOnce self)
    (call : Measurement) :
    FreedOnce (self.measureLatency call).2 ↔ FreesFresh self call := by
  obtain ⟨bufs, hfits, harray⟩ := hpacked
  unfold FreedOnce Timestamper.measureLatency FreesFresh
  split
  next hlost => exact iff_of_true hsettled fun hsent => absurd hlost hsent
  next tx hsent =>
      rw [forall_prop_of_true (by simp [hsent]), stale_of_arrayOf harray]
      exact @waitForPacket_settled_iff { self with seq := (self.seq + 1) % 2 ^ 16 } bufs harray
        hfits hsettled _ _ _ _ _

end Calls

/-- After every call of a run all received buffers have been freed exactly once
exactly if every call frees the array only when it holds nothing but buffers that were
received in this turn and are not freed yet. -/
theorem frees_exactly_once_iff (embedded : Bool) (calls : List Measurement) :
    (∀ first, first <+: calls →
        FreedOnce (measuring.after (newTimestamper embedded) first)) ↔
      measuring.Along FreesFresh (newTimestamper embedded) calls := by
  have hpacked : Packed (newTimestamper embedded) := ⟨[], Nat.zero_le _, rfl⟩
  have hsettled : FreedOnce (newTimestamper embedded) := ⟨rfl, rfl⟩
  apply measuring.invariant_iff_along_within Packed _ _ hpacked hsettled calls
  · intro self call hpacked
    exact measureLatency_packed hpacked call
  · intro self call hpacked hsettled
    exact measureLatency_settled_iff hpacked hsettled call

/-- A packet with a timestamp in the NIC. -/
def packetIn (buf seq : Nat) : RxPacket := ⟨buf, 0, seq, some 2000, 0⟩

/-- Our packet arrives alone, after a turn without packets. -/
def promptReply : Measurement where
  maxWait := 0.015
  tx := some 1000
  turns := [⟨[], none, by decide, by decide⟩, ⟨[packetIn 7 1], some (-1), by decide, by decide⟩]

theorem frees_exactly_once_prompt :
    FreedOnce (measuring.after (newTimestamper false) [promptReply]) :=
  (frees_exactly_once_iff false [promptReply]).mpr (by decide) _ (List.prefix_refl _)

/-- A packet with another sequence number, and nothing more until the timer ends the call. -/
def strayPacket : Measurement where
  maxWait := 0.015
  tx := some 1000
  turns := [⟨[packetIn 7 99], some (-1), by decide, by decide⟩, ⟨[], none, by decide, by decide⟩]

/-- The second turn frees the packet of the first one again. -/
theorem stray_packet_freed_twice :
    ¬ ∀ (embedded : Bool) (calls : List Measurement),
      FreedOnce (measuring.after (newTimestamper embedded) calls) := by
  intro halways
  exact absurd (halways false [strayPacket]) (by decide)

end Libmoon.Timestamping
