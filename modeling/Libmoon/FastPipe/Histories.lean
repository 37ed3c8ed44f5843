import Libmoon.FastPipe.Reservation
import Libmoon.Foundation.Stepping

/-! # What the users of a fast pipe can rely on

For every queue the constructor makes, and whatever the order in which producer and
consumer access memory: the history is that of a list with room for `maxSize` elements,
no assertion fails, elements come out in the order they went in, and between two calls of the
producer `size_approx` counts them.
-/

namespace Libmoon.FastPipe

open Foundation

variable {α : Type} {maxSize : UInt64} {allocFails : Prop} {moves : List (Move α)}
  {spsc : Spsc α}

/-- Two elements for a block of two slots, the second of which is refused, and two calls
of the consumer, the second of which returns nothing. -/
def exampleMoves : List (Move Nat) :=
  [.insert .cannotAlloc 7, .producer true, .producer true, .producer true, .inserted,
    .insert .cannotAlloc 8, .producer true, .producer true, .producer true, .inserted,
    .tryDequeue, .consumer, .consumer, .consumer, .consumer, .dequeued,
    .tryDequeue, .consumer, .consumer, .consumer, .dequeued]

/-! ## The object -/

/-- A queue that was made for `maxSize` elements behaves like a list: it refuses an
element only if it holds `maxSize` others, and an element that may be put into a new
block only in a run in which allocations fail; it yields nothing only if it is empty. -/
theorem spsc_linearizable (hpos : 0 < maxSize.toNat) (hmax : maxSize.toNat < 2 ^ 63)
    (hmoves : ∀ move ∈ moves, move = .producer false → allocFails)
    (hrun : runSchedule spscNext (.new maxSize) moves = some spsc) :
    Linearizable (fifo maxSize.toNat allocFails) [] spsc.history :=
  (sound_of_run hpos hmax hmoves hrun).linearizable

theorem spsc_linearizable_example :
    ∃ spsc, runSchedule spscNext (.new 1) exampleMoves = some spsc ∧
      Linearizable (fifo 1 False) [] spsc.history :=
  ⟨_, rfl, @spsc_linearizable _ 1 False exampleMoves _ (by decide) (by decide)
    (by simp [exampleMoves]) rfl⟩

/-- No assertion of either side fails and no slot is read before it was written. -/
theorem spsc_never_fails (hpos : 0 < maxSize.toNat) (hmax : maxSize.toNat < 2 ^ 63)
    (hrun : runSchedule spscNext (.new maxSize) moves = some spsc) :
    spsc.producer ≠ .failed ∧ spsc.consumer ≠ .failed := by
  obtain ⟨rest, spare, held, -, hproducer, hconsumer, -⟩ :=
    @sound_of_run _ maxSize hpos hmax True moves spsc (fun _ _ _ => trivial) hrun
  constructor
  · intro hfailed
    rwa [hfailed] at hproducer
  · intro hfailed
    rwa [hfailed] at hconsumer

theorem spsc_never_fails_example :
    ∃ spsc, runSchedule spscNext (.new 1) exampleMoves = some spsc ∧
      spsc.producer ≠ .failed ∧ spsc.consumer ≠ .failed :=
  ⟨_, rfl, @spsc_never_fails _ 1 exampleMoves _ (by decide) (by decide) rfl⟩

/-! ## The elements -/

/-- What an answer says was put into the queue. -/
def added : Op α → Answer α → List α
  | .insert _ element, .inserted true => [element]
  | _, _ => []

/-- What an answer says was taken out of the queue. -/
def taken : Op α → Answer α → List α
  | .tryDequeue, .removed (some element) => [element]
  | _, _ => []

/-- An accepted element whose call has not returned. -/
def Producer.accepting : Producer α → List α
  | .done _ element true => [element]
  | _ => []

/-- An element on its way to the caller. -/
def Consumer.receiving : Consumer α → List α
  | .done (some element) => [element]
  | _ => []

def Spsc.accepted (spsc : Spsc α) : List α :=
  answered added spsc.history ++ spsc.producer.accepting

def Spsc.received (spsc : Spsc α) : List α :=
  answered taken spsc.history ++ spsc.consumer.receiving

theorem fifo_conserves (capacity : Nat) (allocFails : Prop) :
    Conserves (fifo capacity allocFails : AtomicObject (List α) _ _) added taken := by
  intro state op answer state' heffect
  rcases op with ⟨mode, element⟩ | _ <;> rcases answer with (_ | _) | (_ | element')
  · -- refused
    obtain ⟨rfl, -, -⟩ := heffect
    simp [added, taken]
  · obtain rfl : state' = _ := heffect
    simp [added, taken]
  · exact absurd heffect not_false
  · exact absurd heffect not_false
  · exact absurd heffect not_false
  · exact absurd heffect not_false
  · obtain ⟨rfl, rfl⟩ := heffect
    rfl
  · obtain rfl : state = _ := heffect
    simp [added, taken]

/-- Each side calls only its own operation. -/
def CallsOwn (history : List (CallEvent Side (Op α) (Answer α))) : Prop :=
  ∀ side op, .call side op ∈ history →
    match op with
    | .insert _ _ => side = .producer
    | .tryDequeue => side = .consumer

theorem callsOwn_of_run (hrun : runSchedule spscNext (.new maxSize) moves = some spsc) :
    CallsOwn spsc.history := by
  have hstep : ∀ (spsc : Spsc α) move spsc', CallsOwn spsc.history → True →
      spscNext spsc move = some spsc' → CallsOwn spsc'.history := by
    intro spsc move spsc' hown _ hnext side op hcall
    obtain ⟨queue, producer, consumer, history⟩ := spsc
    cases move with
    | insert mode element =>
        cases producer <;> cases hnext
        rcases List.mem_append.mp hcall with hcall | hcall
        · exact hown side op hcall
        · cases List.mem_singleton.mp hcall
          rfl
    | producer allocates =>
        cases producer <;> cases hnext
        exact hown side op hcall
    | inserted =>
        cases producer <;> cases hnext
        exact hown side op (by simpa using hcall)
    | tryDequeue =>
        cases consumer <;> cases hnext
        rcases List.mem_append.mp hcall with hcall | hcall
        · exact hown side op hcall
        · cases List.mem_singleton.mp hcall
          rfl
    | consumer =>
        cases consumer <;> cases hnext
        exact hown side op hcall
    | dequeued =>
        cases consumer <;> cases hnext
        exact hown side op (by simpa using hcall)
  exact invariant_of_schedule hstep (by simp [CallsOwn, Spsc.new]) (fun _ _ => trivial) hrun

theorem CallsOwn.onlyBy_added {history : List (CallEvent Side (Op α) (Answer α))}
    (hown : CallsOwn history) : OnlyBy added .producer history := by
  intro side op hcall hne answer
  cases op with
  | insert mode element => exact absurd (hown side _ hcall) hne
  | tryDequeue => rfl

theorem CallsOwn.onlyBy_taken {history : List (CallEvent Side (Op α) (Answer α))}
    (hown : CallsOwn history) : OnlyBy taken .consumer history := by
  intro side op hcall hne answer
  cases op with
  | insert mode element => rfl
  | tryDequeue => exact absurd (hown side _ hcall) hne

/-- A choice for each side. -/
def Side.choice {β : Type} (producing consuming : β) : Side → β
  | .producer => producing
  | .consumer => consuming

/-- What was accepted is what was received, followed by what a layout finds in the queue. -/
theorem Spsc.SoundWith.accounted {capacity : Nat} {rest spare : List Nat} {held : Nat → List α}
    (hsound : spsc.SoundWith capacity allocFails rest spare held) (hown : CallsOwn spsc.history) :
    spsc.accepted = spsc.received ++ spsc.queue.elements rest held := by
  obtain ⟨producing, hproducing, hadded⟩ :
      ∃ status ∈ spsc.producer.possible allocFails spare,
        status.inFlight added = spsc.producer.accepting := by
    rcases hproducer : spsc.producer with _ | ⟨mode, element, point⟩ | ⟨mode, element, _ | _⟩ | _
    · exact ⟨_, rfl, rfl⟩
    · refine ⟨.pending (.insert mode element), ?_, rfl⟩
      cases point with
      | loadFrontBlock block => exact .inl rfl
      | make block => exact .inl rfl
      | _ => rfl
    · exact ⟨_, rfl, rfl⟩
    · exact ⟨_, rfl, rfl⟩
    · have hvalid := hsound.producer
      rw [hproducer] at hvalid
      exact absurd hvalid not_false
  obtain ⟨consuming, hconsuming, htaken⟩ :
      ∃ status ∈ spsc.consumer.possible rest,
        status.inFlight taken = spsc.consumer.receiving := by
    rcases hconsumer : spsc.consumer with _ | point | (_ | element) | _
    · exact ⟨_, rfl, rfl⟩
    · refine ⟨.pending .tryDequeue, ?_, rfl⟩
      cases point with
      | loadTailBlock block => exact .inl rfl
      | _ => rfl
    · exact ⟨_, rfl, rfl⟩
    · exact ⟨_, rfl, rfl⟩
    · have hvalid := hsound.consumer
      rw [hconsumer] at hvalid
      exact absurd hvalid not_false
  have hrun := hsound.explained (Side.choice producing consuming) (by
    intro side
    cases side
    · exact hproducing
    · exact hconsuming)
  have haccounted := hrun.accounted (fifo_conserves capacity allocFails) hown.onlyBy_added
    hown.onlyBy_taken
  rw [List.nil_append] at haccounted
  simpa only [Spsc.accepted, Spsc.received, Side.choice, hadded, htaken] using haccounted

/-- Elements come out in the order they were accepted in, each once. -/
theorem received_initial_accepted (hpos : 0 < maxSize.toNat) (hmax : maxSize.toNat < 2 ^ 63)
    (hrun : runSchedule spscNext (.new maxSize) moves = some spsc) :
    spsc.received <+: spsc.accepted := by
  obtain ⟨rest, spare, held, hsound⟩ :=
    @sound_of_run _ maxSize hpos hmax True moves spsc (fun _ _ _ => trivial) hrun
  rw [hsound.accounted (callsOwn_of_run hrun)]
  exact List.prefix_append _ _

theorem received_initial_accepted_example :
    ∃ spsc, runSchedule spscNext (.new 1) exampleMoves = some spsc ∧
      spsc.received <+: spsc.accepted :=
  ⟨_, rfl, @received_initial_accepted _ 1 exampleMoves _ (by decide) (by decide) rfl⟩

/-! ## The number of elements -/

/-- One round of `size_approx`: the block to look at and the sum so far. -/
def sizeStep (queue : Queue α) : Nat × UInt64 → Stepped (Nat × UInt64) UInt64
  | (address, result) =>
      let block := queue.blocks address
      let result := result +
        ((UInt64.ofNat block.tail - UInt64.ofNat block.front) &&& UInt64.ofNat block.sizeMask)
      if block.next ≠ queue.frontBlock then .next (block.next, result) else .done result

/-- `size_approx` returns this, if no other thread writes while it reads. -/
def Queue.SizeApprox (queue : Queue α) (size : UInt64) : Prop :=
  Yields (sizeStep queue) (queue.frontBlock, 0) size

theorem Block.Holds.count {block : Block α} {queued : List α} (hholds : block.Holds queued) :
    (UInt64.ofNat block.tail - UInt64.ofNat block.front) &&& UInt64.ofNat block.sizeMask =
      UInt64.ofNat queued.length := by
  obtain ⟨k, hk, hsize⟩ := hholds.size_pow
  have hfront := hholds.front_lt
  have hlength := hholds.length_lt
  have htail : block.tail < block.size := by
    rw [hholds.tail_eq]
    exact Nat.mod_lt _ (Nat.zero_lt_of_lt hfront)
  have hdvd : block.size ∣ 2 ^ 64 := hsize ▸ Nat.pow_dvd_pow 2 hk
  have hle : block.size ≤ 2 ^ 64 := Nat.le_of_dvd (by decide) hdvd
  have hmask : block.sizeMask < 2 ^ 64 := Nat.lt_of_lt_of_le (Nat.lt_succ_self _) hle
  rw [← UInt64.toNat_inj, UInt64.toNat_and, UInt64.toNat_sub, UInt64.toNat_ofNat',
    UInt64.toNat_ofNat', UInt64.toNat_ofNat', UInt64.toNat_ofNat',
    Nat.mod_eq_of_lt (Nat.lt_of_lt_of_le hfront hle),
    Nat.mod_eq_of_lt (Nat.lt_of_lt_of_le htail hle), Nat.mod_eq_of_lt hmask,
    Nat.mod_eq_of_lt (Nat.lt_of_lt_of_le hlength hle), hholds.and_sizeMask,
    Nat.mod_mod_of_dvd _ hdvd]
  -- adding `front` on both sides leaves `tail`
  have hmod : block.front + (2 ^ 64 - block.front + block.tail) ≡
      block.front + queued.length [MOD block.size] := by
    have hsum : block.front + (2 ^ 64 - block.front + block.tail) = 2 ^ 64 + block.tail := by omega
    have hwrap : (2 ^ 64 + block.tail) % block.size = block.tail % block.size := by
      obtain ⟨c, hc⟩ := hdvd
      rw [hc, Nat.mul_add_mod]
    rw [Nat.ModEq, hsum, hwrap, Nat.mod_eq_of_lt htail, hholds.tail_eq]
  have hcancel := Nat.ModEq.add_left_cancel' block.front hmod
  rwa [Nat.ModEq, Nat.mod_eq_of_lt hlength] at hcancel

section

variable {queue : Queue α} {capacity : Nat} {rest spare : List Nat} {held entering : Nat → List α}

/-- The sum over the blocks that are left. -/
theorem Queue.Layout.sizeStep_yields
    (hlayout : queue.Layout capacity rest spare held entering) (sum : UInt64)
    (before : List Nat) (b : Nat) (after : List Nat)
    (hring : queue.ring rest spare = before ++ b :: after) :
    Yields (sizeStep queue) (b, sum)
      (sum + UInt64.ofNat ((b :: after).flatMap held).length) := by
  have hcount := (hlayout.holds b (by rw [hring]; simp)).count
  induction after generalizing before b sum with
  | nil =>
      have hlast : (queue.blocks b).next = queue.frontBlock := by
        have hnext := hlayout.linked.next_last
        have hget : ∀ hne, (queue.ring rest spare).getLast hne = b := by
          intro hne
          simp [hring]
        exact (hget (by simp [Queue.ring])) ▸ hnext
      refine .of_done ?_
      simp [sizeStep, hcount, hlast]
  | cons following after ih =>
      have hlinked := hlayout.linked
      rw [hring] at hlinked
      have hnext : (queue.blocks b).next = following := hlinked.next_eq
      have hne : following ≠ queue.frontBlock := by
        rintro rfl
        have hnodup := hlayout.nodup
        have hsame : before ++ b :: queue.frontBlock :: after =
            queue.frontBlock :: (rest ++ spare) := hring.symm
        rw [hring] at hnodup
        cases before with
        | nil =>
            obtain ⟨rfl, -⟩ := List.cons.inj hsame
            simp at hnodup
        | cons first before =>
            obtain ⟨rfl, -⟩ := List.cons.inj hsame
            simp at hnodup
      have hring' : queue.ring rest spare = (before ++ [b]) ++ following :: after := by
        simpa using hring
      have hyields := ih (sum + UInt64.ofNat (held b).length) (before ++ [b]) following hring'
        (hlayout.holds following (by rw [hring]; simp)).count
      have hstep : sizeStep queue (b, sum) =
          .next (following, sum + UInt64.ofNat (held b).length) := by
        simp [sizeStep, hcount, hnext, hne]
      have hsum : sum + UInt64.ofNat ((b :: following :: after).flatMap held).length =
          sum + UInt64.ofNat (held b).length +
            UInt64.ofNat ((following :: after).flatMap held).length := by
        rw [List.flatMap_cons, List.length_append, UInt64.ofNat_add, UInt64.add_assoc]
      rw [hsum]
      exact .of_next hstep hyields

end

/-- Between two calls of the producer, `size_approx` counts what was accepted and not
yet received, wherever the consumer is. -/
theorem sizeApprox_eq (hpos : 0 < maxSize.toNat) (hmax : maxSize.toNat < 2 ^ 63)
    (hrun : runSchedule spscNext (.new maxSize) moves = some spsc)
    (hidle : spsc.producer = .idle) :
    spsc.queue.SizeApprox (UInt64.ofNat (spsc.accepted.length - spsc.received.length)) := by
  obtain ⟨rest, spare, held, hsound⟩ :=
    @sound_of_run _ maxSize hpos hmax True moves spsc (fun _ _ _ => trivial) hrun
  have hcount : spsc.accepted.length - spsc.received.length =
      ((spsc.queue.ring rest spare).flatMap held).length := by
    have hspare : spare.flatMap held = [] := by
      rw [List.flatMap_eq_nil_iff]
      intro b hb
      rw [hsound.layout.spare_eq b hb, hidle]
      rfl
    rw [hsound.accounted (callsOwn_of_run hrun), List.length_append, Nat.add_sub_cancel_left,
      Queue.ring, Queue.elements, List.flatMap_cons, List.flatMap_append, hspare, List.append_nil]
  have hyields := hsound.layout.sizeStep_yields 0 [] spsc.queue.frontBlock (rest ++ spare) rfl
  rw [UInt64.zero_add] at hyields
  rw [hcount]
  exact hyields

theorem sizeApprox_eq_example :
    ∃ spsc, runSchedule spscNext (.new 1) (exampleMoves.take 10) = some spsc ∧
      spsc.queue.SizeApprox (UInt64.ofNat (spsc.accepted.length - spsc.received.length)) :=
  ⟨_, rfl, @sizeApprox_eq _ 1 (exampleMoves.take 10) _ (by decide) (by decide) rfl rfl⟩

end Libmoon.FastPipe
