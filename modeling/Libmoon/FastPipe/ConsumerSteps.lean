import Libmoon.FastPipe.ProducerSteps

/-! # What the consumer's accesses do

The consumer relies on the front block and on what it has seen of it. The producer
adds elements behind these and never enters the front block from behind, so a block
that is empty and no longer the tail block stays empty.
-/

namespace Libmoon.FastPipe

open Foundation

variable {α : Type}

/-- What the consumer relies on. -/
def RemovePoint.Valid (queue : Queue α) (rest : List Nat) (held : Nat → List α) :
    RemovePoint α → Prop
  | .start => True
  | .loadTail block blockFront =>
      block = queue.frontBlock ∧ blockFront = (queue.blocks queue.frontBlock).front
  | .loadTailBlock block => block = queue.frontBlock
  | .reloadTail => rest ≠ []
  | .loadNext block => block = queue.frontBlock ∧ rest ≠ [] ∧ held queue.frontBlock = []
  | .loadNextTail nextBlock => rest.head? = some nextBlock ∧ held queue.frontBlock = []
  | .storeFrontBlock nextBlock nextBlockFront =>
      rest.head? = some nextBlock ∧ held queue.frontBlock = [] ∧
        nextBlockFront = (queue.blocks nextBlock).front ∧
        nextBlockFront ≠ (queue.blocks nextBlock).localTail
  | .move block blockFront =>
      block = queue.frontBlock ∧ blockFront = (queue.blocks queue.frontBlock).front ∧
        blockFront ≠ (queue.blocks queue.frontBlock).localTail
  | .storeFront block blockFront element =>
      block = queue.frontBlock ∧ blockFront = (queue.blocks queue.frontBlock).front ∧
        blockFront ≠ (queue.blocks queue.frontBlock).localTail ∧
        (held queue.frontBlock).head? = some element

def Consumer.Valid (queue : Queue α) (rest : List Nat) (held : Nat → List α) : Consumer α → Prop
  | .inside point => point.Valid queue rest held
  | .failed => False
  | _ => True

/-- The statuses that are possible for the consumer's call. Whether a call that found the
front block empty returns nothing is known only when it reads `tailBlock`. -/
def Consumer.possible (rest : List Nat) : Consumer α → Set (CallStatus (Op α) (Answer α))
  | .idle => {.idle}
  | .inside (.loadTailBlock _) =>
      {status | status = .pending .tryDequeue ∨
        rest = [] ∧ status = .answered .tryDequeue (.removed none)}
  | .inside _ => {.pending .tryDequeue}
  | .done result => {.answered .tryDequeue (.removed result)}
  | .failed => ∅

/-- What the producer may rely on while the consumer moves. -/
structure ConsumerFrame (queue : Queue α) (rest spare : List Nat) (held : Nat → List α)
    (queue' : Queue α) (rest' spare' : List Nat) (held' : Nat → List α) : Prop where
  tailBlock_eq : queue'.tailBlock = queue.tailBlock
  fresh_eq : queue'.fresh = queue.fresh
  largest_eq : queue'.largestBlockSize = queue.largestBlockSize
  blocks_eq : ∀ b, ∃ front localTail,
    queue'.blocks b = { queue.blocks b with front := front, localTail := localTail }
  outside_eq : ∀ b ∉ queue.ring rest spare, queue'.blocks b = queue.blocks b
  ring_eq : ∀ b ∈ queue'.ring rest' spare', b ∈ queue.ring rest spare
  spare_initial : spare <+: spare'
  tail_held : rest' ≠ [] → rest ≠ [] ∧ held' queue.tailBlock = held queue.tailBlock

/-- The outcome of one access of the consumer. -/
structure ConsumerStep (capacity : Nat) (allocFails : Prop) (queue : Queue α)
    (rest spare : List Nat) (held entering : Nat → List α) (consumer : Consumer α)
    (queue' : Queue α) (consumer' : Consumer α) (rest' spare' : List Nat)
    (held' : Nat → List α) : Prop where
  layout : queue'.Layout capacity rest' spare' held' entering
  valid : consumer'.Valid queue' rest' held'
  frame : ConsumerFrame queue rest spare held queue' rest' spare' held'
  explained : StepExplained (fifo capacity allocFails) (queue.elements rest held)
    (consumer.possible rest) (queue'.elements rest' held') (consumer'.possible rest')

/-- Some layout describes the queue after the access. -/
def RemovePoint.Sound (capacity : Nat) (allocFails : Prop) (queue : Queue α)
    (rest spare : List Nat) (held entering : Nat → List α) (point : RemovePoint α) : Prop :=
  ∃ rest' spare' held', ConsumerStep capacity allocFails queue rest spare held entering
    (.inside point) (Consumer.step queue point).1 (Consumer.step queue point).2 rest' spare' held'

section

variable {queue : Queue α} {capacity : Nat} {allocFails : Prop} {rest spare : List Nat}
  {held entering : Nat → List α}

theorem ConsumerFrame.refl (queue : Queue α) (rest spare : List Nat) (held : Nat → List α) :
    ConsumerFrame queue rest spare held queue rest spare held :=
  ⟨rfl, rfl, rfl, fun _ => ⟨_, _, rfl⟩, fun _ _ => rfl, fun _ hb => hb, List.prefix_refl _,
    fun hrest => ⟨hrest, rfl⟩⟩

/-- A write to what the consumer owns of a block of the ring. -/
theorem ConsumerFrame.modify {address : Nat} {write : Block α → Block α} {held' : Nat → List α}
    (hmem : address ∈ queue.ring rest spare)
    (hwrite : ∃ front localTail, write (queue.blocks address) =
      { queue.blocks address with front := front, localTail := localTail })
    (hheld : rest ≠ [] → held' queue.tailBlock = held queue.tailBlock) :
    ConsumerFrame queue rest spare held (queue.modify address write) rest spare held' := by
  refine ⟨rfl, rfl, rfl, fun b => ?_, fun b hb => ?_, fun _ hb => hb, List.prefix_refl _,
    fun hrest => ⟨hrest, hheld hrest⟩⟩
  · by_cases heq : b = address
    · rw [heq, Queue.modify_blocks_self]
      exact hwrite
    · rw [queue.modify_blocks_of_ne heq]
      exact ⟨_, _, rfl⟩
  · exact queue.modify_blocks_of_ne (fun heq : b = address => hb (heq ▸ hmem)) write

/-! ## The front block -/

theorem step_start_consumer (hlayout : queue.Layout capacity rest spare held entering) :
    RemovePoint.Sound capacity allocFails queue rest spare held entering .start := by
  refine ⟨rest, spare, held, ?_⟩
  simp only [Consumer.step]
  split
  next hseen => exact ⟨hlayout, ⟨rfl, rfl, hseen⟩, .refl _ _ _ _, .of_subset subset_rfl rfl⟩
  next => exact ⟨hlayout, ⟨rfl, rfl⟩, .refl _ _ _ _, .of_subset subset_rfl rfl⟩

theorem step_loadTail {block blockFront : Nat}
    (hlayout : queue.Layout capacity rest spare held entering)
    (hvalid : (RemovePoint.loadTail block blockFront).Valid queue rest held) :
    RemovePoint.Sound capacity allocFails queue rest spare held entering
      (.loadTail block blockFront) := by
  obtain ⟨rfl, rfl⟩ := hvalid
  refine ⟨rest, spare, held, ?_⟩
  have hloaded := hlayout.modify_same queue.frontBlock
    (fun block => { block with localTail := (queue.blocks queue.frontBlock).tail })
    rfl rfl (fun _ hholds => hholds.loadTail)
  have hframe : ConsumerFrame queue rest spare held
      (queue.modify queue.frontBlock fun block =>
        { block with localTail := (queue.blocks queue.frontBlock).tail }) rest spare held :=
    .modify (Queue.Layout.frontBlock_mem queue rest spare) ⟨_, _, rfl⟩ fun _ => rfl
  simp only [Consumer.step]
  split
  next hsome =>
    exact ⟨hloaded, ⟨rfl, by simp, by simpa using hsome⟩, hframe, .of_subset subset_rfl rfl⟩
  next hnone =>
    refine ⟨hloaded, rfl, hframe, ?_⟩
    have hfront := hlayout.holds _ (Queue.Layout.frontBlock_mem queue rest spare)
    have hempty := hfront.front_eq_tail_iff.mp (Decidable.not_not.mp hnone)
    -- nothing in hindsight: this is the moment at which the queue is empty
    rintro status (rfl | ⟨rfl, rfl⟩)
    · exact .inl ⟨rfl, rfl⟩
    · refine .inr ⟨_, _, rfl, rfl, ?_⟩
      have helements : queue.elements [] held = [] := by simp [Queue.elements, hempty]
      exact ⟨helements, helements⟩

theorem step_loadTailBlock {block : Nat}
    (hlayout : queue.Layout capacity rest spare held entering)
    (hvalid : (RemovePoint.loadTailBlock block).Valid queue rest held) :
    RemovePoint.Sound capacity allocFails queue rest spare held entering
      (.loadTailBlock block) := by
  obtain rfl : block = queue.frontBlock := hvalid
  refine ⟨rest, spare, held, ?_⟩
  simp only [Consumer.step]
  split
  next hother =>
    have hrest : rest ≠ [] := fun hnil =>
      hother (hlayout.tailBlock_eq_frontBlock_iff.mpr hnil).symm
    exact ⟨hlayout, hrest, .refl _ _ _ _, .of_subset (fun _ hstatus => .inl hstatus) rfl⟩
  next hsame =>
    have hrest : rest = [] :=
      hlayout.tailBlock_eq_frontBlock_iff.mp (Decidable.not_not.mp hsame).symm
    refine ⟨hlayout, trivial, .refl _ _ _ _, .of_subset ?_ rfl⟩
    rintro status rfl
    exact .inr ⟨hrest, rfl⟩

theorem step_reloadTail (hlayout : queue.Layout capacity rest spare held entering)
    (hvalid : (RemovePoint.reloadTail : RemovePoint α).Valid queue rest held) :
    RemovePoint.Sound capacity allocFails queue rest spare held entering .reloadTail := by
  refine ⟨rest, spare, held, ?_⟩
  have hloaded := hlayout.modify_same queue.frontBlock
    (fun block => { block with localTail := (queue.blocks queue.frontBlock).tail })
    rfl rfl (fun _ hholds => hholds.loadTail)
  have hframe : ConsumerFrame queue rest spare held
      (queue.modify queue.frontBlock fun block =>
        { block with localTail := (queue.blocks queue.frontBlock).tail }) rest spare held :=
    .modify (Queue.Layout.frontBlock_mem queue rest spare) ⟨_, _, rfl⟩ fun _ => rfl
  simp only [Consumer.step]
  split
  next hsome =>
    exact ⟨hloaded, ⟨rfl, by simp, by simpa using hsome⟩, hframe, .of_subset subset_rfl rfl⟩
  next hnone =>
    have hfront := hlayout.holds _ (Queue.Layout.frontBlock_mem queue rest spare)
    have hempty := hfront.front_eq_tail_iff.mp (Decidable.not_not.mp hnone)
    exact ⟨hloaded, ⟨rfl, hvalid, hempty⟩, hframe, .of_subset subset_rfl rfl⟩

/-! ## The next block -/

theorem step_loadNext {block : Nat} (hlayout : queue.Layout capacity rest spare held entering)
    (hvalid : (RemovePoint.loadNext block).Valid queue rest held) :
    RemovePoint.Sound capacity allocFails queue rest spare held entering (.loadNext block) := by
  obtain ⟨rfl, hrest, hempty⟩ := hvalid
  obtain ⟨nextBlock, others, rfl⟩ := List.exists_cons_of_ne_nil hrest
  refine ⟨nextBlock :: others, spare, held, hlayout, ⟨?_, hempty⟩, .refl _ _ _ _,
    .of_subset subset_rfl rfl⟩
  rw [hlayout.next_frontBlock]
  rfl

theorem step_loadNextTail {nextBlock : Nat}
    (hlayout : queue.Layout capacity rest spare held entering)
    (hvalid : (RemovePoint.loadNextTail nextBlock).Valid queue rest held) :
    RemovePoint.Sound capacity allocFails queue rest spare held entering
      (.loadNextTail nextBlock) := by
  obtain ⟨hrest, hempty⟩ := hvalid
  have hmem := List.mem_of_mem_head? hrest
  have hring := Queue.Layout.mem_ring_of_rest queue spare hmem
  have hsome : (queue.blocks nextBlock).front ≠ (queue.blocks nextBlock).tail := fun heq =>
    hlayout.nonempty nextBlock hmem ((hlayout.holds nextBlock hring).front_eq_tail_iff.mp heq)
  refine ⟨rest, spare, held, ?_⟩
  simp only [Consumer.step, if_pos hsome]
  refine ⟨hlayout.modify_same _ _ rfl rfl (fun _ hholds => hholds.loadTail),
    ⟨hrest, hempty, ?_, ?_⟩, .modify hring ⟨_, _, rfl⟩ fun _ => rfl, .of_subset subset_rfl rfl⟩
  · simp
  · simpa using hsome

theorem step_storeFrontBlock {nextBlock nextBlockFront : Nat}
    (hlayout : queue.Layout capacity rest spare held entering)
    (hentering : entering queue.frontBlock = [])
    (hvalid : (RemovePoint.storeFrontBlock nextBlock nextBlockFront).Valid queue rest held) :
    RemovePoint.Sound capacity allocFails queue rest spare held entering
      (.storeFrontBlock nextBlock nextBlockFront) := by
  obtain ⟨hrest, hempty, rfl, hseen⟩ := hvalid
  cases rest with
  | nil => cases hrest
  | cons first others =>
      obtain rfl : first = nextBlock := Option.some.inj hrest
      refine ⟨others, spare ++ [queue.frontBlock], held, ?_⟩
      dsimp only [Consumer.step]
      refine ⟨hlayout.storeFrontBlock hempty hentering, ⟨rfl, rfl, hseen⟩,
        ⟨rfl, rfl, rfl, fun _ => ⟨_, _, rfl⟩, fun _ _ => rfl, ?_, List.prefix_append _ _,
          fun _ => ⟨by simp, rfl⟩⟩,
        .of_subset subset_rfl (Queue.Layout.elements_storeFrontBlock hempty)⟩
      intro b hb
      simp only [Queue.ring, List.mem_cons, List.mem_append, List.not_mem_nil, or_false] at hb ⊢
      tauto

/-! ## Taking the element -/

theorem step_move {block blockFront : Nat}
    (hlayout : queue.Layout capacity rest spare held entering)
    (hvalid : (RemovePoint.move block blockFront).Valid queue rest held) :
    RemovePoint.Sound capacity allocFails queue rest spare held entering
      (.move block blockFront) := by
  obtain ⟨rfl, rfl, hseen⟩ := hvalid
  have hholds := hlayout.holds _ (Queue.Layout.frontBlock_mem queue rest spare)
  obtain ⟨element, others, hfirst⟩ :=
    List.exists_cons_of_ne_nil (hholds.ne_nil_of_localTail hseen)
  rw [hfirst] at hholds
  refine ⟨rest, spare, held, ?_⟩
  simp only [Consumer.step, hholds.data_front]
  exact ⟨hlayout, ⟨rfl, rfl, hseen, by rw [hfirst]; rfl⟩, .refl _ _ _ _, .of_subset subset_rfl rfl⟩

theorem step_storeFront {block blockFront : Nat} {element : α}
    (hlayout : queue.Layout capacity rest spare held entering)
    (hvalid : (RemovePoint.storeFront block blockFront element).Valid queue rest held) :
    RemovePoint.Sound capacity allocFails queue rest spare held entering
      (.storeFront block blockFront element) := by
  obtain ⟨rfl, rfl, hseen, hhead⟩ := hvalid
  obtain ⟨others, hfirst⟩ := List.head?_eq_some_iff.mp hhead
  refine ⟨rest, spare, Function.update held queue.frontBlock others, ?_⟩
  dsimp only [Consumer.step]
  refine ⟨hlayout.storeFront hfirst hseen, trivial,
    .modify (Queue.Layout.frontBlock_mem queue rest spare) ⟨_, _, rfl⟩ ?_, ?_⟩
  · intro hrest
    exact Function.update_of_ne (fun heq => hrest (hlayout.tailBlock_eq_frontBlock_iff.mp heq)) _ _
  · rintro status rfl
    exact .inr ⟨_, _, rfl, rfl, hlayout.elements_storeFront hfirst⟩

theorem RemovePoint.Valid.sound {point : RemovePoint α} (hvalid : point.Valid queue rest held)
    (allocFails : Prop)
    (hlayout : queue.Layout capacity rest spare held entering)
    (hentering : entering queue.frontBlock = []) :
    point.Sound capacity allocFails queue rest spare held entering := by
  cases point with
  | start => exact step_start_consumer hlayout
  | loadTail block blockFront => exact step_loadTail hlayout hvalid
  | loadTailBlock block => exact step_loadTailBlock hlayout hvalid
  | reloadTail => exact step_reloadTail hlayout hvalid
  | loadNext block => exact step_loadNext hlayout hvalid
  | loadNextTail nextBlock => exact step_loadNextTail hlayout hvalid
  | storeFrontBlock nextBlock nextBlockFront => exact step_storeFrontBlock hlayout hentering hvalid
  | move block blockFront => exact step_move hlayout hvalid
  | storeFront block blockFront element => exact step_storeFront hlayout hvalid

end

end Libmoon.FastPipe
