import Libmoon.FastPipe.Layout

/-! # What the producer's accesses do

At every point of `inner_enqueue` the producer relies on what it read before. The
consumer only ever adds room, so this stays true until the producer's next access. In
return the producer leaves alone what the consumer relies on: the front block, the
blocks between front and tail, and what the consumer wrote to them.
-/

namespace Libmoon.FastPipe

open Foundation

variable {α : Type}

/-- What a spare block holds that the producer is about to make the tail block. -/
def Producer.entering : Producer α → Nat → List α
  | .inside _ element (.storeTailBlock block), b => if b = block then [element] else []
  | _, _ => []

/-- A tail block that is not the front block is full. -/
def Queue.TailFull (queue : Queue α) (rest : List Nat) (held : Nat → List α) : Prop :=
  rest ≠ [] → (held queue.tailBlock).length + 1 = (queue.blocks queue.tailBlock).size

/-- The next position of `tail`. -/
def Block.nextTail (block : Block α) : Nat :=
  (block.tail + 1) &&& block.sizeMask

/-- What the producer relies on. -/
def InsertPoint.Valid (queue : Queue α) (rest spare : List Nat) (held : Nat → List α)
    (element : α) : InsertPoint → Prop
  | .start => True
  | .loadFront block blockTail nextBlockTail =>
      block = queue.tailBlock ∧ blockTail = (queue.blocks block).tail ∧
        nextBlockTail = (queue.blocks block).nextTail
  | .construct block blockTail nextBlockTail =>
      block = queue.tailBlock ∧ blockTail = (queue.blocks block).tail ∧
        nextBlockTail = (queue.blocks block).nextTail ∧
        (queue.blocks block).nextTail ≠ (queue.blocks block).localFront
  | .storeTail block nextBlockTail =>
      block = queue.tailBlock ∧ nextBlockTail = (queue.blocks block).nextTail ∧
        (queue.blocks block).nextTail ≠ (queue.blocks block).localFront ∧
        (queue.blocks block).data (queue.blocks block).tail = some element
  | .loadFrontBlock block => block = queue.tailBlock ∧ queue.TailFull rest held
  | .loadNextFront block => block = queue.tailBlock ∧ queue.TailFull rest held ∧ spare ≠ []
  | .constructNext block blockTail =>
      queue.TailFull rest held ∧ spare.head? = some block ∧
        blockTail = (queue.blocks block).tail ∧ (queue.blocks block).localFront = blockTail
  | .storeNextTail block blockTail =>
      queue.TailFull rest held ∧ spare.head? = some block ∧
        blockTail = (queue.blocks block).tail ∧ (queue.blocks block).localFront = blockTail ∧
        (queue.blocks block).data blockTail = some element
  | .make block => block = queue.tailBlock ∧ queue.TailFull rest held
  | .link block newBlock =>
      block = queue.tailBlock ∧ queue.TailFull rest held ∧ newBlock ∉ queue.ring rest spare ∧
        newBlock < queue.fresh ∧ (queue.blocks newBlock).Holds [element] ∧
        (queue.blocks newBlock).next = (queue.blocks queue.tailBlock).next ∧
        (queue.blocks newBlock).size = queue.largestBlockSize
  | .storeTailBlock block => queue.TailFull rest held ∧ spare.head? = some block

def Producer.Valid (queue : Queue α) (rest spare : List Nat) (held : Nat → List α) :
    Producer α → Prop
  | .inside _ element point => point.Valid queue rest spare held element
  | .failed => False
  | _ => True

/-- The statuses that are possible for the producer's call. Whether a call that found the
tail block full will be refused is known only when it reads `frontBlock`. -/
def Producer.possible (allocFails : Prop) (spare : List Nat) :
    Producer α → Set (CallStatus (Op α) (Answer α))
  | .idle => {.idle}
  | .inside mode element (.loadFrontBlock _) =>
      {status | status = .pending (.insert mode element) ∨
        spare = [] ∧ (mode = .canAlloc → allocFails) ∧
          status = .answered (.insert mode element) (.inserted false)}
  | .inside mode element (.make _) =>
      {status | status = .pending (.insert mode element) ∨
        allocFails ∧ status = .answered (.insert mode element) (.inserted false)}
  | .inside mode element _ => {.pending (.insert mode element)}
  | .done mode element ok => {.answered (.insert mode element) (.inserted ok)}
  | .failed => ∅

/-- What the consumer may rely on while the producer moves. -/
structure ProducerFrame (queue : Queue α) (rest : List Nat) (held : Nat → List α)
    (queue' : Queue α) (rest' : List Nat) (held' : Nat → List α) : Prop where
  frontBlock_eq : queue'.frontBlock = queue.frontBlock
  front_eq : ∀ b ∈ queue.frontBlock :: rest, (queue'.blocks b).front = (queue.blocks b).front ∧
    (queue'.blocks b).localTail = (queue.blocks b).localTail
  rest_initial : rest <+: rest'
  held_initial : held queue.frontBlock <+: held' queue.frontBlock
  held_fixed : rest ≠ [] → held' queue.frontBlock = held queue.frontBlock

/-- The outcome of one access of the producer. -/
structure ProducerStep (capacity : Nat) (allocFails : Prop) (queue : Queue α)
    (rest spare : List Nat) (held : Nat → List α) (producer : Producer α)
    (queue' : Queue α) (producer' : Producer α) (rest' spare' : List Nat)
    (held' : Nat → List α) : Prop where
  layout : queue'.Layout capacity rest' spare' held' producer'.entering
  valid : producer'.Valid queue' rest' spare' held'
  frame : ProducerFrame queue rest held queue' rest' held'
  explained : StepExplained (fifo capacity allocFails) (queue.elements rest held)
    (producer.possible allocFails spare) (queue'.elements rest' held')
    (producer'.possible allocFails spare')

/-- Some layout describes the queue after the access. -/
def InsertPoint.Sound (capacity : Nat) (allocFails : Prop) (queue : Queue α)
    (rest spare : List Nat) (held : Nat → List α) (mode : AllocationMode) (element : α)
    (allocates : Bool) (point : InsertPoint) : Prop :=
  ∃ rest' spare' held', ProducerStep capacity allocFails queue rest spare held
    (.inside mode element point) (Producer.step queue mode element allocates point).1
    (Producer.step queue mode element allocates point).2 rest' spare' held'

section

variable {queue : Queue α} {capacity : Nat} {allocFails : Prop} {rest spare : List Nat}
  {held : Nat → List α} {mode : AllocationMode} {element : α} {allocates : Bool}

theorem ProducerFrame.refl (queue : Queue α) (rest : List Nat) (held : Nat → List α) :
    ProducerFrame queue rest held queue rest held :=
  ⟨rfl, fun _ _ => ⟨rfl, rfl⟩, List.prefix_refl _, List.prefix_refl _, fun _ => rfl⟩

/-- A write to variables that the consumer does not own. -/
theorem ProducerFrame.modify {address : Nat} {write : Block α → Block α}
    (hfront : (write (queue.blocks address)).front = (queue.blocks address).front)
    (hlocal : (write (queue.blocks address)).localTail = (queue.blocks address).localTail) :
    ProducerFrame queue rest held (queue.modify address write) rest held := by
  refine ⟨rfl, fun b _ => ?_, List.prefix_refl _, List.prefix_refl _, fun _ => rfl⟩
  by_cases heq : b = address
  · rw [heq, Queue.modify_blocks_self]
    exact ⟨hfront, hlocal⟩
  · rw [queue.modify_blocks_of_ne heq]
    exact ⟨rfl, rfl⟩

/-! ## Inside the tail block -/

theorem step_start
    (hlayout : queue.Layout capacity rest spare held (fun _ => [])) :
    InsertPoint.Sound capacity allocFails queue rest spare held mode element allocates
      .start := by
  refine ⟨rest, spare, held, ?_⟩
  simp only [Producer.step]
  split
  next hroom =>
    exact ⟨hlayout, ⟨rfl, rfl, rfl, hroom⟩, .refl _ _ _, .of_subset subset_rfl rfl⟩
  next =>
    exact ⟨hlayout, ⟨rfl, rfl, rfl⟩, .refl _ _ _, .of_subset subset_rfl rfl⟩

theorem step_loadFront {block blockTail nextBlockTail : Nat}
    (hlayout : queue.Layout capacity rest spare held (fun _ => []))
    (hvalid : (InsertPoint.loadFront block blockTail nextBlockTail).Valid queue rest spare held
      element) :
    InsertPoint.Sound capacity allocFails queue rest spare held mode element allocates
      (.loadFront block blockTail nextBlockTail) := by
  obtain ⟨rfl, rfl, rfl⟩ := hvalid
  refine ⟨rest, spare, held, ?_⟩
  have hloaded := hlayout.modify_same queue.tailBlock
    (fun block => { block with localFront := (queue.blocks queue.tailBlock).front })
    rfl rfl (fun _ hholds => hholds.loadFront)
  simp only [Producer.step]
  split
  next hroom =>
    dsimp only
    refine ⟨hloaded, ⟨rfl, ?_, ?_, ?_⟩, .modify rfl rfl, .of_subset subset_rfl rfl⟩
    · simp
    · simp [Block.nextTail]
    · simpa [Block.nextTail] using hroom
  next hfull =>
    dsimp only
    have hlength := (hlayout.holds _ hlayout.tailBlock_mem).full_of_next_eq
      (Decidable.not_not.mp hfull)
    refine ⟨hloaded, ⟨rfl, fun _ => ?_⟩, .modify rfl rfl, ?_⟩
    · rw [Queue.modify_tailBlock, Queue.modify_blocks_self]
      exact hlength
    · -- refused in hindsight: this is the moment at which the queue is full
      rintro status (rfl | ⟨rfl, hmode, rfl⟩)
      · exact .inl ⟨rfl, rfl⟩
      · exact .inr ⟨_, _, rfl, rfl, rfl, hlayout.capacity_le hlength, hmode⟩

theorem step_construct {block blockTail nextBlockTail : Nat}
    (hlayout : queue.Layout capacity rest spare held (fun _ => []))
    (hvalid : (InsertPoint.construct block blockTail nextBlockTail).Valid queue rest spare held
      element) :
    InsertPoint.Sound capacity allocFails queue rest spare held mode element allocates
      (.construct block blockTail nextBlockTail) := by
  obtain ⟨rfl, rfl, rfl, hroom⟩ := hvalid
  refine ⟨rest, spare, held, ?_⟩
  dsimp only [Producer.step]
  refine ⟨hlayout.modify_same _ _ rfl rfl (fun _ hholds => hholds.put_tail element),
    ⟨rfl, ?_, ?_, ?_⟩, .modify rfl rfl, .of_subset subset_rfl rfl⟩
  · simp [Block.nextTail, Block.put]
  · simpa [Block.nextTail, Block.put] using hroom
  · simp [Block.put]

theorem step_storeTail {block nextBlockTail : Nat}
    (hlayout : queue.Layout capacity rest spare held (fun _ => []))
    (hvalid : (InsertPoint.storeTail block nextBlockTail).Valid queue rest spare held element) :
    InsertPoint.Sound capacity allocFails queue rest spare held mode element allocates
      (.storeTail block nextBlockTail) := by
  obtain ⟨rfl, rfl, hroom, hslot⟩ := hvalid
  refine ⟨rest, spare, _, hlayout.storeTail hslot hroom, trivial, ?_, ?_⟩
  · have hframe : ProducerFrame queue rest held
        (queue.modify queue.tailBlock fun block => { block with tail := block.nextTail })
        rest held :=
      .modify rfl rfl
    refine ⟨rfl, hframe.front_eq, List.prefix_refl _, ?_, ?_⟩
    · by_cases heq : queue.frontBlock = queue.tailBlock
      · rw [heq, Function.update_self]
        exact List.prefix_append _ _
      · rw [Function.update_of_ne heq]
    · intro hrest
      exact Function.update_of_ne
        (fun heq => hrest (hlayout.tailBlock_eq_frontBlock_iff.mp heq.symm)) _ _
  · rintro status rfl
    exact .inr ⟨_, _, rfl, rfl, hlayout.elements_storeTail⟩

/-! ## Behind the tail block -/

theorem step_loadFrontBlock {block : Nat}
    (hlayout : queue.Layout capacity rest spare held (fun _ => []))
    (hvalid : (InsertPoint.loadFrontBlock block).Valid queue rest spare held element) :
    InsertPoint.Sound capacity allocFails queue rest spare held mode element allocates
      (.loadFrontBlock block) := by
  obtain ⟨rfl, htailFull⟩ := hvalid
  refine ⟨rest, spare, held, ?_⟩
  simp only [Producer.step]
  split
  next hnext =>
    have hspare : spare ≠ [] := by
      rwa [Ne, hlayout.next_tailBlock_eq_frontBlock_iff] at hnext
    exact ⟨hlayout, ⟨rfl, htailFull, hspare⟩, .refl _ _ _,
      .of_subset (fun _ hstatus => .inl hstatus) rfl⟩
  next hnext =>
    have hspare : spare = [] := by
      rwa [not_not, hlayout.next_tailBlock_eq_frontBlock_iff] at hnext
    cases mode with
    | canAlloc =>
        refine ⟨hlayout, ⟨rfl, htailFull⟩, .refl _ _ _, .of_subset ?_ rfl⟩
        rintro status (hpending | ⟨hfails, hrefused⟩)
        · exact .inl hpending
        · exact .inr ⟨hspare, fun _ => hfails, hrefused⟩
    | cannotAlloc =>
        refine ⟨hlayout, trivial, .refl _ _ _, .of_subset ?_ rfl⟩
        rintro status rfl
        exact .inr ⟨hspare, fun hmode => AllocationMode.noConfusion hmode, rfl⟩

/-- A block of two or more slots that is empty has room for one element. -/
theorem nextTail_ne_tail {block : Block α} {queued : List α} (hholds : block.Holds queued)
    (hsize : 1 < block.size) : block.nextTail ≠ block.tail := by
  rw [Block.nextTail, hholds.and_sizeMask, hholds.tail_eq, Nat.mod_add_mod]
  intro heq
  have hone : 1 = 0 := @eq_of_add_mod_eq (block.front + queued.length) _ _ _ hsize (by omega) heq
  cases hone

theorem step_loadNextFront {block : Nat}
    (hlayout : queue.Layout capacity rest spare held (fun _ => []))
    (hvalid : (InsertPoint.loadNextFront block).Valid queue rest spare held element) :
    InsertPoint.Sound capacity allocFails queue rest spare held mode element allocates
      (.loadNextFront block) := by
  obtain ⟨rfl, htailFull, hspare⟩ := hvalid
  refine ⟨rest, spare, held, ?_⟩
  obtain ⟨nextBlock, others, rfl⟩ := List.exists_cons_of_ne_nil hspare
  have hnext : (queue.blocks queue.tailBlock).next = nextBlock := hlayout.next_tailBlock
  have hholds := hlayout.holds nextBlock
    (Queue.Layout.mem_ring_of_spare queue rest List.mem_cons_self)
  have hempty : (queue.blocks nextBlock).front = (queue.blocks nextBlock).tail :=
    hholds.front_eq_tail_iff.mpr (hlayout.spare_eq nextBlock List.mem_cons_self)
  simp only [Producer.step, hnext, if_pos hempty]
  have hne : queue.tailBlock ≠ nextBlock := fun heq =>
    hlayout.tailBlock_not_mem_spare (heq ▸ List.mem_cons_self)
  refine ⟨hlayout.modify_same _ _ rfl rfl (fun _ hholds => hholds.loadFront), ⟨?_, rfl, ?_, ?_⟩,
    .modify rfl rfl, .of_subset subset_rfl rfl⟩
  · intro hrest
    rw [Queue.modify_tailBlock, queue.modify_blocks_of_ne hne]
    exact htailFull hrest
  · simp
  · simpa using hempty

theorem step_constructNext {block blockTail : Nat}
    (hlayout : queue.Layout capacity rest spare held (fun _ => []))
    (hvalid : (InsertPoint.constructNext block blockTail).Valid queue rest spare held element) :
    InsertPoint.Sound capacity allocFails queue rest spare held mode element allocates
      (.constructNext block blockTail) := by
  obtain ⟨htailFull, hspare, rfl, hlocal⟩ := hvalid
  refine ⟨rest, spare, held, ?_⟩
  dsimp only [Producer.step]
  have hne : queue.tailBlock ≠ block := fun heq =>
    hlayout.tailBlock_not_mem_spare (heq ▸ List.mem_of_mem_head? hspare)
  refine ⟨hlayout.modify_same _ _ rfl rfl (fun _ hholds => hholds.put_tail element),
    ⟨?_, hspare, ?_, ?_, ?_⟩, .modify rfl rfl, .of_subset subset_rfl rfl⟩
  · intro hrest
    rw [Queue.modify_tailBlock, queue.modify_blocks_of_ne hne]
    exact htailFull hrest
  · simp [Block.put]
  · simpa [Block.put] using hlocal
  · simp [Block.put]

theorem step_storeNextTail {block blockTail : Nat}
    (hlayout : queue.Layout capacity rest spare held (fun _ => []))
    (hvalid : (InsertPoint.storeNextTail block blockTail).Valid queue rest spare held element) :
    InsertPoint.Sound capacity allocFails queue rest spare held mode element allocates
      (.storeNextTail block blockTail) := by
  obtain ⟨htailFull, hspare, rfl, hlocal, hslot⟩ := hvalid
  have hmem := List.mem_of_mem_head? hspare
  have hring := Queue.Layout.mem_ring_of_spare queue rest hmem
  have hempty : held block = [] := hlayout.spare_eq block hmem
  have hholds := hlayout.holds block hring
  have hroom : (queue.blocks block).nextTail ≠ (queue.blocks block).localFront := by
    obtain ⟨m, hpos, -, hblocks, -⟩ := hlayout.reserves
    rw [hlocal]
    exact nextTail_ne_tail hholds (Nat.lt_of_le_of_lt hpos (hblocks block hring))
  have hne : queue.tailBlock ≠ block := fun heq => hlayout.tailBlock_not_mem_spare (heq ▸ hmem)
  have hne_front : queue.frontBlock ≠ block := fun heq =>
    hlayout.frontBlock_not_mem_spare (heq ▸ hmem)
  have hne_rest : block ∉ rest := by
    have hnodup := hlayout.nodup
    simp only [Queue.ring, List.nodup_cons] at hnodup
    exact fun hrest => List.disjoint_of_nodup_append hnodup.2 hrest hmem
  refine ⟨rest, spare, Function.update held block [element], ?_⟩
  dsimp only [Producer.step]
  refine ⟨hlayout.modify _ _ rfl rfl
      (fun other hother => Function.update_of_ne hother _ _) ?_ ?_ ?_ ?_,
    ⟨?_, hspare⟩, ⟨rfl, ?_, List.prefix_refl _, ?_, ?_⟩, .of_subset subset_rfl ?_⟩
  · intro _
    rw [Function.update_self]
    rw [hempty] at hholds
    exact hholds.storeTail hslot hroom
  · exact fun hfull => absurd (List.dropLast_subset _ hfull) hne_rest
  · exact fun hrest => absurd hrest hne_rest
  · intro b hb
    by_cases heq : b = block
    · simp [heq, Producer.entering]
    · rw [Function.update_of_ne heq]
      simpa [Producer.entering, heq] using hlayout.spare_eq b hb
  · intro hrest
    rw [Queue.modify_tailBlock, queue.modify_blocks_of_ne hne, Function.update_of_ne hne]
    exact htailFull hrest
  · have hframe : ProducerFrame queue rest held
        (queue.modify block fun block => { block with tail := block.nextTail }) rest held :=
      .modify rfl rfl
    exact hframe.front_eq
  · rw [Function.update_of_ne hne_front]
  · exact fun _ => Function.update_of_ne hne_front _ _
  · show (Function.update held block [element]) queue.frontBlock ++ _ = _
    rw [Function.update_of_ne hne_front, Queue.elements]
    congr 1
    refine List.flatMap_congr fun b hb => Function.update_of_ne ?_ _ _
    rintro rfl
    exact hne_rest hb

/-! ## A new block -/

theorem step_make {block : Nat} (hlayout : queue.Layout capacity rest spare held (fun _ => []))
    (hvalid : (InsertPoint.make block).Valid queue rest spare held element)
    (halloc : allocates = false → allocFails) :
    InsertPoint.Sound capacity allocFails queue rest spare held mode element allocates
      (.make block) := by
  obtain ⟨rfl, htailFull⟩ := hvalid
  refine ⟨rest, spare, held, ?_⟩
  obtain ⟨m, hpos, hlargest, -, -⟩ := hlayout.reserves
  cases allocates with
  | false =>
      refine ⟨hlayout, trivial, .refl _ _ _, .of_subset ?_ rfl⟩
      rintro status rfl
      exact .inr ⟨halloc rfl, rfl⟩
  | true =>
      simp only [Producer.step, if_true]
      generalize hsize : (if queue.largestBlockSize ≥ maxBlockSize.toNat then queue.largestBlockSize
        else queue.largestBlockSize * 2) = newBlockSize
      have hgrows : queue.largestBlockSize ≤ newBlockSize := by
        rw [← hsize]
        split <;> omega
      have hpow : ∃ k ≤ 64, newBlockSize = 2 ^ k := by
        obtain ⟨k, hle, hk⟩ := hlayout.largest_pow
        rw [← hsize, hk]
        split
        · exact ⟨k, hle, rfl⟩
        next hsmall =>
          have hk9 : k < 9 := (Nat.pow_lt_pow_iff_right (by decide : 1 < 2)).mp
            (Nat.lt_of_not_le hsmall)
          exact ⟨k + 1, by omega, (Nat.pow_succ 2 k).symm⟩
      have hfresh : queue.fresh ∉ queue.ring rest spare := fun hmem =>
        Nat.lt_irrefl _ (hlayout.allocated _ hmem)
      have hsame : ∀ (made : Block α), ∀ b ∈ queue.ring rest spare,
          Function.update queue.blocks queue.fresh made b = queue.blocks b := fun _ b hb =>
        Function.update_of_ne (fun heq : b = queue.fresh => hfresh (heq ▸ hb)) _ _
      refine ⟨hlayout.make _ hpow hgrows,
        ⟨rfl, ?_, hfresh, Nat.lt_succ_self _, ?_, ?_, ?_⟩,
        ⟨rfl, ?_, List.prefix_refl _, List.prefix_refl _, fun _ => rfl⟩,
        .of_subset (fun _ hstatus => .inl hstatus) rfl⟩
      · intro hrest
        show _ = (Function.update queue.blocks queue.fresh _ queue.tailBlock).size
        rw [hsame _ _ hlayout.tailBlock_mem]
        exact htailFull hrest
      · show (Function.update queue.blocks queue.fresh _ queue.fresh).Holds [element]
        rw [Function.update_self]
        exact makeBlock_put_holds hpow (by omega) _ element
      · show (Function.update queue.blocks queue.fresh _ queue.fresh).next =
          (Function.update queue.blocks queue.fresh _ queue.tailBlock).next
        rw [Function.update_self, hsame _ _ hlayout.tailBlock_mem]
        rfl
      · show (Function.update queue.blocks queue.fresh _ queue.fresh).size = newBlockSize
        rw [Function.update_self]
        exact (makeBlock_size (by omega) _ :
          (makeBlock newBlockSize (queue.blocks queue.tailBlock).next : Block α).size = _)
      · intro b hb
        have hring : b ∈ queue.ring rest spare := by
          rcases List.mem_cons.mp hb with rfl | hb
          · exact Queue.Layout.frontBlock_mem queue rest spare
          · exact Queue.Layout.mem_ring_of_rest queue spare hb
        show (Function.update queue.blocks queue.fresh _ b).front = _ ∧
          (Function.update queue.blocks queue.fresh _ b).localTail = _
        rw [hsame _ b hring]
        exact ⟨rfl, rfl⟩

theorem step_link {block newBlock : Nat}
    (hlayout : queue.Layout capacity rest spare held (fun _ => []))
    (hvalid : (InsertPoint.link block newBlock).Valid queue rest spare held element) :
    InsertPoint.Sound capacity allocFails queue rest spare held mode element allocates
      (.link block newBlock) := by
  obtain ⟨rfl, htailFull, hnew, hfresh, hholds, hnext, hsize⟩ := hvalid
  refine ⟨rest, newBlock :: spare, Function.update held newBlock [element], ?_⟩
  dsimp only [Producer.step]
  have hne : ∀ b ∈ queue.ring rest spare, b ≠ newBlock := fun b hb heq => hnew (heq ▸ hb)
  have hentering : ∀ b ∈ spare, (Producer.inside mode element
      (.storeTailBlock newBlock)).entering b = (fun _ => [] : Nat → List α) b := by
    intro b hb
    simp [Producer.entering, hne b (Queue.Layout.mem_ring_of_spare queue rest hb)]
  have hframe : ProducerFrame queue rest held
      (queue.modify queue.tailBlock fun block => { block with next := newBlock }) rest held :=
    .modify rfl rfl
  have hfront := hne _ (Queue.Layout.frontBlock_mem queue rest spare)
  refine ⟨hlayout.link hnew hfresh hholds hnext hsize (by simp [Producer.entering]) hentering,
    ⟨?_, rfl⟩, ⟨rfl, hframe.front_eq, List.prefix_refl _, ?_, ?_⟩, .of_subset subset_rfl ?_⟩
  · intro hrest
    rw [Queue.modify_tailBlock, Queue.modify_blocks_self,
      Function.update_of_ne (hne _ hlayout.tailBlock_mem)]
    exact htailFull hrest
  · rw [Function.update_of_ne hfront]
  · exact fun _ => Function.update_of_ne hfront _ _
  · exact Queue.Layout.elements_link hnew [element]

theorem step_storeTailBlock {block : Nat}
    (hlayout : queue.Layout capacity rest spare held
      (Producer.inside mode element (.storeTailBlock block)).entering)
    (hvalid : (InsertPoint.storeTailBlock block).Valid queue rest spare held element) :
    InsertPoint.Sound capacity allocFails queue rest spare held mode element allocates
      (.storeTailBlock block) := by
  obtain ⟨htailFull, hspare⟩ := hvalid
  cases spare with
  | nil => cases hspare
  | cons first others =>
      obtain rfl : first = block := Option.some.inj hspare
      have hentered : held first = [element] := by
        rw [hlayout.spare_eq first List.mem_cons_self]
        simp [Producer.entering]
      have hothers : ∀ b ∈ others, held b = [] := by
        intro b hb
        rw [hlayout.spare_eq b (List.mem_cons_of_mem _ hb)]
        have hnodup := hlayout.nodup
        simp only [Queue.ring, List.nodup_cons, List.nodup_append] at hnodup
        have hne : b ≠ first := fun heq => hnodup.2.2.1.1 (heq ▸ hb)
        simp [Producer.entering, hne]
      refine ⟨rest ++ [first], others, held, ?_⟩
      dsimp only [Producer.step]
      refine ⟨hlayout.storeTailBlock htailFull (by simp [hentered]) hothers, trivial,
        ⟨rfl, fun _ _ => ⟨rfl, rfl⟩, List.prefix_append _ _, List.prefix_refl _, fun _ => rfl⟩, ?_⟩
      rintro status rfl
      refine .inr ⟨_, _, rfl, rfl, ?_⟩
      have helements := Queue.Layout.elements_storeTailBlock queue rest held first
      rwa [hentered] at helements

theorem InsertPoint.Valid.sound {point : InsertPoint}
    (hvalid : point.Valid queue rest spare held element)
    (hlayout : queue.Layout capacity rest spare held (Producer.inside mode element point).entering)
    (halloc : allocates = false → allocFails) :
    point.Sound capacity allocFails queue rest spare held mode element allocates := by
  cases point with
  | start => exact step_start hlayout
  | loadFront block blockTail nextBlockTail => exact step_loadFront hlayout hvalid
  | construct block blockTail nextBlockTail => exact step_construct hlayout hvalid
  | storeTail block nextBlockTail => exact step_storeTail hlayout hvalid
  | loadFrontBlock block => exact step_loadFrontBlock hlayout hvalid
  | loadNextFront block => exact step_loadNextFront hlayout hvalid
  | constructNext block blockTail => exact step_constructNext hlayout hvalid
  | storeNextTail block blockTail => exact step_storeNextTail hlayout hvalid
  | make block => exact step_make hlayout hvalid halloc
  | link block newBlock => exact step_link hlayout hvalid
  | storeTailBlock block => exact step_storeTailBlock hlayout hvalid

end

end Libmoon.FastPipe
