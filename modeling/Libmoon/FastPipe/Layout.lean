import Libmoon.FastPipe.Blocks
import Libmoon.Foundation.LinkedRing

/-! # The ring of blocks

From the front block on, the ring goes through the blocks up to the tail block and
then through spare ones. The elements of the queue are those of the blocks from front
to tail, in this order. Blocks strictly between the two are full, no block behind the
front block is empty, and spare blocks are empty until the producer enters one.
-/

namespace Libmoon.FastPipe

open Foundation

variable {α : Type}

@[simp] theorem Queue.modify_blocks_self (queue : Queue α) (address : Nat)
    (write : Block α → Block α) :
    (queue.modify address write).blocks address = write (queue.blocks address) :=
  Function.update_self _ _ _

theorem Queue.modify_blocks_of_ne (queue : Queue α) {address other : Nat} (hne : other ≠ address)
    (write : Block α → Block α) :
    (queue.modify address write).blocks other = queue.blocks other :=
  Function.update_of_ne hne _ _

@[simp] theorem Queue.modify_frontBlock (queue : Queue α) (address : Nat)
    (write : Block α → Block α) : (queue.modify address write).frontBlock = queue.frontBlock := rfl

@[simp] theorem Queue.modify_tailBlock (queue : Queue α) (address : Nat)
    (write : Block α → Block α) : (queue.modify address write).tailBlock = queue.tailBlock := rfl

/-- The blocks, from the front block on. -/
def Queue.ring (queue : Queue α) (rest spare : List Nat) : List Nat :=
  queue.frontBlock :: (rest ++ spare)

/-- The elements of the front block and of the rest of the blocks up to the tail block. -/
def Queue.elements (queue : Queue α) (rest : List Nat) (held : Nat → List α) : List α :=
  held queue.frontBlock ++ rest.flatMap held

/-- Any `capacity` elements fit without an allocation: into one block, or into all
blocks but one. -/
def Queue.Reserves (queue : Queue α) (capacity : Nat) (blocks : List Nat) : Prop :=
  ∃ m, 1 ≤ m ∧ m < queue.largestBlockSize ∧ (∀ b ∈ blocks, m < (queue.blocks b).size) ∧
    (capacity ≤ m ∨ capacity ≤ (blocks.length - 1) * m)

structure Queue.Layout (queue : Queue α) (capacity : Nat) (rest spare : List Nat)
    (held entering : Nat → List α) : Prop where
  nodup : (queue.ring rest spare).Nodup
  linked : Linked (fun b => (queue.blocks b).next) (queue.ring rest spare)
  allocated : ∀ b ∈ queue.ring rest spare, b < queue.fresh
  tailBlock_eq : queue.tailBlock = rest.getLastD queue.frontBlock
  holds : ∀ b ∈ queue.ring rest spare, (queue.blocks b).Holds (held b)
  full : ∀ b ∈ rest.dropLast, (held b).length + 1 = (queue.blocks b).size
  nonempty : ∀ b ∈ rest, held b ≠ []
  spare_eq : ∀ b ∈ spare, held b = entering b
  largest_pow : ∃ k ≤ 64, queue.largestBlockSize = 2 ^ k
  reserves : queue.Reserves capacity (queue.ring rest spare)

namespace Queue.Layout

variable {queue : Queue α} {capacity : Nat} {rest spare : List Nat}
  {held entering : Nat → List α}

theorem frontBlock_mem (queue : Queue α) (rest spare : List Nat) :
    queue.frontBlock ∈ queue.ring rest spare := List.mem_cons_self

theorem mem_ring_of_rest (queue : Queue α) (spare : List Nat) {b : Nat} (hb : b ∈ rest) :
    b ∈ queue.ring rest spare :=
  List.mem_cons_of_mem _ (List.mem_append_left _ hb)

theorem mem_ring_of_spare (queue : Queue α) (rest : List Nat) {b : Nat} (hb : b ∈ spare) :
    b ∈ queue.ring rest spare :=
  List.mem_cons_of_mem _ (List.mem_append_right _ hb)

/-- The ring, cut open behind the tail block. -/
theorem split_tailBlock (hlayout : queue.Layout capacity rest spare held entering) :
    ∃ before, queue.frontBlock :: rest = before ++ [queue.tailBlock] := by
  rcases List.eq_nil_or_concat rest with rfl | ⟨middle, last, rfl⟩
  · exact ⟨[], by rw [hlayout.tailBlock_eq]; rfl⟩
  · exact ⟨queue.frontBlock :: middle, by rw [hlayout.tailBlock_eq]; simp⟩

theorem ring_eq {before : List Nat}
    (hsplit : queue.frontBlock :: rest = before ++ [queue.tailBlock]) :
    queue.ring rest spare = before ++ queue.tailBlock :: spare := by
  rw [Queue.ring, ← List.cons_append, hsplit, List.append_assoc]
  rfl

theorem tailBlock_mem (hlayout : queue.Layout capacity rest spare held entering) :
    queue.tailBlock ∈ queue.ring rest spare := by
  obtain ⟨before, hsplit⟩ := hlayout.split_tailBlock
  rw [ring_eq hsplit]
  simp

theorem tailBlock_eq_frontBlock_iff (hlayout : queue.Layout capacity rest spare held entering) :
    queue.tailBlock = queue.frontBlock ↔ rest = [] := by
  rcases List.eq_nil_or_concat rest with rfl | ⟨middle, last, rfl⟩
  · simp [hlayout.tailBlock_eq]
  · have hnodup := hlayout.nodup
    simp only [Queue.ring, List.nodup_cons, List.mem_append] at hnodup
    have hne : last ≠ queue.frontBlock := by
      rintro rfl
      exact hnodup.1 (.inl (by simp))
    simpa [hlayout.tailBlock_eq] using hne

theorem frontBlock_not_mem_rest (hlayout : queue.Layout capacity rest spare held entering) :
    queue.frontBlock ∉ rest :=
  fun hmem => (List.nodup_cons.mp hlayout.nodup).1 (List.mem_append_left _ hmem)

theorem frontBlock_not_mem_spare (hlayout : queue.Layout capacity rest spare held entering) :
    queue.frontBlock ∉ spare :=
  fun hmem => (List.nodup_cons.mp hlayout.nodup).1 (List.mem_append_right _ hmem)

theorem tailBlock_not_mem_spare (hlayout : queue.Layout capacity rest spare held entering) :
    queue.tailBlock ∉ spare := by
  obtain ⟨before, hsplit⟩ := hlayout.split_tailBlock
  have hnodup := hlayout.nodup
  rw [ring_eq hsplit] at hnodup
  exact (List.nodup_cons.mp (List.Nodup.of_append_right hnodup)).1

/-- The block behind the tail block is the first spare one. -/
theorem next_tailBlock (hlayout : queue.Layout capacity rest spare held entering) :
    (queue.blocks queue.tailBlock).next = spare.headD queue.frontBlock := by
  obtain ⟨before, hsplit⟩ := hlayout.split_tailBlock
  cases spare with
  | nil =>
      have hlast : ∀ hne, (queue.ring rest []).getLast hne = queue.tailBlock := by
        intro hne
        simp [ring_eq hsplit]
      rw [← hlast (by simp [Queue.ring])]
      exact hlayout.linked.next_last
  | cons nextBlock others =>
      have hlinked := hlayout.linked
      rw [ring_eq hsplit] at hlinked
      exact hlinked.next_eq

theorem next_tailBlock_eq_frontBlock_iff
    (hlayout : queue.Layout capacity rest spare held entering) :
    (queue.blocks queue.tailBlock).next = queue.frontBlock ↔ spare = [] := by
  rw [hlayout.next_tailBlock]
  cases spare with
  | nil => simp
  | cons nextBlock others =>
      have hne := hlayout.frontBlock_not_mem_spare
      simp only [List.mem_cons, not_or] at hne
      simpa using Ne.symm hne.1

theorem next_frontBlock {nextBlock : Nat} {others : List Nat}
    (hlayout : queue.Layout capacity (nextBlock :: others) spare held entering) :
    (queue.blocks queue.frontBlock).next = nextBlock :=
  @Linked.next_eq _ _ [] _ _ _ hlayout.linked

/-- The elements, with those of the tail block last. -/
theorem elements_eq {before : List Nat}
    (hsplit : queue.frontBlock :: rest = before ++ [queue.tailBlock]) :
    queue.elements rest held = before.flatMap held ++ held queue.tailBlock := by
  have hflat := congrArg (List.flatMap held) hsplit
  simpa [Queue.elements] using hflat

/-! ## Writes -/

/-- A write to one block that keeps its place in the ring and its size. -/
theorem modify {held' entering' : Nat → List α}
    (hlayout : queue.Layout capacity rest spare held entering) (address : Nat)
    (write : Block α → Block α)
    (hsize : (write (queue.blocks address)).size = (queue.blocks address).size)
    (hnext : (write (queue.blocks address)).next = (queue.blocks address).next)
    (hothers : ∀ other ≠ address, held' other = held other)
    (hholds : address ∈ queue.ring rest spare →
      (write (queue.blocks address)).Holds (held' address))
    (hfull : address ∈ rest.dropLast → held' address = held address)
    (hnonempty : address ∈ rest → held' address ≠ [])
    (hspare : ∀ b ∈ spare, held' b = entering' b) :
    (queue.modify address write).Layout capacity rest spare held' entering' := by
  have hsizes : ∀ b, ((queue.modify address write).blocks b).size = (queue.blocks b).size := by
    intro b
    by_cases heq : b = address
    · rw [heq, Queue.modify_blocks_self, hsize]
    · rw [queue.modify_blocks_of_ne heq]
  obtain ⟨m, hpos, hlargest, hblocks, hroom⟩ := hlayout.reserves
  refine ⟨hlayout.nodup, ?_, hlayout.allocated, hlayout.tailBlock_eq, ?_, ?_, ?_, hspare,
    hlayout.largest_pow, m, hpos, hlargest, ?_, hroom⟩
  · refine hlayout.linked.congr fun b _ => ?_
    by_cases heq : b = address
    · rw [heq, Queue.modify_blocks_self, hnext]
    · rw [queue.modify_blocks_of_ne heq]
  · intro b hb
    by_cases heq : b = address
    · subst heq
      rw [Queue.modify_blocks_self]
      exact hholds hb
    · rw [queue.modify_blocks_of_ne heq, hothers b heq]
      exact hlayout.holds b hb
  · intro b hb
    rw [hsizes]
    by_cases heq : b = address
    · subst heq
      rw [hfull hb]
      exact hlayout.full b hb
    · rw [hothers b heq]
      exact hlayout.full b hb
  · intro b hb
    by_cases heq : b = address
    · subst heq
      exact hnonempty hb
    · rw [hothers b heq]
      exact hlayout.nonempty b hb
  · intro b hb
    rw [hsizes]
    exact hblocks b hb

/-- A write that changes no block's elements. -/
theorem modify_same (hlayout : queue.Layout capacity rest spare held entering) (address : Nat)
    (write : Block α → Block α)
    (hsize : (write (queue.blocks address)).size = (queue.blocks address).size)
    (hnext : (write (queue.blocks address)).next = (queue.blocks address).next)
    (hholds : ∀ queued, (queue.blocks address).Holds queued →
      (write (queue.blocks address)).Holds queued) :
    (queue.modify address write).Layout capacity rest spare held entering :=
  hlayout.modify address write hsize hnext (fun _ _ => rfl)
    (fun hb => hholds _ (hlayout.holds address hb)) (fun _ => rfl)
    (hlayout.nonempty address) hlayout.spare_eq

/-- `tail` of the tail block moves on. -/
theorem storeTail {element : α} (hlayout : queue.Layout capacity rest spare held entering)
    (hslot : (queue.blocks queue.tailBlock).data (queue.blocks queue.tailBlock).tail = some element)
    (hroom : ((queue.blocks queue.tailBlock).tail + 1) &&& (queue.blocks queue.tailBlock).sizeMask ≠
      (queue.blocks queue.tailBlock).localFront) :
    (queue.modify queue.tailBlock fun block =>
        { block with tail := (block.tail + 1) &&& block.sizeMask }).Layout capacity rest spare
      (Function.update held queue.tailBlock (held queue.tailBlock ++ [element])) entering := by
  refine hlayout.modify _ _ rfl rfl (fun other hne => Function.update_of_ne hne _ _) ?_ ?_ ?_ ?_
  · intro hmem
    rw [Function.update_self]
    exact (hlayout.holds _ hmem).storeTail hslot hroom
  · intro hmem
    -- the tail block is the last one
    exfalso
    obtain ⟨before, hsplit⟩ := hlayout.split_tailBlock
    have hnodup := hlayout.nodup
    rw [ring_eq hsplit] at hnodup
    rcases List.eq_nil_or_concat rest with rfl | ⟨middle, last, rfl⟩
    · simp at hmem
    · rw [List.concat_eq_append, ← List.cons_append] at hsplit
      rw [← (List.append_inj' hsplit rfl).1] at hnodup
      have hdisjoint := List.disjoint_of_nodup_append hnodup
      rw [List.concat_eq_append, List.dropLast_concat] at hmem
      exact hdisjoint (List.mem_cons_of_mem _ hmem) List.mem_cons_self
  · intro _
    rw [Function.update_self]
    simp
  · intro b hb
    rw [Function.update_of_ne fun heq : b = queue.tailBlock =>
      hlayout.tailBlock_not_mem_spare (heq ▸ hb)]
    exact hlayout.spare_eq b hb

theorem elements_storeTail {element : α}
    (hlayout : queue.Layout capacity rest spare held entering) :
    queue.elements rest
        (Function.update held queue.tailBlock (held queue.tailBlock ++ [element])) =
      queue.elements rest held ++ [element] := by
  obtain ⟨before, hsplit⟩ := hlayout.split_tailBlock
  have hnodup := hlayout.nodup
  rw [ring_eq hsplit] at hnodup
  have hbefore : ∀ b ∈ before, b ≠ queue.tailBlock := by
    rintro b hb rfl
    exact List.disjoint_of_nodup_append hnodup hb List.mem_cons_self
  have hsame : before.flatMap
      (Function.update held queue.tailBlock (held queue.tailBlock ++ [element])) =
        before.flatMap held :=
    List.flatMap_congr fun b hb => Function.update_of_ne (hbefore b hb) _ _
  rw [elements_eq hsplit, elements_eq hsplit, hsame, Function.update_self, List.append_assoc]

/-- `front` of the front block moves on. -/
theorem storeFront {element : α} {others : List α}
    (hlayout : queue.Layout capacity rest spare held entering)
    (hfirst : held queue.frontBlock = element :: others)
    (hseen : (queue.blocks queue.frontBlock).front ≠ (queue.blocks queue.frontBlock).localTail) :
    (queue.modify queue.frontBlock fun block =>
        { block with front := (block.front + 1) &&& block.sizeMask }).Layout capacity rest spare
      (Function.update held queue.frontBlock others) entering := by
  refine hlayout.modify _ _ rfl rfl (fun other hne => Function.update_of_ne hne _ _) ?_ ?_ ?_ ?_
  · intro hmem
    rw [Function.update_self]
    have hholds := hlayout.holds _ hmem
    rw [hfirst] at hholds
    exact hholds.storeFront hseen
  · intro hmem
    exact absurd (List.dropLast_subset _ hmem) hlayout.frontBlock_not_mem_rest
  · exact fun hmem => absurd hmem hlayout.frontBlock_not_mem_rest
  · intro b hb
    rw [Function.update_of_ne fun heq : b = queue.frontBlock =>
      hlayout.frontBlock_not_mem_spare (heq ▸ hb)]
    exact hlayout.spare_eq b hb

theorem elements_storeFront {element : α} {others : List α}
    (hlayout : queue.Layout capacity rest spare held entering)
    (hfirst : held queue.frontBlock = element :: others) :
    queue.elements rest held =
      element :: queue.elements rest (Function.update held queue.frontBlock others) := by
  have hsame : rest.flatMap (Function.update held queue.frontBlock others) =
      rest.flatMap held := by
    refine List.flatMap_congr fun b hb => Function.update_of_ne ?_ _ _
    exact fun heq => hlayout.frontBlock_not_mem_rest (heq ▸ hb)
  simp only [Queue.elements, Function.update_self, hsame, hfirst, List.cons_append]

/-! ## Moving on to another block -/

/-- The consumer leaves an empty front block. -/
theorem storeFrontBlock {nextBlock : Nat} {others : List Nat}
    (hlayout : queue.Layout capacity (nextBlock :: others) spare held entering)
    (hempty : held queue.frontBlock = []) (hentering : entering queue.frontBlock = []) :
    ({ queue with frontBlock := nextBlock } : Queue α).Layout capacity others
      (spare ++ [queue.frontBlock]) held entering := by
  have hperm : (queue.ring (nextBlock :: others) spare).Perm
      (({ queue with frontBlock := nextBlock } : Queue α).ring others
        (spare ++ [queue.frontBlock])) := by
    show (queue.frontBlock :: (nextBlock :: others ++ spare)).Perm
      (nextBlock :: (others ++ (spare ++ [queue.frontBlock])))
    simpa using (List.perm_append_singleton queue.frontBlock (nextBlock :: others ++ spare)).symm
  obtain ⟨m, hpos, hlargest, hblocks, hroom⟩ := hlayout.reserves
  refine ⟨hperm.nodup_iff.mp hlayout.nodup, ?_, ?_, ?_, ?_, ?_, ?_, ?_, hlayout.largest_pow,
    m, hpos, hlargest, ?_, ?_⟩
  · have hrotated : Linked _ (nextBlock :: others ++ spare ++ [queue.frontBlock]) :=
      linked_append_comm.mp hlayout.linked
    simpa [Queue.ring] using hrotated
  · exact fun b hb => hlayout.allocated b (hperm.mem_iff.mpr hb)
  · rw [show ({ queue with frontBlock := nextBlock } : Queue α).tailBlock = queue.tailBlock
        from rfl, hlayout.tailBlock_eq, List.getLastD_cons]
  · exact fun b hb => hlayout.holds b (hperm.mem_iff.mpr hb)
  · intro b hb
    refine hlayout.full b ?_
    cases others with
    | nil => simp at hb
    | cons following others => exact List.mem_cons_of_mem _ hb
  · exact fun b hb => hlayout.nonempty b (List.mem_cons_of_mem _ hb)
  · intro b hb
    rcases List.mem_append.mp hb with hb | hb
    · exact hlayout.spare_eq b hb
    · rw [List.mem_singleton.mp hb, hempty, hentering]
  · exact fun b hb => hblocks b (hperm.mem_iff.mpr hb)
  · rw [← hperm.length_eq]
    exact hroom

theorem elements_storeFrontBlock {nextBlock : Nat} {others : List Nat}
    (hempty : held queue.frontBlock = []) :
    ({ queue with frontBlock := nextBlock } : Queue α).elements others held =
      queue.elements (nextBlock :: others) held := by
  simp [Queue.elements, hempty]

/-- The producer leaves a full tail block for the first spare one. -/
theorem storeTailBlock {nextBlock : Nat} {others : List Nat} {entering' : Nat → List α}
    (hlayout : queue.Layout capacity rest (nextBlock :: others) held entering)
    (hfull : rest ≠ [] →
      (held queue.tailBlock).length + 1 = (queue.blocks queue.tailBlock).size)
    (hentered : held nextBlock ≠ []) (hspare : ∀ b ∈ others, held b = entering' b) :
    ({ queue with tailBlock := nextBlock } : Queue α).Layout capacity (rest ++ [nextBlock]) others
      held entering' := by
  have hring : ({ queue with tailBlock := nextBlock } : Queue α).ring (rest ++ [nextBlock]) others =
      queue.ring rest (nextBlock :: others) := by
    simp [Queue.ring]
  refine ⟨hring ▸ hlayout.nodup, ?_, ?_, ?_, ?_, ?_, ?_, hspare, hlayout.largest_pow, ?_⟩
  · rw [hring]
    exact hlayout.linked
  · rw [hring]
    exact hlayout.allocated
  · simp
  · rw [hring]
    exact hlayout.holds
  · rw [List.dropLast_concat]
    intro b hb
    rcases List.eq_nil_or_concat rest with rfl | ⟨middle, last, rfl⟩
    · simp at hb
    · rw [List.concat_eq_append] at hb
      rcases List.mem_append.mp hb with hb | hb
      · exact hlayout.full b (by simpa using hb)
      · have hlast : queue.tailBlock = last := by simpa using hlayout.tailBlock_eq
        rw [List.mem_singleton.mp hb, ← hlast]
        exact hfull (by simp)
  · intro b hb
    rcases List.mem_append.mp hb with hb | hb
    · exact hlayout.nonempty b hb
    · rwa [List.mem_singleton.mp hb]
  · rw [hring]
    exact hlayout.reserves

theorem elements_storeTailBlock (queue : Queue α) (rest : List Nat) (held : Nat → List α)
    (nextBlock : Nat) :
    ({ queue with tailBlock := nextBlock } : Queue α).elements (rest ++ [nextBlock]) held =
      queue.elements rest held ++ held nextBlock := by
  simp [Queue.elements]

/-! ## New blocks -/

/-- A new block is not part of the ring yet. -/
theorem make (hlayout : queue.Layout capacity rest spare held entering) (made : Block α)
    {newBlockSize : Nat} (hpow : ∃ k ≤ 64, newBlockSize = 2 ^ k)
    (hsize : queue.largestBlockSize ≤ newBlockSize) :
    ({ queue with
        blocks := Function.update queue.blocks queue.fresh made
        fresh := queue.fresh + 1
        largestBlockSize := newBlockSize } : Queue α).Layout capacity rest spare held entering := by
  have hsame : ∀ b ∈ queue.ring rest spare,
      Function.update queue.blocks queue.fresh made b = queue.blocks b :=
    fun b hb => Function.update_of_ne (Nat.ne_of_lt (hlayout.allocated b hb)) _ _
  obtain ⟨m, hpos, hlargest, hblocks, hroom⟩ := hlayout.reserves
  refine ⟨hlayout.nodup, hlayout.linked.congr ?_, ?_, hlayout.tailBlock_eq, ?_, ?_,
    hlayout.nonempty, hlayout.spare_eq, hpow, m, hpos, Nat.lt_of_lt_of_le hlargest hsize, ?_, hroom⟩
  · exact fun b hb => congrArg Block.next (hsame b hb)
  · exact fun b hb => Nat.lt_succ_of_lt (hlayout.allocated b hb)
  · intro b hb
    show (Function.update queue.blocks queue.fresh made b).Holds _
    rw [hsame b hb]
    exact hlayout.holds b hb
  · intro b hb
    show _ = (Function.update queue.blocks queue.fresh made b).size
    rw [hsame b (mem_ring_of_rest queue spare (List.dropLast_subset _ hb))]
    exact hlayout.full b hb
  · intro b hb
    show m < (Function.update queue.blocks queue.fresh made b).size
    rw [hsame b hb]
    exact hblocks b hb

/-- A made block is put behind the tail block. -/
theorem link {newBlock : Nat} {entering' : Nat → List α} {queued : List α}
    (hlayout : queue.Layout capacity rest spare held entering)
    (hnew : newBlock ∉ queue.ring rest spare) (hfresh : newBlock < queue.fresh)
    (hholds : (queue.blocks newBlock).Holds queued)
    (hnext : (queue.blocks newBlock).next = (queue.blocks queue.tailBlock).next)
    (hsize : (queue.blocks newBlock).size = queue.largestBlockSize)
    (hentering : entering' newBlock = queued) (hspare : ∀ b ∈ spare, entering' b = entering b) :
    (queue.modify queue.tailBlock fun block => { block with next := newBlock }).Layout capacity rest
      (newBlock :: spare) (Function.update held newBlock queued) entering' := by
  obtain ⟨before, hsplit⟩ := hlayout.split_tailBlock
  have hring : (queue.modify queue.tailBlock fun block => { block with next := newBlock }).ring rest
      (newBlock :: spare) = before ++ queue.tailBlock :: newBlock :: spare :=
    @ring_eq _ queue _ _ _ hsplit
  have hperm : (before ++ queue.tailBlock :: newBlock :: spare).Perm
      (newBlock :: queue.ring rest spare) := by
    rw [ring_eq hsplit]
    simpa using (List.perm_middle :
      (before ++ [queue.tailBlock] ++ newBlock :: spare).Perm _)
  have hne_tail : newBlock ≠ queue.tailBlock := fun heq => hnew (heq ▸ hlayout.tailBlock_mem)
  have hsizes : ∀ b, ((queue.modify queue.tailBlock fun block =>
      { block with next := newBlock }).blocks b).size = (queue.blocks b).size := by
    intro b
    by_cases heq : b = queue.tailBlock
    · rw [heq, Queue.modify_blocks_self]
      rfl
    · rw [queue.modify_blocks_of_ne heq]
  have hheld : ∀ b ∈ queue.ring rest spare, Function.update held newBlock queued b = held b :=
    fun b hb => Function.update_of_ne (fun heq : b = newBlock => hnew (heq ▸ hb)) _ _
  obtain ⟨m, hpos, hlargest, hblocks, hroom⟩ := hlayout.reserves
  refine ⟨?_, ?_, ?_, hlayout.tailBlock_eq, ?_, ?_, ?_, ?_, hlayout.largest_pow,
    m, hpos, hlargest, ?_, ?_⟩
  · rw [hring, hperm.nodup_iff]
    exact List.nodup_cons.mpr ⟨hnew, hlayout.nodup⟩
  · rw [hring]
    have hlinked := hlayout.linked
    have hnodup := hlayout.nodup
    rw [ring_eq hsplit] at hlinked hnodup
    refine hlinked.insert (by simp) ?_ ?_
    · rw [queue.modify_blocks_of_ne hne_tail, hnext]
    · intro other hother
      have hne : other ≠ queue.tailBlock := by
        rintro rfl
        rw [List.nodup_middle] at hnodup
        exact (List.nodup_cons.mp hnodup).1 hother
      rw [queue.modify_blocks_of_ne hne]
  · rw [hring]
    intro b hb
    rcases List.mem_cons.mp (hperm.mem_iff.mp hb) with rfl | hb
    · exact hfresh
    · exact hlayout.allocated b hb
  · rw [hring]
    intro b hb
    rcases List.mem_cons.mp (hperm.mem_iff.mp hb) with rfl | hb
    · rw [queue.modify_blocks_of_ne hne_tail, Function.update_self]
      exact hholds
    · rw [hheld b hb]
      by_cases heq : b = queue.tailBlock
      · rw [heq, Queue.modify_blocks_self]
        exact (hlayout.holds _ hlayout.tailBlock_mem).withNext newBlock
      · rw [queue.modify_blocks_of_ne heq]
        exact hlayout.holds b hb
  · intro b hb
    rw [hsizes, hheld b (mem_ring_of_rest queue spare (List.dropLast_subset _ hb))]
    exact hlayout.full b hb
  · intro b hb
    rw [hheld b (mem_ring_of_rest queue spare hb)]
    exact hlayout.nonempty b hb
  · intro b hb
    rcases List.mem_cons.mp hb with rfl | hb
    · rw [Function.update_self, hentering]
    · rw [hheld b (mem_ring_of_spare queue rest hb), hspare b hb]
      exact hlayout.spare_eq b hb
  · rw [hring]
    intro b hb
    rw [hsizes]
    rcases List.mem_cons.mp (hperm.mem_iff.mp hb) with rfl | hb
    · rw [hsize]
      exact hlargest
    · exact hblocks b hb
  · rw [hring, hperm.length_eq, List.length_cons]
    refine hroom.imp_right fun hroom => hroom.trans ?_
    exact Nat.mul_le_mul_right m (by omega)

theorem elements_link {newBlock : Nat} (hnew : newBlock ∉ queue.ring rest spare)
    (queued : List α) :
    queue.elements rest (Function.update held newBlock queued) = queue.elements rest held := by
  have hheld : ∀ b ∈ queue.ring rest spare, Function.update held newBlock queued b = held b :=
    fun b hb => Function.update_of_ne (fun heq : b = newBlock => hnew (heq ▸ hb)) _ _
  rw [Queue.elements, Queue.elements, hheld _ (frontBlock_mem queue rest spare),
    List.flatMap_congr fun b hb => hheld b (mem_ring_of_rest queue spare hb)]

/-! ## Capacity -/

theorem length_flatMap_ge {blocks : List Nat} {m : Nat}
    (hheld : ∀ b ∈ blocks, m ≤ (held b).length) :
    blocks.length * m ≤ (blocks.flatMap held).length := by
  induction blocks with
  | nil => simp
  | cons b others ih =>
      have hfirst := hheld b List.mem_cons_self
      have hothers := ih fun other hother => hheld other (List.mem_cons_of_mem _ hother)
      rw [List.flatMap_cons, List.length_append, List.length_cons, Nat.succ_mul]
      omega

/-- Without a spare block and with a full tail block, the queue is full. -/
theorem capacity_le (hlayout : queue.Layout capacity rest [] held entering)
    (hfull : (held queue.tailBlock).length + 1 = (queue.blocks queue.tailBlock).size) :
    capacity ≤ (queue.elements rest held).length := by
  obtain ⟨m, -, -, hblocks, hroom⟩ := hlayout.reserves
  have hrest : ∀ b ∈ rest, m ≤ (held b).length := by
    intro b hb
    have hsize := hblocks b (mem_ring_of_rest queue [] hb)
    rcases List.eq_nil_or_concat rest with rfl | ⟨middle, last, rfl⟩
    · simp at hb
    · rw [List.concat_eq_append] at hb
      rcases List.mem_append.mp hb with hb | hb
      · have hmiddle := hlayout.full b (by simpa using hb)
        omega
      · have hlast : queue.tailBlock = last := by simpa using hlayout.tailBlock_eq
        rw [List.mem_singleton.mp hb, ← hlast] at hsize ⊢
        omega
  have hlength := length_flatMap_ge hrest
  have htail := hblocks _ hlayout.tailBlock_mem
  simp only [Queue.ring, List.append_nil, List.length_cons, Nat.add_sub_cancel] at hroom
  rw [Queue.elements, List.length_append]
  rcases Nat.eq_zero_or_pos rest.length with hempty | hsome
  · obtain rfl := List.length_eq_zero_iff.mp hempty
    have hfront : queue.tailBlock = queue.frontBlock := hlayout.tailBlock_eq
    rw [hfront] at hfull htail
    simp only [List.length_nil, Nat.zero_mul, Nat.le_zero] at hroom
    omega
  · have hone : m ≤ rest.length * m := Nat.le_mul_of_pos_left m hsome
    omega

end Queue.Layout

end Libmoon.FastPipe
