import Libmoon.FastPipe.ConsumerSteps

/-! # Every history of a fast pipe's queue is that of a list

The accesses of the two sides interleave arbitrarily. What one side relies on survives
the accesses of the other, so the steps compose: every history is one of a list to
which the producer appends and from which the consumer takes.
-/

namespace Libmoon.FastPipe

open Foundation

variable {α : Type} {queue queue' : Queue α} {rest rest' spare spare' : List Nat}
  {held held' : Nat → List α}

/-! ## Interference -/

theorem Consumer.Valid.of_frame {consumer : Consumer α}
    (hframe : ProducerFrame queue rest held queue' rest' held')
    (hvalid : consumer.Valid queue rest held) : consumer.Valid queue' rest' held' := by
  have hfront := hframe.front_eq queue.frontBlock List.mem_cons_self
  have hhead : ∀ b, rest.head? = some b → rest'.head? = some b := by
    intro b hb
    obtain ⟨added, rfl⟩ := hframe.rest_initial
    rw [List.head?_append, hb]
    rfl
  rcases consumer with _ | point | _ | _
  · trivial
  · cases point with
    | start => trivial
    | loadTail block blockFront =>
        obtain ⟨rfl, rfl⟩ := hvalid
        exact ⟨hframe.frontBlock_eq.symm, by rw [hframe.frontBlock_eq, hfront.1]⟩
    | loadTailBlock block => exact (show block = _ from hvalid).trans hframe.frontBlock_eq.symm
    | reloadTail =>
        obtain ⟨added, rfl⟩ := hframe.rest_initial
        exact List.append_ne_nil_of_left_ne_nil hvalid added
    | loadNext block =>
        obtain ⟨rfl, hrest, hempty⟩ := hvalid
        obtain ⟨added, hrest'⟩ := hframe.rest_initial
        refine ⟨hframe.frontBlock_eq.symm, ?_, ?_⟩
        · rw [← hrest']
          exact List.append_ne_nil_of_left_ne_nil hrest added
        · rw [hframe.frontBlock_eq, hframe.held_fixed hrest, hempty]
    | loadNextTail nextBlock =>
        obtain ⟨hrest, hempty⟩ := hvalid
        refine ⟨hhead _ hrest, ?_⟩
        rw [hframe.frontBlock_eq, hframe.held_fixed (by rintro rfl; cases hrest), hempty]
    | storeFrontBlock nextBlock nextBlockFront =>
        obtain ⟨hrest, hempty, rfl, hseen⟩ := hvalid
        have hnext := hframe.front_eq nextBlock
          (List.mem_cons_of_mem _ (List.mem_of_mem_head? hrest))
        refine ⟨hhead _ hrest, ?_, hnext.1.symm, ?_⟩
        · rw [hframe.frontBlock_eq, hframe.held_fixed (by rintro rfl; cases hrest), hempty]
        · rwa [hnext.2]
    | move block blockFront =>
        obtain ⟨rfl, rfl, hseen⟩ := hvalid
        refine ⟨hframe.frontBlock_eq.symm, ?_, ?_⟩
        · rw [hframe.frontBlock_eq, hfront.1]
        · rwa [hframe.frontBlock_eq, hfront.2]
    | storeFront block blockFront element =>
        obtain ⟨rfl, rfl, hseen, hfirst⟩ := hvalid
        refine ⟨hframe.frontBlock_eq.symm, ?_, ?_, ?_⟩
        · rw [hframe.frontBlock_eq, hfront.1]
        · rwa [hframe.frontBlock_eq, hfront.2]
        · obtain ⟨added, hheld⟩ := hframe.held_initial
          rw [hframe.frontBlock_eq, ← hheld, List.head?_append, hfirst]
          rfl
  · trivial
  · exact hvalid

theorem Consumer.possible_subset (consumer : Consumer α) (hinitial : rest <+: rest') :
    consumer.possible rest' ⊆ consumer.possible rest := by
  rcases consumer with _ | point | _ | _
  · exact subset_rfl
  · cases point with
    | loadTailBlock block =>
        rintro status (hpending | ⟨rfl, hnone⟩)
        · exact .inl hpending
        · exact .inr ⟨List.prefix_nil.mp hinitial, hnone⟩
    | _ => exact subset_rfl
  · exact subset_rfl
  · exact subset_rfl

theorem Queue.TailFull.of_frame
    (hframe : ConsumerFrame queue rest spare held queue' rest' spare' held')
    (hfull : queue.TailFull rest held) : queue'.TailFull rest' held' := by
  intro hrest
  obtain ⟨hbefore, hheld⟩ := hframe.tail_held hrest
  obtain ⟨front, localTail, hblock⟩ := hframe.blocks_eq queue.tailBlock
  rw [hframe.tailBlock_eq, hheld, hblock]
  exact hfull hbefore

theorem Producer.Valid.of_frame {producer : Producer α}
    (hframe : ConsumerFrame queue rest spare held queue' rest' spare' held')
    (hvalid : producer.Valid queue rest spare held) :
    producer.Valid queue' rest' spare' held' := by
  have htail := hframe.tailBlock_eq
  have hhead : ∀ b, spare.head? = some b → spare'.head? = some b := by
    intro b hb
    obtain ⟨added, rfl⟩ := hframe.spare_initial
    rw [List.head?_append, hb]
    rfl
  rcases producer with _ | ⟨mode, element, point⟩ | _ | _
  · trivial
  · cases point with
    | start => trivial
    | loadFront block blockTail nextBlockTail =>
        obtain ⟨front, localTail, hblock⟩ := hframe.blocks_eq block
        obtain ⟨rfl, rfl, rfl⟩ := hvalid
        exact ⟨htail.symm, by rw [hblock], by rw [hblock]; rfl⟩
    | construct block blockTail nextBlockTail =>
        obtain ⟨front, localTail, hblock⟩ := hframe.blocks_eq block
        obtain ⟨rfl, rfl, rfl, hroom⟩ := hvalid
        exact ⟨htail.symm, by rw [hblock], by rw [hblock]; rfl, by rw [hblock]; exact hroom⟩
    | storeTail block nextBlockTail =>
        obtain ⟨front, localTail, hblock⟩ := hframe.blocks_eq block
        obtain ⟨rfl, rfl, hroom, hslot⟩ := hvalid
        exact ⟨htail.symm, by rw [hblock]; rfl, by rw [hblock]; exact hroom,
          by rw [hblock]; exact hslot⟩
    | loadFrontBlock block => exact ⟨hvalid.1.trans htail.symm, hvalid.2.of_frame hframe⟩
    | loadNextFront block =>
        obtain ⟨rfl, hfull, hspare⟩ := hvalid
        obtain ⟨added, hspare'⟩ := hframe.spare_initial
        refine ⟨htail.symm, hfull.of_frame hframe, ?_⟩
        rw [← hspare']
        exact List.append_ne_nil_of_left_ne_nil hspare added
    | constructNext block blockTail =>
        obtain ⟨front, localTail, hblock⟩ := hframe.blocks_eq block
        obtain ⟨hfull, hspare, rfl, hlocal⟩ := hvalid
        exact ⟨hfull.of_frame hframe, hhead _ hspare, by rw [hblock], by rw [hblock]; exact hlocal⟩
    | storeNextTail block blockTail =>
        obtain ⟨front, localTail, hblock⟩ := hframe.blocks_eq block
        obtain ⟨hfull, hspare, rfl, hlocal, hslot⟩ := hvalid
        exact ⟨hfull.of_frame hframe, hhead _ hspare, by rw [hblock], by rw [hblock]; exact hlocal,
          by rw [hblock]; exact hslot⟩
    | make block => exact ⟨hvalid.1.trans htail.symm, hvalid.2.of_frame hframe⟩
    | link block newBlock =>
        obtain ⟨rfl, hfull, hnew, hfresh, hholds, hnext, hsize⟩ := hvalid
        have hblock := hframe.outside_eq newBlock hnew
        obtain ⟨front, localTail, htailBlock⟩ := hframe.blocks_eq queue.tailBlock
        refine ⟨htail.symm, hfull.of_frame hframe, fun hmem => hnew (hframe.ring_eq _ hmem), ?_,
          ?_, ?_, ?_⟩
        · rwa [hframe.fresh_eq]
        · rwa [hblock]
        · rw [hblock, htail, htailBlock]
          exact hnext
        · rw [hblock, hframe.largest_eq]
          exact hsize
    | storeTailBlock block => exact ⟨hvalid.1.of_frame hframe, hhead _ hvalid.2⟩
  · trivial
  · exact hvalid

theorem Producer.possible_subset (producer : Producer α) (allocFails : Prop)
    (hinitial : spare <+: spare') :
    producer.possible allocFails spare' ⊆ producer.possible allocFails spare := by
  rcases producer with _ | ⟨mode, element, point⟩ | _ | _
  · exact subset_rfl
  · cases point with
    | loadFrontBlock block =>
        rintro status (hpending | ⟨rfl, hrefused⟩)
        · exact .inl hpending
        · exact .inr ⟨List.prefix_nil.mp hinitial, hrefused⟩
    | _ => exact subset_rfl
  · exact subset_rfl
  · exact subset_rfl

/-! ## All interleavings -/

def Spsc.possible (allocFails : Prop) (spsc : Spsc α) (rest spare : List Nat) :
    Side → Set (CallStatus (Op α) (Answer α))
  | .producer => spsc.producer.possible allocFails spare
  | .consumer => spsc.consumer.possible rest

/-- A layout describes the queue, both sides can rely on what they read, and the
history so far is explained. -/
structure Spsc.SoundWith (capacity : Nat) (allocFails : Prop) (spsc : Spsc α)
    (rest spare : List Nat) (held : Nat → List α) : Prop where
  layout : spsc.queue.Layout capacity rest spare held spsc.producer.entering
  producer : spsc.producer.Valid spsc.queue rest spare held
  consumer : spsc.consumer.Valid spsc.queue rest held
  explained : Explained (fifo capacity allocFails) [] spsc.history
    (spsc.queue.elements rest held) (spsc.possible allocFails rest spare)

def Spsc.Sound (capacity : Nat) (allocFails : Prop) (spsc : Spsc α) : Prop :=
  ∃ rest spare held, spsc.SoundWith capacity allocFails rest spare held

section

variable {capacity : Nat} {allocFails : Prop} {spsc spsc' : Spsc α}

theorem other_of_ne_producer {other : Side} (hne : other ≠ .producer) : other = .consumer := by
  cases other
  · exact absurd rfl hne
  · rfl

theorem other_of_ne_consumer {other : Side} (hne : other ≠ .consumer) : other = .producer := by
  cases other
  · rfl
  · exact absurd rfl hne

theorem Producer.possible_nonempty {producer : Producer α} (allocFails : Prop)
    (hvalid : producer.Valid queue rest spare held) :
    (producer.possible allocFails spare).Nonempty := by
  rcases producer with _ | ⟨mode, element, point⟩ | ⟨mode, element, ok⟩ | _
  · exact ⟨_, rfl⟩
  · refine ⟨.pending (.insert mode element), ?_⟩
    cases point with
    | loadFrontBlock block => exact .inl rfl
    | make block => exact .inl rfl
    | _ => rfl
  · exact ⟨_, rfl⟩
  · exact absurd hvalid not_false

theorem Consumer.possible_nonempty {consumer : Consumer α}
    (hvalid : consumer.Valid queue rest held) : (consumer.possible rest).Nonempty := by
  rcases consumer with _ | point | result | _
  · exact ⟨_, rfl⟩
  · refine ⟨.pending .tryDequeue, ?_⟩
    cases point with
    | loadTailBlock block => exact .inl rfl
    | _ => rfl
  · exact ⟨_, rfl⟩
  · exact absurd hvalid not_false

/-- The producer keeps no spare block back as the front block. -/
theorem entering_frontBlock {producer : Producer α}
    (hlayout : queue.Layout capacity rest spare held producer.entering)
    (hvalid : producer.Valid queue rest spare held) :
    producer.entering queue.frontBlock = [] := by
  rcases producer with _ | ⟨mode, element, point⟩ | _ | _
  · rfl
  · cases point with
    | storeTailBlock block =>
        have hne : queue.frontBlock ≠ block := fun heq =>
          hlayout.frontBlock_not_mem_spare (heq ▸ List.mem_of_mem_head? hvalid.2)
        simp [Producer.entering, hne]
    | _ => rfl
  · rfl
  · rfl

theorem spscNext_sound {move : Move α} (hsound : spsc.Sound capacity allocFails)
    (halloc : move = .producer false → allocFails) (hnext : spscNext spsc move = some spsc') :
    spsc'.Sound capacity allocFails := by
  obtain ⟨rest, spare, held, hlayout, hproducer, hconsumer, hexplained⟩ := hsound
  obtain ⟨queue, producer, consumer, history⟩ := spsc
  cases move with
  | insert mode element =>
      cases producer <;> cases hnext
      refine ⟨rest, spare, held, hlayout, trivial, hconsumer,
        hexplained.call .producer ?_ (Set.mem_singleton _) subset_rfl⟩
      intro other hother
      obtain rfl := other_of_ne_producer hother
      exact subset_rfl
  | producer allocates =>
      cases producer <;> cases hnext
      obtain ⟨rest', spare', held', hstep⟩ := InsertPoint.Valid.sound hproducer hlayout
        (fun hfalse : allocates = false => halloc (by rw [hfalse]))
      refine ⟨rest', spare', held', hstep.layout, hstep.valid, hconsumer.of_frame hstep.frame,
        hexplained.step .producer ?_ hstep.explained⟩
      intro other hother
      obtain rfl := other_of_ne_producer hother
      exact Consumer.possible_subset _ hstep.frame.rest_initial
  | inserted =>
      cases producer <;> cases hnext
      refine ⟨rest, spare, held, hlayout, trivial, hconsumer,
        hexplained.answer .producer ?_ (Set.mem_singleton _) subset_rfl⟩
      intro other hother
      obtain rfl := other_of_ne_producer hother
      exact subset_rfl
  | tryDequeue =>
      cases consumer <;> cases hnext
      refine ⟨rest, spare, held, hlayout, hproducer, trivial,
        hexplained.call .consumer ?_ (Set.mem_singleton _) subset_rfl⟩
      intro other hother
      obtain rfl := other_of_ne_consumer hother
      exact subset_rfl
  | consumer =>
      cases consumer <;> cases hnext
      obtain ⟨rest', spare', held', hstep⟩ :=
        hconsumer.sound allocFails hlayout (entering_frontBlock hlayout hproducer)
      refine ⟨rest', spare', held', hstep.layout, hproducer.of_frame hstep.frame, hstep.valid,
        hexplained.step .consumer ?_ hstep.explained⟩
      intro other hother
      obtain rfl := other_of_ne_consumer hother
      exact Producer.possible_subset _ _ hstep.frame.spare_initial
  | dequeued =>
      cases consumer <;> cases hnext
      refine ⟨rest, spare, held, hlayout, hproducer, trivial,
        hexplained.answer .consumer ?_ (Set.mem_singleton _) subset_rfl⟩
      intro other hother
      obtain rfl := other_of_ne_consumer hother
      exact subset_rfl

theorem Spsc.Sound.linearizable (hsound : spsc.Sound capacity allocFails) :
    Linearizable (fifo capacity allocFails) [] spsc.history := by
  obtain ⟨rest, spare, held, -, hproducer, hconsumer, hexplained⟩ := hsound
  refine hexplained.linearizable fun side => ?_
  cases side with
  | producer => exact Producer.possible_nonempty allocFails hproducer
  | consumer => exact Consumer.possible_nonempty hconsumer

end

end Libmoon.FastPipe
