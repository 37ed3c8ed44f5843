import Libmoon.Foundation.Interleaving
import Libmoon.Foundation.Linearizability
import Mathlib.Logic.Function.Basic

/-! # The queue under a fast pipe

`ReaderWriterQueue` is a ring of blocks, each a circular buffer. The producer fills
the tail block and goes on to the next block, which it enters only if it is not the
front block; otherwise it may put a new block behind the tail block. The consumer
empties the front block and then goes on.

Between two points of a call lies at most one read of what the other side writes, or one
write of what it reads; what a side alone writes (`localTail`, `localFront`, its own index,
the slots it owns) is read along the way. Memory is sequentially consistent. A failed
assertion and a read of an empty slot end in `failed`.
-/

namespace Libmoon.FastPipe

open Foundation

variable {α : Type}

/-! ## Data -/

structure Block (α : Type) where
  front : Nat
  /-- The consumer's copy of `tail`. -/
  localTail : Nat
  tail : Nat
  /-- The producer's copy of `front`. -/
  localFront : Nat
  /-- The address of the next block. -/
  next : Nat
  data : Nat → Option α
  sizeMask : Nat

/-- `make_block`. Both callers set `next` right away. -/
def makeBlock (capacity next : Nat) : Block α where
  front := 0
  localTail := 0
  tail := 0
  localFront := 0
  next := next
  data := fun _ => none
  sizeMask := capacity - 1

structure Queue (α : Type) where
  blocks : Nat → Block α
  /-- The address that the next allocation returns. -/
  fresh : Nat
  frontBlock : Nat
  tailBlock : Nat
  largestBlockSize : Nat

/-- A write to one block. -/
def Queue.modify (queue : Queue α) (address : Nat) (write : Block α → Block α) : Queue α :=
  { queue with blocks := Function.update queue.blocks address (write (queue.blocks address)) }

def Block.put (block : Block α) (slot : Nat) (element : α) : Block α :=
  { block with data := Function.update block.data slot (some element) }

/-! ## Construction -/

def maxBlockSize : UInt64 := 512

/-- `x |= x >> shift`. -/
def orShifted (x shift : UInt64) : UInt64 :=
  x ||| (x >>> shift)

def ceilToPow2 (x : UInt64) : UInt64 :=
  let x := x - 1
  let x := orShifted x 1
  let x := orShifted x 2
  let x := orShifted x 4
  -- the loop shifts by `i << 3`, for i = 1, 2, 4
  let x := orShifted x 8
  let x := orShifted x 16
  let x := orShifted x 32
  x + 1

/-- The constructor's loop after `count` rounds: every new block points to the first. -/
def initialBlocks (size : Nat) : Nat → Nat → Block α
  | 0 => fun _ => makeBlock size 0
  | count + 1 =>
      let blocks := Function.update (initialBlocks size count) count (makeBlock size 0)
      if count = 0 then blocks
      else Function.update blocks (count - 1) { blocks (count - 1) with next := count }

/-- The number of blocks that are reserved, and their size. -/
def initialShape (maxSize : UInt64) : Nat × Nat :=
  let largestBlockSize := ceilToPow2 (maxSize + 1)
  if largestBlockSize > maxBlockSize * 2 then
    (((maxSize + maxBlockSize * 2 - 3) / (maxBlockSize - 1)).toNat, maxBlockSize.toNat)
  else
    (1, largestBlockSize.toNat)

def Queue.new (maxSize : UInt64) : Queue α where
  blocks := initialBlocks (initialShape maxSize).2 (initialShape maxSize).1
  fresh := (initialShape maxSize).1
  frontBlock := 0
  tailBlock := 0
  largestBlockSize := (initialShape maxSize).2

/-! ## The producer -/

inductive AllocationMode where
  | canAlloc
  | cannotAlloc
deriving DecidableEq

/-- Where `inner_enqueue` is. -/
inductive InsertPoint where
  | start
  | loadFront (block blockTail nextBlockTail : Nat)
  | construct (block blockTail nextBlockTail : Nat)
  | storeTail (block nextBlockTail : Nat)
  | loadFrontBlock (block : Nat)
  | loadNextFront (block : Nat)
  | constructNext (block blockTail : Nat)
  | storeNextTail (block blockTail : Nat)
  | make (block : Nat)
  | link (block newBlock : Nat)
  | storeTailBlock (block : Nat)

inductive Producer (α : Type) where
  | idle
  | inside (mode : AllocationMode) (element : α) (point : InsertPoint)
  | done (mode : AllocationMode) (element : α) (ok : Bool)
  | failed

/-- From one point of `inner_enqueue` to the next. `allocates` tells whether an
allocation in between succeeds. -/
def Producer.step (queue : Queue α) (mode : AllocationMode) (element : α) (allocates : Bool) :
    InsertPoint → Queue α × Producer α
  | .start =>
      let block := queue.blocks queue.tailBlock
      let nextBlockTail := (block.tail + 1) &&& block.sizeMask
      if nextBlockTail ≠ block.localFront then
        (queue, .inside mode element (.construct queue.tailBlock block.tail nextBlockTail))
      else
        (queue, .inside mode element (.loadFront queue.tailBlock block.tail nextBlockTail))
  | .loadFront block blockTail nextBlockTail =>
      let front := (queue.blocks block).front
      let queue := queue.modify block fun block => { block with localFront := front }
      if nextBlockTail ≠ front then
        (queue, .inside mode element (.construct block blockTail nextBlockTail))
      else
        (queue, .inside mode element (.loadFrontBlock block))
  | .construct block blockTail nextBlockTail =>
      (queue.modify block fun block => block.put blockTail element,
        .inside mode element (.storeTail block nextBlockTail))
  | .storeTail block nextBlockTail =>
      (queue.modify block fun block => { block with tail := nextBlockTail },
        .done mode element true)
  | .loadFrontBlock block =>
      if (queue.blocks block).next ≠ queue.frontBlock then
        (queue, .inside mode element (.loadNextFront block))
      else
        match mode with
        | .canAlloc => (queue, .inside mode element (.make block))
        | .cannotAlloc => (queue, .done mode element false)
  | .loadNextFront block =>
      let next := (queue.blocks block).next
      let nextBlockFront := (queue.blocks next).front
      let nextBlockTail := (queue.blocks next).tail
      let queue := queue.modify next fun block => { block with localFront := nextBlockFront }
      -- assert(nextBlockFront == nextBlockTail)
      if nextBlockFront = nextBlockTail then
        (queue, .inside mode element (.constructNext next nextBlockTail))
      else (queue, .failed)
  | .constructNext block blockTail =>
      (queue.modify block fun block => block.put blockTail element,
        .inside mode element (.storeNextTail block blockTail))
  | .storeNextTail block blockTail =>
      (queue.modify block fun block => { block with tail := (blockTail + 1) &&& block.sizeMask },
        .inside mode element (.storeTailBlock block))
  | .make block =>
      if allocates then
        let newBlockSize :=
          if queue.largestBlockSize ≥ maxBlockSize.toNat then queue.largestBlockSize
          else queue.largestBlockSize * 2
        let made := (makeBlock newBlockSize (queue.blocks block).next).put 0 element
        ({ queue with
            blocks :=
              Function.update queue.blocks queue.fresh { made with tail := 1, localTail := 1 }
            fresh := queue.fresh + 1
            largestBlockSize := newBlockSize },
          .inside mode element (.link block queue.fresh))
      else (queue, .done mode element false)
  | .link block newBlock =>
      (queue.modify block fun block => { block with next := newBlock },
        .inside mode element (.storeTailBlock newBlock))
  | .storeTailBlock block => ({ queue with tailBlock := block }, .done mode element true)

/-! ## The consumer -/

/-- Where `try_dequeue` is. -/
inductive RemovePoint (α : Type) where
  | start
  | loadTail (block blockFront : Nat)
  | loadTailBlock (block : Nat)
  | reloadTail
  | loadNext (block : Nat)
  | loadNextTail (nextBlock : Nat)
  | storeFrontBlock (nextBlock nextBlockFront : Nat)
  | move (block blockFront : Nat)
  | storeFront (block blockFront : Nat) (element : α)

inductive Consumer (α : Type) where
  | idle
  | inside (point : RemovePoint α)
  | done (result : Option α)
  | failed

/-- From one point of `try_dequeue` to the next. -/
def Consumer.step (queue : Queue α) : RemovePoint α → Queue α × Consumer α
  | .start =>
      let block := queue.blocks queue.frontBlock
      if block.front ≠ block.localTail then
        (queue, .inside (.move queue.frontBlock block.front))
      else
        (queue, .inside (.loadTail queue.frontBlock block.front))
  | .loadTail block blockFront =>
      let tail := (queue.blocks block).tail
      let queue := queue.modify block fun block => { block with localTail := tail }
      if blockFront ≠ tail then (queue, .inside (.move block blockFront))
      else (queue, .inside (.loadTailBlock block))
  | .loadTailBlock block =>
      if block ≠ queue.tailBlock then (queue, .inside .reloadTail)
      else (queue, .done none)
  | .reloadTail =>
      let block := queue.frontBlock
      let blockTail := (queue.blocks block).tail
      let blockFront := (queue.blocks block).front
      let queue := queue.modify block fun block => { block with localTail := blockTail }
      if blockFront ≠ blockTail then (queue, .inside (.move block blockFront))
      else (queue, .inside (.loadNext block))
  | .loadNext block => (queue, .inside (.loadNextTail (queue.blocks block).next))
  | .loadNextTail nextBlock =>
      let nextBlockFront := (queue.blocks nextBlock).front
      let nextBlockTail := (queue.blocks nextBlock).tail
      let queue := queue.modify nextBlock fun block => { block with localTail := nextBlockTail }
      -- assert(nextBlockFront != nextBlockTail)
      if nextBlockFront ≠ nextBlockTail then
        (queue, .inside (.storeFrontBlock nextBlock nextBlockFront))
      else (queue, .failed)
  | .storeFrontBlock nextBlock nextBlockFront =>
      ({ queue with frontBlock := nextBlock }, .inside (.move nextBlock nextBlockFront))
  | .move block blockFront =>
      match (queue.blocks block).data blockFront with
      | some element => (queue, .inside (.storeFront block blockFront element))
      | none => (queue, .failed)
  | .storeFront block blockFront element =>
      (queue.modify block fun block => { block with front := (blockFront + 1) &&& block.sizeMask },
        .done (some element))

/-! ## One producer and one consumer -/

inductive Side where
  | producer
  | consumer
deriving DecidableEq

inductive Op (α : Type) where
  | insert (mode : AllocationMode) (element : α)
  | tryDequeue

inductive Answer (α : Type) where
  | inserted (ok : Bool)
  | removed (result : Option α)

/-- The queue, where both sides are, and the calls and answers so far. -/
structure Spsc (α : Type) where
  queue : Queue α
  producer : Producer α
  consumer : Consumer α
  history : List (CallEvent Side (Op α) (Answer α))

def Spsc.new (maxSize : UInt64) : Spsc α where
  queue := .new maxSize
  producer := .idle
  consumer := .idle
  history := []

inductive Move (α : Type) where
  | insert (mode : AllocationMode) (element : α)
  | producer (allocates : Bool)
  | inserted
  | tryDequeue
  | consumer
  | dequeued

/-- A move that the side in question cannot make is `none`. -/
def spscNext (spsc : Spsc α) : Move α → Option (Spsc α)
  | .insert mode element =>
      match spsc.producer with
      | .idle =>
          some { spsc with
            producer := .inside mode element .start
            history := spsc.history ++ [.call .producer (.insert mode element)] }
      | _ => none
  | .producer allocates =>
      match spsc.producer with
      | .inside mode element point =>
          let stepped := Producer.step spsc.queue mode element allocates point
          some { spsc with queue := stepped.1, producer := stepped.2 }
      | _ => none
  | .inserted =>
      match spsc.producer with
      | .done mode element ok =>
          some { spsc with
            producer := .idle
            history := spsc.history ++ [.answer .producer (.insert mode element) (.inserted ok)] }
      | _ => none
  | .tryDequeue =>
      match spsc.consumer with
      | .idle =>
          some { spsc with
            consumer := .inside .start
            history := spsc.history ++ [.call .consumer .tryDequeue] }
      | _ => none
  | .consumer =>
      match spsc.consumer with
      | .inside point =>
          let stepped := Consumer.step spsc.queue point
          some { spsc with queue := stepped.1, consumer := stepped.2 }
      | _ => none
  | .dequeued =>
      match spsc.consumer with
      | .done result =>
          some { spsc with
            consumer := .idle
            history := spsc.history ++ [.answer .consumer .tryDequeue (.removed result)] }
      | _ => none

/-! ## What the queue is for -/

/-- A list to which one side appends and from whose front the other takes. Only a
full one refuses an element, unless the list may grow: then only if `allocates` fails. -/
def fifo (capacity : Nat) (allocFails : Prop) : AtomicObject (List α) (Op α) (Answer α) where
  effect queued op answer queued' :=
    match op, answer with
    | .insert _ element, .inserted true => queued' = queued ++ [element]
    | .insert mode _, .inserted false =>
        queued' = queued ∧ capacity ≤ queued.length ∧ (mode = .canAlloc → allocFails)
    | .tryDequeue, .removed (some element) => queued = element :: queued'
    | .tryDequeue, .removed none => queued = [] ∧ queued' = []
    | _, _ => False

end Libmoon.FastPipe
