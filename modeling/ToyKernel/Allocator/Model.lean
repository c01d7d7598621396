import ToyKernel.Library.Memory
import ToyKernel.Library.Result

/-!
The heap allocator of `utils/allocator.cpp` over raw byte memory. Sizes and
pointers are 32-bit values, so additions and subtractions wrap as `size_t` does;
every chunk starts with a packed header of a 31-bit size and a used bit.
-/

namespace ToyKernel

open Library

def wrap32 (value : Nat) : Nat := value % 4294967296

def sub32 (left right : Nat) : Nat := wrap32 (left + (4294967296 - wrap32 right))

def isPowerOf2 (value : Nat) : Bool := value ≠ 0 && (value &&& (value - 1)) == 0

namespace MallocHeader

def headerSize : Nat := 4

def size (memory : Memory) (chunk : Nat) : Nat := read32 memory chunk % 2147483648

def used (memory : Memory) (chunk : Nat) : Bool := read32 memory chunk / 2147483648 == 1

/-- Bit-field stores keep the other field of the header word. -/
def setSize (memory : Memory) (chunk value : Nat) : Memory :=
  write32 memory chunk (value % 2147483648 + 2147483648 * (used memory chunk).toNat)

def setUsed (memory : Memory) (chunk : Nat) (value : Bool) : Memory :=
  write32 memory chunk (size memory chunk + 2147483648 * value.toNat)

def fromPointer (pointer : Nat) : Nat := sub32 pointer headerSize

def offset (chunk bytes : Nat) : Nat := wrap32 (chunk + bytes)

def nextChunk (memory : Memory) (chunk : Nat) : Nat := offset chunk (size memory chunk)

end MallocHeader

def kMaxAlignment : Nat := 4

/-- The answer to the given call number, for an increment and a current heap top.
Zero is the null pointer, which reports that no space is left. -/
abbrev SbrkFunc := Nat → Nat → Nat → Nat

structure Allocator where
  memory : Memory
  heap : Nat
  heapUsed : Nat
  heapStart : Nat
  heapEnd : Nat
  sbrkCalls : Nat

namespace Allocator

inductive Fault
  | heapEndBelowStart | heapNotInitialized | invalidAlignment | sizeNotRounded
  | corruptedChunk | noMemory | heapDidNotIncrease | sbrkTooSmall | grownChunkUsed
  | chunkDoesNotEndAtHeap | chunkPastHeap | adjustTooSmall | zeroSizeChunk
  | chunkTooSmall | unalignedPointer | samePointer | notOnHeap | notAllocated
  | freedTooMuch | endlessWalk
deriving DecidableEq, Repr

open MallocHeader

def callSbrk (sbrk : SbrkFunc) (increment : Nat) (state : Allocator) : Allocator :=
  { state with
    heap := sbrk state.sbrkCalls increment state.heap
    sbrkCalls := state.sbrkCalls + 1 }

def initializeHeap (sbrk : SbrkFunc) (state : Allocator) : Except Fault Allocator := do
  require (state.heapEnd ≠ 0 → state.heapStart < state.heapEnd) .heapEndBelowStart
  let state := callSbrk sbrk 1 state
  require (state.heapStart < state.heap) .heapNotInitialized
  let memory := setUsed state.memory state.heapStart false
  let memory := setSize memory state.heapStart (sub32 state.heap state.heapStart)
  return { state with memory }

def init (sbrk : SbrkFunc) (memory : Memory) (heapStart heapEnd : Nat) : Except Fault Allocator :=
  initializeHeap sbrk
    { memory, heap := heapStart, heapUsed := 0, heapStart, heapEnd, sbrkCalls := 0 }

def roundSize (realsize alignment : Nat) : Nat :=
  if realsize % alignment ≠ 0 then wrap32 (realsize + (alignment - realsize % alignment))
  else realsize

/-- The distance by which the chunk has to move for its payload to be aligned,
when the chunk is free and can then still hold the requested size. -/
def canUseChunk (memory : Memory) (realsize alignment chunk : Nat) : Option Nat :=
  if used memory chunk then none
  else if size memory chunk < realsize then none
  else
    let address := wrap32 (chunk + headerSize)
    let adjust := (alignment - address % alignment) % alignment
    if adjust = 0 then some adjust
    else if size memory chunk < wrap32 (adjust + realsize) then none
    else some adjust

/-- One visit to the end of the heap: ask for more and give the space to the
chunk that starts at, or was already grown up to, the old top. -/
def growChunk (sbrk : SbrkFunc) (realsize chunk : Nat) (state : Allocator) :
    Except Fault Allocator := do
  let oldTop := state.heap
  let state := callSbrk sbrk realsize state
  require (state.heap ≠ 0) .noMemory
  require (oldTop < state.heap) .heapDidNotIncrease
  let increase := sub32 state.heap oldTop
  require (realsize ≤ increase) .sbrkTooSmall
  let memory ←
    if chunk = oldTop then
      pure (setUsed (setSize state.memory chunk increase) chunk false)
    else do
      let memory := setSize state.memory chunk (wrap32 (size state.memory chunk + increase))
      require (used memory chunk = false) .grownChunkUsed
      pure memory
  require (nextChunk memory chunk = state.heap) .chunkDoesNotEndAtHeap
  return { state with memory }

/-- The search loop of `Malloc`. The fuel bounds the number of visited chunks. -/
def findChunk (sbrk : SbrkFunc) (realsize alignment : Nat) :
    Nat → Nat → Bool → Allocator → Except Fault (Allocator × Nat × Nat)
  | 0, _, _, _ => .error .endlessWalk
  | fuel + 1, chunk, reachedHeapEnd, state =>
      match canUseChunk state.memory realsize alignment chunk with
      | some adjust => .ok (state, chunk, adjust)
      | none => do
          require (size state.memory chunk ≠ 0) .corruptedChunk
          let next := if reachedHeapEnd then chunk else nextChunk state.memory chunk
          if reachedHeapEnd = true ∨ next = state.heap then
            let grown ← growChunk sbrk realsize next state
            require (next ≤ grown.heap) .chunkPastHeap
            findChunk sbrk realsize alignment fuel next true grown
          else
            require (next ≤ state.heap) .chunkPastHeap
            findChunk sbrk realsize alignment fuel next false state

def splitFront (adjust chunk : Nat) (memory : Memory) : Except Fault (Memory × Nat) :=
  if adjust = 0 then pure (memory, chunk)
  else do
    require (headerSize ≤ adjust) .adjustTooSmall
    let other := offset chunk adjust
    let memory := setSize memory other (sub32 (size memory chunk) adjust)
    require (size memory other ≠ 0) .zeroSizeChunk
    let memory := setSize memory chunk adjust
    let memory := setUsed memory chunk false
    pure (memory, other)

def splitTail (realsize chunk : Nat) (memory : Memory) : Except Fault Memory :=
  if size memory chunk = realsize then pure (setUsed memory chunk true)
  else
    let next := offset chunk realsize
    if sub32 (size memory chunk) realsize < headerSize then pure (setUsed memory chunk true)
    else do
      let memory := setSize memory next (sub32 (size memory chunk) realsize)
      let memory := setUsed memory next false
      require (size memory next ≠ 0) .zeroSizeChunk
      let memory := setSize memory chunk realsize
      pure (setUsed memory chunk true)

def searchFuel (state : Allocator) : Nat := state.heap - state.heapStart + 3

def malloc (sbrk : SbrkFunc) (bytes alignment : Nat) (state : Allocator) :
    Except Fault (Allocator × Nat) := do
  require (alignment ≠ 0 ∧ isPowerOf2 alignment = true) .invalidAlignment
  if bytes = 0 then return (state, 0)
  let alignment := max alignment kMaxAlignment
  let realsize := roundSize (wrap32 (headerSize + bytes)) alignment
  require (realsize % alignment = 0) .sizeNotRounded
  let (state, chunk, adjust) ←
    findChunk sbrk realsize alignment state.searchFuel state.heapStart false state
  let (memory, chunk) ← splitFront adjust chunk state.memory
  require (realsize ≤ size memory chunk) .chunkTooSmall
  let memory ← splitTail realsize chunk memory
  let pointer := wrap32 (chunk + headerSize)
  require (pointer % alignment = 0) .unalignedPointer
  return ({ state with memory, heapUsed := wrap32 (state.heapUsed + size memory chunk) }, pointer)

def mergeFree (heap chunk : Nat) : Nat → Memory → Except Fault Memory
  | 0, _ => .error .endlessWalk
  | fuel + 1, memory =>
      let other := nextChunk memory chunk
      if other ≠ 0 ∧ other < heap ∧ used memory other = false then
        mergeFree heap chunk fuel
          (setSize memory chunk (wrap32 (size memory chunk + size memory other)))
      else pure memory

def free (pointer : Nat) (state : Allocator) : Except Fault Allocator :=
  if pointer = 0 then pure state
  else do
    let chunk := fromPointer pointer
    let memory := setUsed state.memory chunk false
    require (size memory chunk ≤ state.heapUsed) .freedTooMuch
    let heapUsed := sub32 state.heapUsed (size memory chunk)
    let memory ← mergeFree state.heap chunk state.searchFuel memory
    pure { state with memory, heapUsed }

def calloc (sbrk : SbrkFunc) (count bytes : Nat) (state : Allocator) :
    Except Fault (Allocator × Nat) := do
  let (state, pointer) ← malloc sbrk (wrap32 (count * bytes)) kMaxAlignment state
  return ({ state with memory := memset state.memory pointer 0 (wrap32 (count * bytes)) }, pointer)

def slowRealloc (sbrk : SbrkFunc) (pointer bytes : Nat) (state : Allocator) :
    Except Fault (Allocator × Nat) := do
  let oldsize := sub32 (size state.memory (fromPointer pointer)) headerSize
  let (state, newPointer) ← malloc sbrk bytes kMaxAlignment state
  require (newPointer ≠ pointer) .samePointer
  let copied := if bytes < oldsize then bytes else oldsize
  let state := { state with memory := memcpy state.memory newPointer pointer copied }
  let state ← free pointer state
  return (state, newPointer)

def realloc (sbrk : SbrkFunc) (pointer bytes : Nat) (state : Allocator) :
    Except Fault (Allocator × Nat) := do
  require (state.heapStart ≤ pointer) .notOnHeap
  require (state.heapEnd ≠ 0 → pointer < state.heapEnd) .notOnHeap
  if bytes = 0 then return (state, 0)
  let chunk := fromPointer pointer
  require (used state.memory chunk = true) .notAllocated
  let realsize := roundSize (wrap32 (bytes + headerSize)) kMaxAlignment
  require (realsize % kMaxAlignment = 0) .sizeNotRounded
  if size state.memory chunk = realsize then return (state, pointer)
  -- A remainder of exactly one header is not split off; it takes the slow path.
  if realsize < size state.memory chunk ∧
      wrap32 (realsize + headerSize) < size state.memory chunk then
    let other := offset chunk realsize
    let memory := setSize state.memory other (sub32 (size state.memory chunk) realsize)
    let memory := setUsed memory other false
    require (size memory other ≠ 0) .zeroSizeChunk
    let memory := setSize memory chunk realsize
    let heapUsed := sub32 state.heapUsed (size memory other)
    return ({ state with memory, heapUsed }, pointer)
  slowRealloc sbrk pointer bytes state

end Allocator

end ToyKernel
