import ToyKernel.Allocator.Resize

/-!
The user heap of `libc/umalloc.cpp` as its clients see it: where it lies, what each call gives and
takes, and that the blocks of the others stay as they are.
-/

namespace ToyKernel

open Library MallocHeader

namespace Allocator

def userRuns (heapBottom heapTop : Nat) : System Session Operation where
  initial session := session.live = [] ∧
    ∃ memory, Allocator.init (usbrk heapTop) memory heapBottom heapTop = .ok session.allocator
  step := (Session.runs (usbrk heapTop) heapBottom).step

/-- Where `pre_main` puts the heap: one page that starts behind the program. -/
structure UserSpace (heapBottom heapTop : Nat) : Prop where
  aligned : 4 ∣ heapBottom
  ordered : heapBottom < heapTop
  top : heapTop < 4294967296
  onePage : heapTop ≤ heapBottom + 4194304

section Limits

variable {sbrk : SbrkFunc} {realsize alignment : Nat} {state : Allocator} {heapBottom heapTop : Nat}
  {session : Session}

theorem usbrk_le (call increment heap : Nat) : usbrk heapTop call increment heap ≤ heapTop := by
  have rounded : ∀ chunks, usbrkChunk heapTop chunks heap ≤ heapTop := by
    intro chunks
    unfold usbrkChunk
    dsimp only
    split
    · assumption
    · exact Nat.zero_le _
  rcases Nat.eq_zero_or_pos increment with rfl | positive
  · exact Nat.zero_le _
  · obtain ⟨chunks, _, _, same⟩ := usbrk_rounds heapTop call heap positive
    rw [same]
    exact rounded chunks

theorem growChunk_end (chunk : Nat) (state : Allocator) :
    Returns (growChunk sbrk realsize chunk state) (fun _ => True) fun grown => grown.heapEnd = state.heapEnd := by
  unfold growChunk
  refine returns_require_or trivial fun _ => returns_require_or trivial fun _ =>
    returns_require_or trivial fun _ => ?_
  have finished : ∀ memory, Returns (do
      require (nextChunk memory chunk = (callSbrk sbrk realsize state).heap) .chunkDoesNotEndAtHeap
      pure { callSbrk sbrk realsize state with memory })
      (fun _ : Fault => True) fun grown => grown.heapEnd = state.heapEnd := by
    intro memory
    refine returns_require_or trivial fun _ => ?_
    exact returns_pure.mpr rfl
  dsimp only
  split
  · exact finished _
  · refine returns_require_or trivial fun _ => ?_
    exact finished _

theorem findChunk_end (fuel chunk : Nat) (reachedHeapEnd : Bool) (state : Allocator) :
    Returns (findChunk sbrk realsize alignment fuel chunk reachedHeapEnd state) (fun _ => True)
      fun result => result.1.heapEnd = state.heapEnd := by
  induction fuel generalizing chunk reachedHeapEnd state with
  | zero => exact returns_error.mpr trivial
  | succ fuel ih =>
      rw [findChunk]
      cases canUseChunk state.memory realsize alignment chunk with
      | some adjust => exact returns_ok.mpr rfl
      | none =>
          refine returns_require_or trivial fun _ => ?_
          dsimp only
          generalize (if reachedHeapEnd = true then chunk else nextChunk state.memory chunk) = next
          by_cases atTop : reachedHeapEnd = true ∨ next = state.heap
          · rw [if_pos atTop]
            refine (growChunk_end next state).bind fun grown same => ?_
            refine returns_require_or trivial fun _ => ?_
            exact (ih next true grown).mono fun _ later => later.trans same
          · rw [if_neg atTop]
            refine returns_require_or trivial fun _ => ?_
            exact ih next false state

theorem malloc_end (bytes alignment : Nat) (state : Allocator) :
    Returns (malloc sbrk bytes alignment state) (fun _ => True) fun result =>
      result.1.heapEnd = state.heapEnd := by
  unfold malloc
  refine returns_require_or trivial fun _ => ?_
  split
  · exact returns_pure.mpr rfl
  · refine returns_require_or trivial fun _ => ?_
    refine (findChunk_end _ _ _ state).bind ?_
    rintro ⟨found, chunk, adjust⟩ same
    refine (returns_any _).bind ?_
    rintro ⟨memory, address⟩ _
    refine returns_require_or trivial fun _ => ?_
    refine (returns_any _).bind fun final _ => ?_
    refine returns_require_or trivial fun _ => ?_
    exact returns_pure.mpr same

theorem free_end (pointer : Nat) (state : Allocator) :
    Returns (free pointer state) (fun _ => True) fun new => new.heapEnd = state.heapEnd := by
  unfold free
  split
  · exact returns_pure.mpr rfl
  · refine returns_require_or trivial fun _ => ?_
    refine (returns_any _).bind fun memory _ => ?_
    exact returns_pure.mpr rfl

theorem realloc_end (pointer bytes : Nat) (state : Allocator) :
    Returns (realloc sbrk pointer bytes state) (fun _ => True) fun result =>
      result.1.heapEnd = state.heapEnd := by
  unfold realloc
  refine returns_require_or trivial fun _ => returns_require_or trivial fun _ => ?_
  split
  · exact returns_pure.mpr rfl
  · refine returns_require_or trivial fun _ => returns_require_or trivial fun _ => ?_
    split
    · exact returns_pure.mpr rfl
    · split
      · refine returns_require_or trivial fun _ => ?_
        exact returns_pure.mpr rfl
      · unfold slowRealloc
        refine (malloc_end bytes kMaxAlignment state).bind ?_
        rintro ⟨middle, newPointer⟩ same
        refine returns_require_or trivial fun _ => ?_
        refine (free_end pointer _).bind fun new later => ?_
        exact returns_pure.mpr (later.trans same)

theorem perform_end {operation : Operation} {after : Session}
    (performed : session.perform sbrk operation = .ok after) :
    after.allocator.heapEnd = session.allocator.heapEnd := by
  cases operation with
  | malloc bytes alignment =>
      simp only [Session.perform, bind_eq_ok, pure_eq_ok] at performed
      obtain ⟨_, run, rfl⟩ := performed
      exact (malloc_end bytes alignment _).of_ok run
  | calloc count bytes =>
      simp only [Session.perform, calloc, bind_eq_ok, pure_eq_ok] at performed
      obtain ⟨_, ⟨_, run, rfl⟩, rfl⟩ := performed
      exact (malloc_end _ _ _).of_ok run
  | realloc pointer bytes =>
      simp only [Session.perform, bind_eq_ok] at performed
      obtain ⟨result, run, performed⟩ := performed
      have same := (realloc_end pointer bytes _).of_ok run
      split at performed
      · cases performed
        exact same
      · split at performed
        · cases performed
          exact same
        · cases performed
          exact same
  | free pointer =>
      simp only [Session.perform, bind_eq_ok, pure_eq_ok] at performed
      obtain ⟨_, run, rfl⟩ := performed
      exact (free_end pointer _).of_ok run
  | write pointer offset byte =>
      cases performed
      rfl

theorem userRuns_runs (reachable : (userRuns heapBottom heapTop).Reachable session) :
    (Session.runs (usbrk heapTop) heapBottom).Reachable session := by
  refine reachable.mono ?_ fun _ _ _ stepped => stepped
  rintro start ⟨empty, memory, initialized⟩
  exact ⟨empty, memory, heapTop, initialized⟩

/-- The heap keeps its end, and never grows beyond it. -/
theorem userRuns_within (reachable : (userRuns heapBottom heapTop).Reachable session) :
    session.allocator.heapEnd = heapTop ∧ session.allocator.heap ≤ heapTop := by
  refine ⟨?_, ?_⟩
  · refine reachable.invariant (fun session => session.allocator.heapEnd = heapTop) ?_ ?_
    · rintro ⟨allocator, live⟩ ⟨_, memory, initialized⟩
      simp only [init, initializeHeap, bind_eq_ok, pure_eq_ok] at initialized
      obtain ⟨_, _, _, _, rfl⟩ := initialized
      rfl
    · rintro before operation after same ⟨_, performed⟩
      exact (perform_end performed).trans same
  · obtain ⟨call, increment, heap, top⟩ := heap_answered (userRuns_runs reachable)
    rw [top]
    exact usbrk_le call increment heap

end Limits

structure Keeps (session after : Session) (pointer : Nat) : Prop where
  isLive : pointer ∈ after.pointers
  size : payloadSize after.allocator.memory pointer = payloadSize session.allocator.memory pointer
  bytes : ∀ offset < payloadSize session.allocator.memory pointer,
    after.allocator.memory (pointer + offset) = session.allocator.memory (pointer + offset)

def Among (pointers : List Nat) (operation : Operation) : Prop :=
  ∀ pointer, operation.given = some pointer → pointer ∈ pointers

structure Fresh (session after : Session) (pointer size : Nat) : Prop where
  live : ∃ block, block.pointer = pointer ∧ after.live = block :: session.live
  fresh : pointer ∉ session.pointers
  room : size ≤ payloadSize after.allocator.memory pointer

def Session.withMemory (session : Session) (memory : Memory) : Session :=
  ⟨{ session.allocator with memory }, session.live⟩

def Confined (old new : Memory) (start count : Nat) : Prop :=
  ∀ address, address < start ∨ start + count ≤ address → new address = old address

def spliced (old new : Memory) (start count : Nat) : Memory := fun address =>
  if start ≤ address ∧ address < start + count then new address else old address

section Memories

variable {old new : Memory} {start count more : Nat}

theorem spliced_zero : spliced old new start 0 = old := by
  funext address
  rw [spliced, if_neg (by omega)]

theorem spliced_succ : spliced old new start (count + 1) =
    store (spliced old new start count) (start + count) (new (start + count)) := by
  funext address
  rw [spliced, store, spliced]
  by_cases last : address = start + count
  · rw [if_pos last, if_pos (by omega), last]
  · rw [if_neg last]
    exact if_congr (by omega) rfl rfl

theorem spliced_confined (old new : Memory) (start : Nat) (fits : count ≤ more) :
    Confined old (spliced old new start count) start more := by
  intro address outside
  rw [spliced, if_neg (by omega)]

theorem spliced_confines (confined : Confined old new start count) : spliced old new start count = new := by
  funext address
  rw [spliced]
  by_cases inside : start ≤ address ∧ address < start + count
  · rw [if_pos inside]
  · rw [if_neg inside, confined address (by omega)]

end Memories

section Blocks

variable {sbrk : SbrkFunc} {heapStart : Nat} {session middle after : Session} {chunks chunks' : List Chunk}
  {chunk : Chunk} {operation : Operation} {pointer other : Nat} {memory : Memory}

theorem Keeps.trans (first : Keeps session middle pointer) (second : Keeps middle after pointer) :
    Keeps session after pointer := by
  refine ⟨second.isLive, second.size.trans first.size, fun offset inside => ?_⟩
  rw [second.bytes offset (by rw [first.size]; exact inside), first.bytes offset inside]

theorem payloadSize_chunk (consistent : Consistent heapStart session chunks)
    (member : chunk ∈ usedChunks chunks) :
    payloadSize session.allocator.memory (payload chunk) = chunk.size - headerSize := by
  have inChunks := (mem_usedChunks.mp member).1
  rw [payloadSize, payload, fromPointer_eq (chunk_pointer_lt consistent.tiled inChunks),
    (consistent.tiled.headers chunk inChunks).size]

theorem Consistent.placed (consistent : Consistent heapStart session chunks) (isLive : pointer ∈ session.pointers) :
    ∃ chunk ∈ usedChunks chunks, payload chunk = pointer ∧
      payloadSize session.allocator.memory pointer = chunk.size - headerSize ∧ headerSize ≤ chunk.size := by
  obtain ⟨chunk, member, rfl⟩ := List.mem_map.mp (consistent.matched.pointers.mem_iff.mp isLive)
  exact ⟨chunk, member, rfl, payloadSize_chunk consistent member,
    consistent.tiled.size_ge (mem_usedChunks.mp member).1⟩

theorem Consistent.isLive (consistent : Consistent heapStart session chunks) (member : chunk ∈ usedChunks chunks) :
    payload chunk ∈ session.pointers :=
  consistent.matched.pointers.mem_iff.mpr (List.mem_map_of_mem member)

/-- The payloads of two live blocks share no byte. -/
theorem Consistent.payloads_apart (consistent : Consistent heapStart session chunks)
    (isLive : pointer ∈ session.pointers) (otherLive : other ∈ session.pointers) (different : pointer ≠ other) :
    pointer + payloadSize session.allocator.memory pointer ≤ other ∨
      other + payloadSize session.allocator.memory other ≤ pointer := by
  obtain ⟨first, firstUsed, rfl, firstSize, firstLarge⟩ := consistent.placed isLive
  obtain ⟨second, secondUsed, rfl, secondSize, secondLarge⟩ := consistent.placed otherLive
  have apart := consistent.tiled.tiles.apart (mem_usedChunks.mp firstUsed).1 (mem_usedChunks.mp secondUsed).1 (by
    rintro rfl
    exact different rfl)
  rw [firstSize, secondSize]
  simp only [payload, headerSize, Segment.stop] at apart firstLarge secondLarge ⊢
  omega

theorem given_of_released (released : operation.released = some pointer) : operation.given = some pointer := by
  cases operation with
  | realloc => exact released
  | free => exact released
  | malloc => cases released
  | calloc => cases released
  | write => cases released

theorem Effect.keeps (consistent : Consistent heapStart session chunks)
    (later : Consistent heapStart after chunks') (effect : Effect session after operation chunks chunks')
    (isLive : pointer ∈ session.pointers) (spared : operation.given ≠ some pointer) :
    Keeps session after pointer := by
  obtain ⟨chunk, member, rfl, size, large⟩ := consistent.placed isLive
  have stays := effect.kept chunk member fun released => spared (given_of_released released)
  refine ⟨later.isLive stays, (payloadSize_chunk later stays).trans size.symm, fun offset inside => ?_⟩
  rw [size] at inside
  refine effect.bytes chunk member spared _ ?_ ?_
  · simp only [payload]
    omega
  · simp only [payload, Segment.stop, headerSize] at inside ⊢
    omega

/-- The allocator counts the payloads of the live blocks and a header for each. -/
theorem Consistent.heapUsed_eq (consistent : Consistent heapStart session chunks) :
    session.allocator.heapUsed = (session.pointers.map fun pointer =>
      payloadSize session.allocator.memory pointer + headerSize).sum := by
  have blocks := consistent.matched.pointers.map fun pointer =>
    payloadSize session.allocator.memory pointer + headerSize
  rw [Session.pointers, blocks.sum_eq, consistent.tiled.accounted, totalSize, List.map_map]
  congr 1
  refine List.map_congr_left fun chunk member => ?_
  have large := consistent.tiled.size_ge (mem_usedChunks.mp member).1
  rw [Function.comp_apply, payloadSize_chunk consistent member]
  simp only [headerSize]
  omega

theorem within_keeps {pointers : List Nat} (contract : SbrkContract sbrk heapStart) (aligned : 4 ∣ heapStart)
    (startBound : heapStart < 4294967296) (reachable : (Session.runs sbrk heapStart).Reachable session)
    (within : (Session.runs sbrk heapStart).Within (Among pointers) session after)
    (isLive : pointer ∈ session.pointers) (other : pointer ∉ pointers) : Keeps session after pointer := by
  have kept := within.preserves
    (fun state => (Session.runs sbrk heapStart).Reachable state ∧ Keeps session state pointer) ?_
    ⟨reachable, isLive, rfl, fun _ _ => rfl⟩
  · exact kept.2
  · rintro state operation next among ⟨there, keeps⟩ stepped
    obtain ⟨chunks, consistent⟩ := reachable_consistent contract aligned startBound there
    obtain ⟨chunks', later, effect⟩ := consistent.step contract stepped
    exact ⟨there.next stepped, keeps.trans (effect.keeps consistent later keeps.isLive
      fun given => other (among pointer given))⟩

theorem within_reachable {Allowed : Operation → Prop} {system : System Session Operation}
    (within : system.Within Allowed session after) (reachable : system.Reachable session) :
    system.Reachable after :=
  within.preserves (fun state => system.Reachable state) (fun _ _ _ _ there stepped => there.next stepped) reachable

theorem within_userRuns {heapBottom heapTop : Nat} {Allowed : Operation → Prop}
    (within : (Session.runs (usbrk heapTop) heapBottom).Within Allowed session after)
    (reachable : (userRuns heapBottom heapTop).Reachable session) : (userRuns heapBottom heapTop).Reachable after :=
  within.preserves (fun state => (userRuns heapBottom heapTop).Reachable state)
    (fun _ _ _ _ there stepped => there.next stepped) reachable

theorem Consistent.withMemory (consistent : Consistent heapStart session chunks)
    (isLive : pointer ∈ session.pointers) (confined : Confined session.allocator.memory memory pointer
      (payloadSize session.allocator.memory pointer)) :
    Consistent heapStart (session.withMemory memory) chunks := by
  obtain ⟨chunk, member, rfl, size, large⟩ := consistent.placed isLive
  rw [size] at confined
  refine ⟨?_, consistent.nonempty, consistent.start, consistent.matched⟩
  refine consistent.tiled.writePayload (mem_usedChunks.mp member).1 (fun address _ below => ?_) fun address above _ => ?_
  · exact confined address (.inl below)
  · refine confined address (.inr ?_)
    simp only [payload, Segment.stop, headerSize] at above large ⊢
    omega

theorem payloadSize_withMemory (consistent : Consistent heapStart session chunks)
    (later : Consistent heapStart (session.withMemory memory) chunks) (isLive : other ∈ session.pointers) :
    payloadSize memory other = payloadSize session.allocator.memory other := by
  obtain ⟨chunk, member, rfl, size, _⟩ := consistent.placed isLive
  exact (payloadSize_chunk later member).trans size.symm

/-- Whatever was written into a payload, it was written byte by byte. -/
theorem withMemory_within (contract : SbrkContract sbrk heapStart) (aligned : 4 ∣ heapStart)
    (startBound : heapStart < 4294967296) (reachable : (Session.runs sbrk heapStart).Reachable session)
    (isLive : pointer ∈ session.pointers) (confined : Confined session.allocator.memory memory pointer
      (payloadSize session.allocator.memory pointer)) :
    (Session.runs sbrk heapStart).Within (Among [pointer]) session (session.withMemory memory) := by
  obtain ⟨chunks, consistent⟩ := reachable_consistent contract aligned startBound reachable
  have front : ∀ count ≤ payloadSize session.allocator.memory pointer,
      (Session.runs sbrk heapStart).Within (Among [pointer]) session
        (session.withMemory (spliced session.allocator.memory memory pointer count)) := by
    intro count
    induction count with
    | zero =>
        intro _
        rw [spliced_zero]
        exact .refl session
    | succ count ih =>
        intro inside
        have middle := consistent.withMemory isLive
          (spliced_confined session.allocator.memory memory pointer (Nat.le_of_succ_le inside))
        have size := payloadSize_withMemory consistent middle isLive
        have stepped : (Session.runs sbrk heapStart).step
            (session.withMemory (spliced session.allocator.memory memory pointer count))
            (.write pointer count (memory (pointer + count)))
            (session.withMemory (spliced session.allocator.memory memory pointer (count + 1))) := by
          refine ⟨⟨isLive, Nat.lt_of_lt_of_eq inside size.symm⟩, ?_⟩
          rw [spliced_succ]
          rfl
        refine (ih (Nat.le_of_succ_le inside)).trans (.single ?_ stepped)
        rintro _ ⟨⟩
        exact List.mem_singleton_self _
  have all := front _ (Nat.le_refl _)
  rwa [spliced_confines confined] at all

end Blocks

section Space

variable {heapBottom heapTop : Nat} {session after : Session} {pointer : Nat}

theorem UserSpace.contract (space : UserSpace heapBottom heapTop) : SbrkContract (usbrk heapTop) heapBottom :=
  usbrk_contract (by have := space.onePage; omega)

theorem UserSpace.start (space : UserSpace heapBottom heapTop) : heapBottom < 4294967296 :=
  Nat.lt_trans space.ordered space.top

theorem UserSpace.consistent (space : UserSpace heapBottom heapTop)
    (reachable : (userRuns heapBottom heapTop).Reachable session) : ∃ chunks, Consistent heapBottom session chunks :=
  reachable_consistent space.contract space.aligned space.start (userRuns_runs reachable)

theorem UserSpace.keeps (space : UserSpace heapBottom heapTop)
    (reachable : (userRuns heapBottom heapTop).Reachable session) {pointers : List Nat}
    (within : (Session.runs (usbrk heapTop) heapBottom).Within (Among pointers) session after)
    (isLive : pointer ∈ session.pointers) (other : pointer ∉ pointers) : Keeps session after pointer :=
  within_keeps space.contract space.aligned space.start (userRuns_runs reachable) within isLive other

/-- A block is smaller than the page that the heap is in. -/
theorem UserSpace.payloadSize_lt (space : UserSpace heapBottom heapTop)
    (reachable : (userRuns heapBottom heapTop).Reachable session) (isLive : pointer ∈ session.pointers) :
    payloadSize session.allocator.memory pointer < 4194304 := by
  obtain ⟨chunks, consistent⟩ := space.consistent reachable
  obtain ⟨chunk, member, rfl, size, _⟩ := consistent.placed isLive
  obtain ⟨lower, positive, upper⟩ := consistent.tiled.tiles.bounds (mem_usedChunks.mp member).1
  have start := consistent.start
  have top := (userRuns_within reachable).2
  have page := space.onePage
  simp only [Segment.stop] at upper
  rw [size, headerSize]
  omega

end Space

section Calls

variable {sbrk : SbrkFunc} {heapStart : Nat} {session : Session} {chunks chunks' : List Chunk} {block : Chunk}
  {new : Allocator} {pointer bytes : Nat}

theorem Allocated.nonnull {alignment : Nat}
    (allocated : Allocated session.allocator chunks bytes alignment new pointer chunks' block) : pointer ≠ 0 := by
  rw [allocated.address, headerSize]
  omega

theorem Allocated.isFresh (consistent : Consistent heapStart session chunks)
    (allocated : Allocated session.allocator chunks bytes kMaxAlignment new pointer chunks' block) :
    Fresh session ⟨new, Session.addBlock session.live pointer kMaxAlignment bytes⟩ pointer bytes := by
  have later := (consistent.allocate allocated : _ ∧ Effect session _ (.free 0) chunks chunks').1
  have grown : Session.addBlock session.live pointer kMaxAlignment bytes =
      ⟨pointer, kMaxAlignment, bytes⟩ :: session.live := if_neg allocated.nonnull
  rw [grown] at later ⊢
  have distinct := later.matched.pointers.nodup_iff.mpr later.distinct
  refine ⟨⟨_, rfl, rfl⟩, (List.nodup_cons.mp distinct).1, ?_⟩
  have listed : block ∈ usedChunks chunks' := allocated.added.mem_iff.mpr List.mem_cons_self
  have size := payloadSize_chunk later listed
  have padded := paddedSize_ge bytes kMaxAlignment (by decide)
  have address : pointer = payload block := allocated.address
  rw [address]
  refine Nat.le_trans ?_ (Nat.le_of_eq size.symm)
  rw [allocated.size]
  omega

theorem malloc_fresh (contract : SbrkContract sbrk heapStart) (aligned : 4 ∣ heapStart)
    (startBound : heapStart < 4294967296) (reachable : (Session.runs sbrk heapStart).Reachable session)
    (positive : bytes ≠ 0) (small : paddedSize bytes kMaxAlignment < 2147483648) :
    Returns (session.allocator.malloc sbrk bytes kMaxAlignment) NoSpace fun result =>
      ∃ after : Session, after.allocator = result.1 ∧
        (Session.runs sbrk heapStart).Within (Among []) session after ∧ Fresh session after result.2 bytes := by
  obtain ⟨chunks, consistent⟩ := reachable_consistent contract aligned startBound reachable
  have spec := malloc_spec (by rw [consistent.start]; exact contract) consistent.tiled consistent.nonempty positive
    (show isPowerOf2 kMaxAlignment = true by decide) small
  cases run : session.allocator.malloc sbrk bytes kMaxAlignment with
  | error fault => exact returns_error.mpr (spec.of_error run)
  | ok result =>
      obtain ⟨chunks', block, allocated⟩ := spec.of_ok run
      have stepped : (Session.runs sbrk heapStart).step session (.malloc bytes kMaxAlignment)
          ⟨result.1, Session.addBlock session.live result.2 kMaxAlignment bytes⟩ := by
        refine ⟨⟨by decide, small⟩, ?_⟩
        rw [Session.perform, run]
        rfl
      refine returns_ok.mpr ⟨_, rfl, .single ?_ stepped, Allocated.isFresh consistent allocated⟩
      rintro _ ⟨⟩

theorem calloc_fresh (contract : SbrkContract sbrk heapStart) (aligned : 4 ∣ heapStart)
    (startBound : heapStart < 4294967296) (reachable : (Session.runs sbrk heapStart).Reachable session)
    (positive : bytes ≠ 0) (small : paddedSize bytes kMaxAlignment < 2147483648) :
    Returns (session.allocator.calloc sbrk bytes 1) NoSpace fun result =>
      ∃ after : Session, after.allocator = result.1 ∧
        (Session.runs sbrk heapStart).Within (Among []) session after ∧ Fresh session after result.2 bytes ∧
        ∀ offset < bytes, result.1.memory (result.2 + offset) = 0 := by
  obtain ⟨chunks, consistent⟩ := reachable_consistent contract aligned startBound reachable
  have padded := paddedSize_ge bytes kMaxAlignment (by decide)
  have spec := (calloc_zeroes (by rw [consistent.start]; exact contract) consistent.tiled consistent.nonempty
    (show wrap32 (bytes * 1) = bytes by rw [Nat.mul_one]; exact wrap32_of_lt (by omega)) positive small).weaken
    fun _ failed => failed.1.noSpace
  cases run : session.allocator.calloc sbrk bytes 1 with
  | error fault => exact returns_error.mpr (spec.of_error run)
  | ok result =>
      obtain ⟨chunks', block, allocated, zeroes⟩ := spec.of_ok run
      have stepped : (Session.runs sbrk heapStart).step session (.calloc bytes 1)
          ⟨result.1, Session.addBlock session.live result.2 kMaxAlignment bytes⟩ := by
        refine ⟨?_, ?_⟩
        · show paddedSize (bytes * 1) kMaxAlignment < 2147483648
          rw [Nat.mul_one]
          exact small
        · rw [Session.perform, run, Nat.mul_one]
          rfl
      refine returns_ok.mpr ⟨_, rfl, .single ?_ stepped, Allocated.isFresh consistent allocated, zeroes⟩
      rintro _ ⟨⟩

theorem removeBlock_pointers (live : List Block) (pointer : Nat) :
    (Session.removeBlock live pointer).map Block.pointer =
      (live.map Block.pointer).filter fun other => other ≠ pointer := by
  rw [List.filter_map]
  rfl

theorem removeBlock_cons {live : List Block} {last : Block} (absent : last.pointer ∉ live.map Block.pointer) :
    Session.removeBlock (last :: live) last.pointer = live := by
  rw [Session.removeBlock, List.filter_cons_of_neg (by simp), List.filter_eq_self]
  intro other listed
  refine decide_eq_true fun same => absent ?_
  rw [← same]
  exact List.mem_map_of_mem listed

theorem resizeBlock_pointers (live : List Block) (pointer request : Nat) :
    (Session.resizeBlock live pointer request).map Block.pointer = live.map Block.pointer := by
  rw [Session.resizeBlock, List.map_map]
  refine List.map_congr_left fun block _ => ?_
  rw [Function.comp_apply]
  split
  · rfl
  · rfl

theorem Consistent.pointers_nodup (consistent : Consistent heapStart session chunks) : session.pointers.Nodup :=
  consistent.matched.pointers.nodup_iff.mpr consistent.distinct

theorem free_removes (contract : SbrkContract sbrk heapStart) (aligned : 4 ∣ heapStart)
    (startBound : heapStart < 4294967296) (reachable : (Session.runs sbrk heapStart).Reachable session)
    (isLive : pointer ∈ session.pointers) :
    ∃ new, Allocator.free pointer session.allocator = .ok new ∧
      (Session.runs sbrk heapStart).Within (Among [pointer]) session
        ⟨new, Session.removeBlock session.live pointer⟩ ∧
      (Session.removeBlock session.live pointer).map Block.pointer = session.pointers.erase pointer := by
  obtain ⟨chunks, consistent⟩ := reachable_consistent contract aligned startBound reachable
  obtain ⟨before, chunk, after, rfl, inUse, rfl⟩ := consistent.owner isLive
  obtain ⟨new, _, run, _⟩ := free_spec consistent.tiled inUse
  have freed : Allocator.free (payload chunk) session.allocator = .ok new := run
  have stepped : (Session.runs sbrk heapStart).step session (.free (payload chunk))
      ⟨new, Session.removeBlock session.live (payload chunk)⟩ := by
    refine ⟨isLive, ?_⟩
    rw [Session.perform, freed]
    rfl
  refine ⟨new, freed, .single ?_ stepped, ?_⟩
  · rintro _ ⟨⟩
    exact List.mem_singleton_self _
  · rw [removeBlock_pointers, consistent.pointers_nodup.erase_eq_filter]
    refine List.filter_congr fun other _ => ?_
    rw [bne, decide_not]
    rfl

/-- The limit of the heap does not get in the way of a live pointer. -/
theorem realloc_onHeap (contract : SbrkContract sbrk heapStart) (aligned : 4 ∣ heapStart)
    (startBound : heapStart < 4294967296) (reachable : (Session.runs sbrk heapStart).Reachable session)
    (isLive : pointer ∈ session.pointers) (limit : session.allocator.heap ≤ session.allocator.heapEnd)
    (positive : bytes ≠ 0) (small : paddedSize bytes kMaxAlignment < 2147483648) :
    Returns (session.allocator.realloc sbrk pointer bytes) (· ≠ .notOnHeap) fun _ => True := by
  obtain ⟨chunks, consistent⟩ := reachable_consistent contract aligned startBound reachable
  obtain ⟨held, heldLive, address⟩ := List.mem_map.mp isLive
  have requested := requests_positive reachable held heldLive
  obtain ⟨_, owner, listed, ownerAddress, large⟩ := consistent.matched.placed held heldLive
  obtain ⟨before, chunk, after, rfl, inUse, rfl⟩ := consistent.owner isLive
  have member : chunk ∈ before ++ chunk :: after := by simp
  have same := payload_injective consistent.tiled (mem_usedChunks.mp listed).1 member (ownerAddress.trans address)
  rw [same] at large
  obtain ⟨lower, _, upper⟩ := consistent.tiled.tiles.bounds member
  have above : session.allocator.heapStart ≤ payload chunk := Nat.le_add_right_of_le lower
  have below : session.allocator.heapEnd ≠ 0 → payload chunk < session.allocator.heapEnd := by
    intro _
    simp only [payload, Segment.stop] at upper ⊢
    omega
  have slow := slowRealloc_spec (by rw [consistent.start]; exact contract) consistent.tiled inUse positive small
  unfold realloc
  refine returns_require_bind above (returns_require_bind below ?_)
  rw [if_neg positive]
  refine returns_require_or (by decide) fun _ => returns_require_or (by decide) fun _ => ?_
  split
  · exact returns_pure.mpr trivial
  · split
    · refine returns_require_or (by decide) fun _ => ?_
      exact returns_pure.mpr trivial
    · refine (slow.weaken ?_).mono fun _ _ => trivial
      rintro _ (rfl | rfl) <;> decide

def answered (session : Session) (new : Allocator) (pointer bytes moved : Nat) : Session :=
  if moved = pointer then ⟨new, Session.resizeBlock session.live pointer bytes⟩
  else ⟨new, ⟨moved, kMaxAlignment, bytes⟩ :: Session.removeBlock session.live pointer⟩

theorem answered_allocator (moved : Nat) : (answered session new pointer bytes moved).allocator = new := by
  unfold answered
  split
  · rfl
  · rfl

theorem answered_pointers (distinct : session.pointers.Nodup) (isLive : pointer ∈ session.pointers) (moved : Nat) :
    (answered session new pointer bytes moved).pointers.Perm (moved :: session.pointers.erase pointer) := by
  unfold answered
  split
  · rename_i inPlace
    rw [Session.pointers, resizeBlock_pointers, inPlace]
    exact List.perm_cons_erase isLive
  · rw [Session.pointers, List.map_cons, removeBlock_pointers, distinct.erase_eq_filter]
    refine List.Perm.cons _ (List.Perm.of_eq (List.filter_congr fun other _ => ?_))
    rw [bne, decide_not]
    rfl

/-- `Realloc` of a live pointer gives a block with the same front, which may be the old one. -/
theorem realloc_moves (contract : SbrkContract sbrk heapStart) (aligned : 4 ∣ heapStart)
    (startBound : heapStart < 4294967296) (reachable : (Session.runs sbrk heapStart).Reachable session)
    (isLive : pointer ∈ session.pointers) (limit : session.allocator.heap ≤ session.allocator.heapEnd)
    (positive : bytes ≠ 0) (small : paddedSize bytes kMaxAlignment < 2147483648) :
    Returns (session.allocator.realloc sbrk pointer bytes) NoSpace fun result =>
      ∃ after : Session, after.allocator = result.1 ∧ result.2 ≠ 0 ∧
        (Session.runs sbrk heapStart).Within (Among [pointer]) session after ∧
        after.pointers.Perm (result.2 :: session.pointers.erase pointer) ∧
        bytes ≤ payloadSize result.1.memory result.2 ∧
        ∀ offset < min (payloadSize session.allocator.memory pointer) bytes,
          result.1.memory (result.2 + offset) = session.allocator.memory (pointer + offset) := by
  have onHeap := realloc_onHeap contract aligned startBound reachable isLive limit positive small
  obtain ⟨chunks, consistent⟩ := reachable_consistent contract aligned startBound reachable
  have distinct := consistent.pointers_nodup
  obtain ⟨before, chunk, rest, rfl, inUse, rfl⟩ := consistent.owner isLive
  have spec := realloc_spec (by rw [consistent.start]; exact contract) consistent.tiled inUse positive small
  cases run : session.allocator.realloc sbrk (payload chunk) bytes with
  | error fault =>
      refine returns_error.mpr ?_
      rcases spec.of_error run with full | outside
      · exact full
      · exact absurd outside (onHeap.of_error run)
  | ok result =>
      obtain ⟨new, moved⟩ := result
      obtain ⟨chunks', block, allocated, resized⟩ := spec.of_ok run
      have performed : session.perform sbrk (.realloc (payload chunk) bytes) =
          .ok (answered session new (payload chunk) bytes moved) := by
        rw [Session.perform, run, ok_bind]
        dsimp only
        rw [if_neg allocated.nonnull, answered]
        split
        · rfl
        · rfl
      obtain ⟨_, again, movedLive, othersLive⟩ := perform_realloc isLive performed
      rw [answered_allocator] at again
      cases run.symm.trans again
      have there : (answered session new (payload chunk) bytes moved).allocator = new := answered_allocator moved
      have stepped : (Session.runs sbrk heapStart).step session (.realloc (payload chunk) bytes)
          (answered session new (payload chunk) bytes moved) := ⟨⟨isLive, small⟩, performed⟩
      have reallocated := reallocated_of_resized consistent inUse (by rw [there]; exact allocated)
        (by rw [there]; exact resized) movedLive othersLive
      have room := reallocated.room
      have content := reallocated.content
      rw [there] at room content
      refine returns_ok.mpr ⟨_, there, allocated.nonnull, .single ?_ stepped,
        answered_pointers distinct isLive moved, room, content⟩
      rintro _ ⟨⟩
      exact List.mem_singleton_self _

end Calls

end Allocator

end ToyKernel
