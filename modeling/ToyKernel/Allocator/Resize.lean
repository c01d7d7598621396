import ToyKernel.Allocator.Runs

/-!
What `Realloc` of a live pointer does, whichever path it takes: the same chunk, a
split of its end, or a copy into another chunk.
-/

namespace ToyKernel

open Library MallocHeader

namespace Allocator

def Answered (sbrk : SbrkFunc) (top : Nat) : Prop :=
  ∃ call increment heap, top = sbrk call increment heap

section
variable {sbrk : SbrkFunc} {realsize alignment : Nat}

theorem growChunk_heap (chunk : Nat) (state : Allocator) :
    Returns (growChunk sbrk realsize chunk state) (fun _ => True) fun grown =>
      grown.heap = sbrk state.sbrkCalls realsize state.heap := by
  unfold growChunk
  refine returns_require_or trivial fun _ => returns_require_or trivial fun _ =>
    returns_require_or trivial fun _ => ?_
  have finished : ∀ memory, Returns (do
      require (nextChunk memory chunk = (callSbrk sbrk realsize state).heap) .chunkDoesNotEndAtHeap
      pure { callSbrk sbrk realsize state with memory })
      (fun _ : Fault => True) fun grown => grown.heap = sbrk state.sbrkCalls realsize state.heap := by
    intro memory
    refine returns_require_or trivial fun _ => ?_
    exact returns_pure.mpr rfl
  dsimp only
  split
  · exact finished _
  · refine returns_require_or trivial fun _ => ?_
    exact finished _

theorem findChunk_heap (fuel chunk : Nat) (reachedHeapEnd : Bool) (state : Allocator)
    (answered : Answered sbrk state.heap) :
    Returns (findChunk sbrk realsize alignment fuel chunk reachedHeapEnd state) (fun _ => True)
      fun result => Answered sbrk result.1.heap := by
  induction fuel generalizing chunk reachedHeapEnd state with
  | zero => exact returns_error.mpr trivial
  | succ fuel ih =>
      rw [findChunk]
      cases canUseChunk state.memory realsize alignment chunk with
      | some adjust => exact returns_ok.mpr answered
      | none =>
          refine returns_require_or trivial fun _ => ?_
          dsimp only
          generalize (if reachedHeapEnd = true then chunk else nextChunk state.memory chunk) = next
          by_cases atTop : reachedHeapEnd = true ∨ next = state.heap
          · rw [if_pos atTop]
            refine (growChunk_heap next state).bind fun grown top => ?_
            refine returns_require_or trivial fun _ => ?_
            exact ih next true grown ⟨_, _, _, top⟩
          · rw [if_neg atTop]
            refine returns_require_or trivial fun _ => ?_
            exact ih next false state answered

variable {state : Allocator}

theorem init_heap (memory : Memory) (heapStart heapEnd : Nat) :
    Returns (init sbrk memory heapStart heapEnd) (fun _ => True) fun new =>
      Answered sbrk new.heap := by
  simp only [init, initializeHeap, callSbrk]
  refine returns_require_or trivial fun _ => returns_require_or trivial fun _ => ?_
  exact returns_pure.mpr ⟨0, 1, heapStart, rfl⟩

theorem malloc_heap (bytes alignment : Nat) (answered : Answered sbrk state.heap) :
    Returns (malloc sbrk bytes alignment state) (fun _ => True) fun result =>
      Answered sbrk result.1.heap := by
  unfold malloc
  refine returns_require_or trivial fun _ => ?_
  split
  · exact returns_pure.mpr answered
  · refine returns_require_or trivial fun _ => ?_
    refine (findChunk_heap _ _ _ state answered).bind ?_
    rintro ⟨found, chunk, adjust⟩ top
    refine (returns_any _).bind ?_
    rintro ⟨memory, address⟩ _
    refine returns_require_or trivial fun _ => ?_
    refine (returns_any _).bind fun final _ => ?_
    refine returns_require_or trivial fun _ => ?_
    exact returns_pure.mpr top

theorem free_heap (pointer : Nat) (answered : Answered sbrk state.heap) :
    Returns (free pointer state) (fun _ => True) fun new => Answered sbrk new.heap := by
  unfold free
  split
  · exact returns_pure.mpr answered
  · refine returns_require_or trivial fun _ => ?_
    refine (returns_any _).bind fun memory _ => ?_
    exact returns_pure.mpr answered

theorem realloc_heap (pointer bytes : Nat) (answered : Answered sbrk state.heap) :
    Returns (realloc sbrk pointer bytes state) (fun _ => True) fun result =>
      Answered sbrk result.1.heap := by
  unfold realloc
  refine returns_require_or trivial fun _ => ?_
  refine returns_require_or trivial fun _ => ?_
  split
  · exact returns_pure.mpr answered
  · refine returns_require_or trivial fun _ => ?_
    refine returns_require_or trivial fun _ => ?_
    split
    · exact returns_pure.mpr answered
    · split
      · refine returns_require_or trivial fun _ => ?_
        exact returns_pure.mpr answered
      · unfold slowRealloc
        refine (malloc_heap bytes kMaxAlignment answered).bind ?_
        rintro ⟨middle, newPointer⟩ top
        refine returns_require_or trivial fun _ => ?_
        dsimp only
        generalize memcpy middle.memory newPointer pointer _ = memory
        have kept : Answered sbrk { middle with memory }.heap := top
        refine (free_heap pointer kept).bind fun new final => ?_
        exact returns_pure.mpr final

end

/-- In a reachable session the top of the heap is an answer of `sbrk`. -/
theorem heap_answered {sbrk : SbrkFunc} {heapStart : Nat} {session : Session}
    (reachable : (Session.runs sbrk heapStart).Reachable session) :
    Answered sbrk session.allocator.heap := by
  refine reachable.invariant (fun session => Answered sbrk session.allocator.heap) ?_ ?_
  · rintro ⟨allocator, live⟩ ⟨_, memory, heapEnd, started⟩
    exact (init_heap memory heapStart heapEnd).of_ok started
  · rintro before operation after answered ⟨_, performed⟩
    cases operation with
    | malloc bytes alignment =>
        simp only [Session.perform, bind_eq_ok, pure_eq_ok] at performed
        obtain ⟨_, run, rfl⟩ := performed
        exact (malloc_heap bytes alignment answered).of_ok run
    | calloc count bytes =>
        simp only [Session.perform, calloc, bind_eq_ok, pure_eq_ok] at performed
        obtain ⟨_, ⟨_, run, rfl⟩, rfl⟩ := performed
        exact (malloc_heap _ _ answered).of_ok run
    | realloc pointer bytes =>
        simp only [Session.perform, bind_eq_ok] at performed
        obtain ⟨result, run, performed⟩ := performed
        have top := (realloc_heap pointer bytes answered).of_ok run
        split at performed
        · cases performed
          exact top
        · split at performed
          · cases performed
            exact top
          · cases performed
            exact top
    | free pointer =>
        simp only [Session.perform, bind_eq_ok, pure_eq_ok] at performed
        obtain ⟨_, run, rfl⟩ := performed
        exact (free_heap pointer answered).of_ok run
    | write pointer offset byte =>
        cases performed
        exact answered

theorem addBlock_positive {live : List Block} {pointer alignment request : Nat}
    (positive : ∀ block ∈ live, 0 < block.request) (null : request = 0 → pointer = 0) :
    ∀ block ∈ Session.addBlock live pointer alignment request, 0 < block.request := by
  unfold Session.addBlock
  split
  · exact positive
  · rename_i nonnull
    intro block member
    rcases List.mem_cons.mp member with rfl | old
    · exact Nat.pos_of_ne_zero fun zero => nonnull (null zero)
    · exact positive block old

theorem requests_positive {sbrk : SbrkFunc} {heapStart : Nat} {session : Session}
    (reachable : (Session.runs sbrk heapStart).Reachable session) :
    ∀ block ∈ session.live, 0 < block.request := by
  refine reachable.invariant (fun session => ∀ block ∈ session.live, 0 < block.request) ?_ ?_
  · rintro session ⟨empty, _⟩
    simp [empty]
  · rintro before operation after positive ⟨_, performed⟩
    cases operation with
    | malloc bytes alignment =>
        simp only [Session.perform, bind_eq_ok, pure_eq_ok] at performed
        obtain ⟨⟨_, pointer⟩, run, rfl⟩ := performed
        refine addBlock_positive positive ?_
        rintro rfl
        exact (malloc_zero run).2
    | calloc count bytes =>
        simp only [Session.perform, calloc, bind_eq_ok, pure_eq_ok] at performed
        obtain ⟨_, ⟨⟨_, pointer⟩, run, rfl⟩, rfl⟩ := performed
        refine addBlock_positive positive ?_
        intro zero
        rw [zero] at run
        exact (malloc_zero run).2
    | realloc pointer bytes =>
        simp only [Session.perform, bind_eq_ok] at performed
        obtain ⟨⟨new, moved⟩, run, performed⟩ := performed
        by_cases null : moved = 0
        · rw [if_pos null, pure_eq_ok] at performed
          subst performed
          exact positive
        · have requested : bytes ≠ 0 := by
            rintro rfl
            simp only [realloc, bind_eq_ok, ↓reduceIte, pure_eq_ok, Prod.mk.injEq] at run
            obtain ⟨_, _, _, _, _, zero⟩ := run
            exact null zero.symm
          rw [if_neg null] at performed
          split at performed
          · rw [pure_eq_ok] at performed
            subst performed
            intro block member
            obtain ⟨old, listed, rfl⟩ := List.mem_map.mp member
            split
            · exact Nat.pos_of_ne_zero requested
            · exact positive old listed
          · rw [pure_eq_ok] at performed
            subst performed
            intro block member
            rcases List.mem_cons.mp member with rfl | old
            · exact Nat.pos_of_ne_zero requested
            · exact positive block (List.mem_of_mem_filter old)
    | free pointer =>
        simp only [Session.perform, bind_eq_ok, pure_eq_ok] at performed
        obtain ⟨_, _, rfl⟩ := performed
        intro block member
        exact positive block (List.mem_of_mem_filter member)
    | write pointer offset byte =>
        cases performed
        exact positive

structure Reallocated (session after : Session) (pointer bytes moved : Nat) : Prop where
  isLive : moved ∈ after.pointers
  room : bytes ≤ payloadSize after.allocator.memory moved
  content : ∀ offset < min (payloadSize session.allocator.memory pointer) bytes,
    after.allocator.memory (moved + offset) = session.allocator.memory (pointer + offset)
  free : ∃ fuel visited,
    walk after.allocator.memory after.allocator.heap fuel after.allocator.heapStart = some visited ∧
    (moved ≠ pointer → fromPointer pointer ∈ visited ∧
      used after.allocator.memory (fromPointer pointer) = false ∧
      MallocHeader.size session.allocator.memory (fromPointer pointer) ≤
        MallocHeader.size after.allocator.memory (fromPointer pointer)) ∧
    (moved = pointer → MallocHeader.size after.allocator.memory (fromPointer pointer) <
        MallocHeader.size session.allocator.memory (fromPointer pointer) →
      nextChunk after.allocator.memory (fromPointer pointer) ∈ visited ∧
      used after.allocator.memory (nextChunk after.allocator.memory (fromPointer pointer)) = false ∧
      nextChunk after.allocator.memory (nextChunk after.allocator.memory (fromPointer pointer)) =
        nextChunk session.allocator.memory (fromPointer pointer))
  others : ∀ other ∈ session.live, other.pointer ≠ pointer → other ∈ after.live ∧
    AgreeOn session.allocator.memory after.allocator.memory (fromPointer other.pointer)
      (fromPointer other.pointer +
        MallocHeader.size session.allocator.memory (fromPointer other.pointer))
  accounted : after.allocator.heapUsed +
      MallocHeader.size session.allocator.memory (fromPointer pointer) =
    session.allocator.heapUsed + MallocHeader.size after.allocator.memory (fromPointer moved)

theorem perform_realloc {sbrk : SbrkFunc} {session after : Session} {pointer bytes : Nat}
    (isLive : pointer ∈ session.pointers)
    (performed : session.perform sbrk (.realloc pointer bytes) = .ok after) :
    ∃ moved, session.allocator.realloc sbrk pointer bytes = .ok (after.allocator, moved) ∧
      (moved ≠ 0 → moved ∈ after.pointers) ∧
      ∀ other ∈ session.live, other.pointer ≠ pointer → other ∈ after.live := by
  simp only [Session.perform, bind_eq_ok] at performed
  obtain ⟨⟨new, moved⟩, run, performed⟩ := performed
  refine ⟨moved, ?_⟩
  by_cases null : moved = 0
  · rw [if_pos null, pure_eq_ok] at performed
    subst performed
    exact ⟨run, fun nonnull => absurd null nonnull, fun other member _ => member⟩
  · rw [if_neg null] at performed
    by_cases inPlace : moved = pointer
    · rw [if_pos inPlace, pure_eq_ok] at performed
      subst performed
      refine ⟨run, fun _ => ?_, ?_⟩
      · rw [inPlace]
        obtain ⟨block, member, same⟩ := List.mem_map.mp isLive
        refine List.mem_map.mpr ⟨{ block with request := bytes }, List.mem_map.mpr ⟨block, member, ?_⟩, same⟩
        rw [if_pos same]
      · intro other member different
        exact List.mem_map.mpr ⟨other, member, by rw [if_neg different]⟩
    · rw [if_neg inPlace, pure_eq_ok] at performed
      subst performed
      refine ⟨run, fun _ => by simp [Session.pointers], ?_⟩
      intro other member different
      exact List.mem_cons_of_mem _ (by simpa [Session.removeBlock] using ⟨member, different⟩)

section
variable {heapStart : Nat} {session after : Session} {before rest chunks' : List Chunk}
  {chunk block : Chunk} {bytes moved : Nat}

/-- The chunks left behind by a resize, as the headers in memory tell them. -/
theorem reallocated_of_resized (consistent : Consistent heapStart session (before ++ chunk :: rest))
    (inUse : chunk.tag = true)
    (allocated : Allocated session.allocator (before ++ rest) bytes kMaxAlignment
      after.allocator moved chunks' block)
    (resized : Resized session.allocator chunk bytes after.allocator chunks' block)
    (movedLive : moved ≠ 0 → moved ∈ after.pointers)
    (othersLive : ∀ other ∈ session.live, other.pointer ≠ payload chunk → other ∈ after.live) :
    Reallocated session after (payload chunk) bytes moved := by
  have tiled := consistent.tiled
  have member : chunk ∈ before ++ chunk :: rest := by simp
  have header := tiled.headers chunk member
  have chunkEq : fromPointer (payload chunk) = chunk.start :=
    fromPointer_eq (chunk_pointer_lt tiled member)
  have blockHeader := allocated.tiled.headers block allocated.block_mem
  have movedEq : moved = block.start + headerSize := allocated.address
  have padded := paddedSize_ge bytes kMaxAlignment (by decide)
  have blockSize := allocated.size
  have sameStart : moved = payload chunk ↔ block.start = chunk.start := by
    rw [movedEq, payload]
    omega
  have nextEq : nextChunk session.allocator.memory chunk.start = chunk.stop := tiled.nextChunk_eq member
  refine ⟨movedLive (by rw [movedEq, headerSize]; omega), ?_, ?_,
    ⟨chunks'.length + 1, chunks'.map Segment.start,
      walk_tiles chunks' allocated.tiled.tiles fun piece listed => allocated.tiled.nextChunk_eq listed,
      ?_, ?_⟩, ?_, ?_⟩
  · rw [payloadSize, allocated.chunk_eq, blockHeader.size]
    omega
  · intro offset inside
    rw [payloadSize, chunkEq, header.size] at inside
    rw [movedEq, payload]
    exact resized.copied offset (by omega) (by omega)
  · intro away
    obtain ⟨freed, listed, freedStart, isFree, large⟩ :=
      resized.freed fun same => away (sameStart.mpr same)
    have freedHeader := allocated.tiled.headers freed listed
    rw [chunkEq, header.size, ← freedStart, freedHeader.used, freedHeader.size]
    exact ⟨List.mem_map_of_mem listed, isFree, large⟩
  · intro inPlace shrunk
    have starts := sameStart.mp inPlace
    rw [chunkEq, ← starts, blockHeader.size, starts, header.size] at shrunk
    have listed := resized.remainder starts shrunk
    have stopEq : nextChunk after.allocator.memory chunk.start = chunk.start + block.size := by
      have reached := allocated.tiled.nextChunk_eq allocated.block_mem
      rwa [starts, Segment.stop, starts] at reached
    have beyond := allocated.tiled.nextChunk_eq listed
    have remainderHeader := allocated.tiled.headers _ listed
    rw [chunkEq, stopEq, nextEq]
    refine ⟨List.mem_map_of_mem listed, remainderHeader.used, ?_⟩
    rw [beyond]
    simp only [Segment.stop]
    omega
  · intro other otherLive different
    obtain ⟨_, owner, listed, address, ownerEq, ownerSize, _⟩ := consistent.chunk_of otherLive
    rw [ownerEq, ownerSize]
    refine ⟨othersLive other otherLive different, allocated.kept owner ?_⟩
    have apart : owner ≠ chunk := by
      rintro rfl
      exact different address.symm
    simp only [usedChunks_append, usedChunks_cons_used inUse, List.mem_append, List.mem_cons]
      at listed ⊢
    rcases listed with early | same | late
    · exact Or.inl early
    · exact absurd same apart
    · exact Or.inr late
  · have total := totalSize_perm allocated.added
    rw [totalSize_cons] at total
    rw [chunkEq, allocated.chunk_eq, header.size, blockHeader.size, allocated.tiled.accounted,
      tiled.accounted, total]
    simp only [usedChunks_append, totalSize_append, usedChunks_cons_used inUse, totalSize_cons]
    omega

end

theorem userHeap_grows : ∃ session after : Session,
    (Session.runs (usbrk 8192) 4096).Reachable session ∧ 4100 ∈ session.pointers ∧
      session.perform (usbrk 8192) (.realloc 4100 40) = .ok after := by
  have evaluated : (userHeap >>= fun session =>
      (session.perform (usbrk 8192) (.realloc 4100 40)).map fun after =>
        decide (4100 ∈ session.pointers)) = .ok true := by decide +kernel
  obtain ⟨session, run, rest⟩ := bind_eq_ok.mp evaluated
  obtain ⟨after, performed, isLive⟩ := map_eq_ok.mp rest
  exact ⟨session, after, userHeap_run run, of_decide_eq_true isLive, performed⟩

theorem realloc_resizes {sbrk : SbrkFunc} {heapStart : Nat} (contract : SbrkContract sbrk heapStart)
    (aligned : 4 ∣ heapStart) (startBound : heapStart < 4294967296) {session : Session}
    (reachable : (Session.runs sbrk heapStart).Reachable session) {pointer : Nat}
    (isLive : pointer ∈ session.pointers) :
    (∀ bytes after, 0 < bytes → paddedSize bytes kMaxAlignment < 2147483648 →
      session.perform sbrk (.realloc pointer bytes) = .ok after →
      ∃ moved, session.allocator.realloc sbrk pointer bytes = .ok (after.allocator, moved) ∧
        Reallocated session after pointer bytes moved) ∧
    ((session.allocator.heapEnd ≠ 0 →
        ∀ call increment heap, sbrk call increment heap ≤ session.allocator.heapEnd) →
      session.allocator.realloc sbrk pointer 0 = .ok (session.allocator, 0)) := by
  obtain ⟨chunks, consistent⟩ := reachable_consistent contract aligned startBound reachable
  obtain ⟨before, chunk, rest, rfl, inUse, rfl⟩ := consistent.owner isLive
  have tiled := consistent.tiled
  have member : chunk ∈ before ++ chunk :: rest := by simp
  have header := tiled.headers chunk member
  have chunkEq : fromPointer (payload chunk) = chunk.start := fromPointer_eq (chunk_pointer_lt tiled member)
  refine ⟨?_, ?_⟩
  · intro bytes after positive bound performed
    obtain ⟨moved, run, movedLive, othersLive⟩ := perform_realloc isLive performed
    have spec := realloc_spec (by rw [consistent.start]; exact contract) tiled inUse
      (Nat.ne_of_gt positive) bound
    obtain ⟨chunks', block, allocated, resized⟩ := spec.of_ok run
    exact ⟨moved, run, reallocated_of_resized consistent inUse allocated resized movedLive othersLive⟩
  · intro within
    have inside : session.allocator.heapEnd ≠ 0 → payload chunk < session.allocator.heapEnd := by
      intro limited
      obtain ⟨call, increment, heap, top⟩ := heap_answered reachable
      have topBelow := within limited call increment heap
      obtain ⟨block, blockLive, address⟩ := List.mem_map.mp isLive
      have requested := requests_positive reachable block blockLive
      obtain ⟨_, owner, listed, ownerAddress, large⟩ := consistent.matched.placed block blockLive
      have same := payload_injective tiled (mem_usedChunks.mp listed).1 member
        (ownerAddress.trans address)
      rw [same] at large
      have upper := (tiled.tiles.bounds member).2.2
      simp only [payload, Segment.stop] at upper ⊢
      omega
    have lower := (tiled.tiles.bounds member).1
    have above : session.allocator.heapStart ≤ payload chunk := by
      simp only [payload]
      omega
    rw [realloc, require_of above, ok_bind, require_of inside, ok_bind, if_pos rfl]
    rfl

theorem realloc_resizes_userHeap :
    ∃ session after : Session, (Session.runs (usbrk 8192) 4096).Reachable session ∧
      session.perform (usbrk 8192) (.realloc 4100 40) = .ok after ∧
      ∃ moved, session.allocator.realloc (usbrk 8192) 4100 40 = .ok (after.allocator, moved) ∧
        Reallocated session after 4100 40 moved := by
  obtain ⟨session, after, reachable, isLive, performed⟩ := userHeap_grows
  have resizes := realloc_resizes (usbrk_contract (by decide)) (by decide) (by decide)
    reachable isLive
  exact ⟨session, after, reachable, performed,
    resizes.1 40 after (by decide) (by decide) performed⟩

end Allocator

end ToyKernel
