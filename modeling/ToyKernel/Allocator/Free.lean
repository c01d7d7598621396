import ToyKernel.Allocator.Malloc

/-!
`Free`, `Calloc` and `Realloc` on a tiled heap, each described by the chunks in
use before and after and by the bytes it leaves alone.
-/

namespace ToyKernel

open Library MallocHeader

namespace Tiled

variable {state : Allocator} {chunks before after : List Chunk} {chunk next : Chunk}

theorem writePayload {memory : Memory} (tiled : Tiled state chunks) (member : chunk ∈ chunks)
    (below : AgreeOn state.memory memory state.heapStart (chunk.start + headerSize))
    (above : AgreeOn state.memory memory chunk.stop state.heap) :
    Tiled { state with memory } chunks := by
  refine ⟨tiled.tiles, ?_, tiled.multiples, tiled.alignedStart, tiled.heapBound, tiled.heapSize,
    tiled.accounted⟩
  intro other otherMember
  have otherLarge := tiled.size_ge otherMember
  obtain ⟨lower, _, upper⟩ := tiled.tiles.bounds otherMember
  have header := tiled.headers other otherMember
  simp only [headerSize] at below
  by_cases same : other = chunk
  · subst same
    exact header.of_agreeOn below lower (Nat.le_refl _)
  · simp only [Segment.stop] at upper
    rcases tiled.tiles.apart otherMember member same with apart | apart
    · simp only [Segment.stop] at apart
      exact header.of_agreeOn below lower (by omega)
    · exact header.of_agreeOn above apart (by omega)

theorem markFree (tiled : Tiled state (before ++ chunk :: after)) (inUse : chunk.tag = true) :
    Tiled { state with
        memory := setUsed state.memory chunk.start false
        heapUsed := state.heapUsed - chunk.size }
      (before ++ ⟨chunk.start, chunk.size, false⟩ :: after) := by
  have member : chunk ∈ before ++ chunk :: after := by simp
  have large := tiled.size_ge member
  have positive := (tiled.tiles.bounds member).2.1
  refine tiled.replace [⟨chunk.start, chunk.size, false⟩] ?_ ?_ ?_
    (setUsed_agreeOn _ (by omega)) (setUsed_agreeOn _ (by simp only [Segment.stop]; omega)) ?_
  · exact tiles_singleton.mpr ⟨rfl, positive, rfl⟩
  · intro piece inPieces
    rw [List.mem_singleton.mp inPieces]
    refine ⟨?_, used_setUsed _ _ _⟩
    rw [size_setUsed, (tiled.headers chunk member).size]
  · intro piece inPieces
    rw [List.mem_singleton.mp inPieces]
    exact tiled.multiples chunk member
  · rw [tiled.accounted]
    simp only [usedChunks_append, totalSize_append, usedChunks_cons_used inUse, totalSize_cons]
    simp only [usedChunks, List.filter_cons, List.filter_nil, Bool.false_eq_true, ↓reduceIte]
    simp only [totalSize, List.map_nil, List.sum_nil]
    omega

theorem mergeNext (tiled : Tiled state (before ++ chunk :: next :: after))
    (isFree : chunk.tag = false) (nextFree : next.tag = false) :
    Tiled { state with
        memory := setSize state.memory chunk.start (wrap32 (chunk.size + next.size)) }
      (before ++ ⟨chunk.start, chunk.size + next.size, false⟩ :: after) := by
  have member : chunk ∈ before ++ chunk :: next :: after := by simp
  have nextMember : next ∈ before ++ chunk :: next :: after := by simp
  have header := tiled.headers chunk member
  have total := tiled.heapSize
  have lower := (tiled.tiles.bounds member).1
  have upper := (tiled.tiles.bounds nextMember).2.2
  obtain ⟨middle, front, start, positive, nextStart, nextPositive, back⟩ :=
    tiles_append.mp tiled.tiles
  have chunkLarge := tiled.size_ge member
  simp only [Segment.stop] at upper nextStart back
  rw [wrap32_of_lt (by omega)]
  refine ⟨tiled.tiles.merge rfl rfl, ?_, ?_, tiled.alignedStart, tiled.heapBound, total, ?_⟩
  · intro piece inPieces
    rcases List.mem_append.mp inPieces with old | rest
    · have pieceLarge := tiled.size_ge (show piece ∈ _ by simp [old])
      obtain ⟨pieceLower, _, pieceUpper⟩ := front.bounds old
      simp only [Segment.stop] at pieceUpper
      exact (tiled.headers piece (by simp [old])).setSize_other _ (by omega)
    · rcases List.mem_cons.mp rest with same | old
      · rw [same]
        refine ⟨?_, ?_⟩
        · rw [size_setSize]
          dsimp only
          omega
        · rw [used_setSize, header.used, isFree]
      · obtain ⟨pieceLower, _, _⟩ := back.bounds old
        exact (tiled.headers piece (by simp [old])).setSize_other _ (by omega)
  · intro piece inPieces
    rcases List.mem_append.mp inPieces with old | rest
    · exact tiled.multiples piece (by simp [old])
    · rcases List.mem_cons.mp rest with same | old
      · rw [same]
        exact Nat.dvd_add (tiled.multiples chunk member) (tiled.multiples next nextMember)
      · exact tiled.multiples piece (by simp [old])
  · rw [tiled.accounted]
    simp [usedChunks, isFree, nextFree]

end Tiled

namespace Allocator

variable {sbrk : SbrkFunc} {state : Allocator} {chunks before after : List Chunk} {chunk : Chunk}

theorem mergeFree_spec (fuel : Nat) (tiled : Tiled state (before ++ chunk :: after))
    (isFree : chunk.tag = false) (enough : after.length < fuel) :
    ∃ result merged rest, mergeFree state.heap chunk.start fuel state.memory = .ok result ∧
      Tiled { state with memory := result } (before ++ merged :: rest) ∧
      merged.start = chunk.start ∧ merged.tag = false ∧ chunk.size ≤ merged.size ∧
      usedChunks rest = usedChunks after ∧
      ∀ low high, high ≤ chunk.start ∨ chunk.start + headerSize ≤ low →
        AgreeOn state.memory result low high := by
  induction after generalizing state chunk fuel with
  | nil =>
      obtain ⟨fuel, rfl⟩ : ∃ rest, fuel = rest + 1 := ⟨fuel - 1, by simp only [List.length_nil] at enough; omega⟩
      obtain ⟨middle, front, back⟩ := tiles_append.mp tiled.tiles
      have stop := (tiles_singleton.mp back).2.2
      refine ⟨state.memory, chunk, [], ?_, tiled, rfl, isFree, Nat.le_refl _, rfl,
        fun low high _ => AgreeOn.refl _ _ _⟩
      rw [mergeFree]
      rw [tiled.nextChunk_eq (by simp), if_neg (by omega)]
      rfl
  | cons next rest ih =>
      obtain ⟨fuel, rfl⟩ : ∃ rest, fuel = rest + 1 := ⟨fuel - 1, by omega⟩
      have member : chunk ∈ before ++ chunk :: next :: rest := by simp
      have nextMember : next ∈ before ++ chunk :: next :: rest := by simp
      have nextHeader := tiled.headers next nextMember
      have nextBounds := tiled.tiles.bounds nextMember
      obtain ⟨middle, front, start, positive, nextStart, nextPositive, back⟩ :=
        tiles_append.mp tiled.tiles
      simp only [Segment.stop] at nextBounds
      have walked := tiled.nextChunk_eq member
      rw [← nextStart] at walked
      rw [mergeFree]
      rw [walked]
      cases nextUsed : next.tag with
      | true =>
          refine ⟨state.memory, chunk, next :: rest, ?_, tiled, rfl, isFree, Nat.le_refl _, rfl,
            fun low high _ => AgreeOn.refl _ _ _⟩
          rw [if_neg (by simp [nextHeader.used, nextUsed])]
          rfl
      | false =>
          simp only [Segment.stop] at nextStart
          rw [if_pos ⟨by omega, by omega, by rw [nextHeader.used, nextUsed]⟩,
            (tiled.headers chunk member).size, nextHeader.size]
          have merged := tiled.mergeNext isFree nextUsed
          obtain ⟨result, final, remaining, run, finalTiled, finalStart, finalFree, finalSize, finalUsed,
            agree⟩ := ih fuel merged rfl (by simp only [List.length_cons] at enough; omega)
          refine ⟨result, final, remaining, run, finalTiled, finalStart, finalFree,
            by dsimp only at finalSize; omega, ?_, ?_⟩
          · rw [finalUsed, usedChunks_cons_free nextUsed]
          · intro low high outside
            exact (setSize_agreeOn _ (by simp only [headerSize] at outside; omega)).trans
              (agree low high outside)

theorem fromPointer_eq {address : Nat} (bound : address + headerSize < 4294967296) :
    fromPointer (address + headerSize) = address := by
  rw [fromPointer, sub32_of_le (by omega) bound]
  omega

theorem chunk_pointer_lt (tiled : Tiled state chunks) (member : chunk ∈ chunks) :
    chunk.start + headerSize < 4294967296 := by
  have large := tiled.size_ge member
  have upper := (tiled.tiles.bounds member).2.2
  have bound := tiled.heapBound
  simp only [Segment.stop, headerSize] at upper ⊢
  omega

def Freed (chunk : Chunk) (chunks : List Chunk) : Prop :=
  ∃ freed ∈ chunks, freed.start = chunk.start ∧ freed.tag = false ∧ chunk.size ≤ freed.size

/-- `Free` of a used chunk never fails an assertion, and only rewrites its header. -/
theorem free_spec (tiled : Tiled state (before ++ chunk :: after)) (inUse : chunk.tag = true) :
    ∃ new chunks', free (chunk.start + headerSize) state = .ok new ∧ Tiled new chunks' ∧
      usedChunks chunks' = usedChunks (before ++ after) ∧
      new.heapStart = state.heapStart ∧ new.heap = state.heap ∧
      new.heapUsed = state.heapUsed - chunk.size ∧ Freed chunk chunks' ∧
      ∀ low high, high ≤ chunk.start ∨ chunk.start + headerSize ≤ low →
        AgreeOn state.memory new.memory low high := by
  have member : chunk ∈ before ++ chunk :: after := by simp
  have lengthBound := tiled.tiles.length_le
  have usedBound := tiled.heapUsed_le
  have topSmall := tiled.heapSize
  have paid : chunk.size ≤ state.heapUsed := by
    rw [tiled.accounted]
    simp only [usedChunks_append, totalSize_append, usedChunks_cons_used inUse, totalSize_cons]
    omega
  have marked := tiled.markFree inUse
  obtain ⟨result, merged, rest, run, finalTiled, mergedStart, mergedFree, mergedSize, restUsed, agree⟩ :=
    mergeFree_spec state.searchFuel marked rfl
      (by simp only [List.length_append, List.length_cons, searchFuel] at lengthBound ⊢; omega)
  refine ⟨{ state with memory := result, heapUsed := state.heapUsed - chunk.size }, _, ?_, finalTiled,
    ?_, rfl, rfl, rfl, ⟨merged, by simp, mergedStart, mergedFree, mergedSize⟩, ?_⟩
  · rw [free, if_neg (by simp only [headerSize]; omega), fromPointer_eq (chunk_pointer_lt tiled member)]
    dsimp only
    rw [size_setUsed, (tiled.headers chunk member).size, require_of paid, ok_bind]
    dsimp only at run
    rw [run, sub32_of_le paid (by omega)]
    rfl
  · simp only [usedChunks_append, usedChunks_cons_free mergedFree, restUsed]
  · intro low high outside
    exact (setUsed_agreeOn _ (by simp only [headerSize] at outside; omega)).trans (agree low high outside)

section
variable {bytes alignment pointer : Nat} {new : Allocator} {chunks' : List Chunk} {block : Chunk}

theorem Allocated.block_mem (allocated : Allocated state chunks bytes alignment new pointer chunks' block) :
    block ∈ chunks' :=
  (mem_usedChunks.mp (allocated.added.mem_iff.mpr List.mem_cons_self)).1

theorem Allocated.chunk_eq (allocated : Allocated state chunks bytes alignment new pointer chunks' block) :
    fromPointer pointer = block.start := by
  rw [allocated.address]
  exact fromPointer_eq (chunk_pointer_lt allocated.tiled allocated.block_mem)

theorem Allocated.old_mem (allocated : Allocated state chunks bytes alignment new pointer chunks' block)
    (member : chunk ∈ usedChunks chunks) : chunk ∈ chunks' ∧ chunk ≠ block := by
  refine ⟨(mem_usedChunks.mp (allocated.added.mem_iff.mpr (List.mem_cons_of_mem _ member))).1, ?_⟩
  have distinct := allocated.added.nodup_iff.mp (allocated.tiled.tiles.nodup.filter _)
  rintro rfl
  exact (List.nodup_cons.mp distinct).1 member

/-- Filling the fresh payload disturbs neither the headers nor the older blocks. -/
theorem Allocated.fill (allocated : Allocated state chunks bytes alignment new pointer chunks' block)
    (memory : Memory) (count : Nat) (room : count + headerSize ≤ block.size)
    (outside : ∀ low high, high ≤ pointer ∨ pointer + count ≤ low →
      AgreeOn new.memory memory low high) :
    Allocated state chunks bytes alignment { new with memory } pointer chunks' block := by
  have address := allocated.address
  refine ⟨?_, allocated.added, allocated.inUse, address, allocated.size, allocated.aligned,
    allocated.heapStart, ?_⟩
  · refine allocated.tiled.writePayload allocated.block_mem (outside _ _ (by omega))
      (outside _ _ ?_)
    simp only [Segment.stop]
    omega
  · intro older member
    obtain ⟨listed, different⟩ := allocated.old_mem member
    refine (allocated.kept older member).trans (outside _ _ ?_)
    rcases allocated.tiled.tiles.apart listed allocated.block_mem different with apart | apart
    · omega
    · simp only [Segment.stop] at apart ⊢
      omega

end

/-- `Calloc` works with the wrapped product, and zeroes that many bytes. -/
theorem calloc_zeroes (contract : SbrkContract sbrk state.heapStart) (tiled : Tiled state chunks)
    (nonempty : chunks ≠ []) {count bytes product : Nat} (wrapped : wrap32 (count * bytes) = product)
    (nonzero : product ≠ 0) (bound : paddedSize product kMaxAlignment < 2147483648) :
    Returns (calloc sbrk count bytes state)
      (OutOfMemory sbrk chunks (paddedSize product kMaxAlignment) kMaxAlignment state) fun result =>
        ∃ chunks' block, Allocated state chunks product kMaxAlignment result.1 result.2 chunks' block ∧
          ∀ offset < product, result.1.memory (result.2 + offset) = 0 := by
  have padded := paddedSize_ge product kMaxAlignment (by decide)
  have power : isPowerOf2 kMaxAlignment = true := by decide
  simp only [calloc]
  rw [wrapped]
  have spec := malloc_rounded contract tiled nonempty nonzero power
    (roundSize_eq (by decide) (by rw [max_self]; omega)) (by rw [max_self]; exact bound)
  rw [max_self] at spec
  refine spec.bind ?_
  rintro ⟨new, pointer⟩ ⟨_, chunks', block, _, _, _, _, allocated⟩
  refine returns_pure.mpr ⟨chunks', block, allocated.fill _ product ?_ ?_, ?_⟩
  · rw [allocated.size]
    omega
  · intro low high outside
    exact memset_agreeOn _ _ _ _ _ _ (by omega)
  · intro offset inside
    exact memset_fills _ _ _ _ _ inside

theorem calloc_spec (contract : SbrkContract sbrk state.heapStart) (tiled : Tiled state chunks)
    (nonempty : chunks ≠ []) {count bytes : Nat} (nonzero : count * bytes ≠ 0)
    (bound : paddedSize (count * bytes) kMaxAlignment < 2147483648) :
    Returns (calloc sbrk count bytes state) NoSpace fun result =>
      ∃ chunks' block, Allocated state chunks (count * bytes) kMaxAlignment
        result.1 result.2 chunks' block := by
  have padded := paddedSize_ge (count * bytes) kMaxAlignment (by decide)
  refine ((calloc_zeroes contract tiled nonempty (wrap32_of_lt (by omega)) nonzero bound).weaken
    (fun _ failed => failed.1.noSpace)).mono ?_
  rintro result ⟨chunks', block, allocated, _⟩
  exact ⟨chunks', block, allocated⟩

structure Resized (old : Allocator) (chunk : Chunk) (bytes : Nat) (new : Allocator)
    (chunks' : List Chunk) (block : Chunk) : Prop where
  copied : ∀ offset, offset < bytes → offset + headerSize < chunk.size →
    new.memory (block.start + headerSize + offset) = old.memory (chunk.start + headerSize + offset)
  freed : block.start ≠ chunk.start → Freed chunk chunks'
  remainder : block.start = chunk.start → block.size < chunk.size →
    ⟨chunk.start + block.size, chunk.size - block.size, false⟩ ∈ chunks'

/-- The slow path allocates elsewhere, copies, and frees the old block. -/
theorem slowRealloc_spec (contract : SbrkContract sbrk state.heapStart)
    (tiled : Tiled state (before ++ chunk :: after)) (inUse : chunk.tag = true)
    {bytes : Nat} (nonzero : bytes ≠ 0) (bound : paddedSize bytes kMaxAlignment < 2147483648) :
    Returns (slowRealloc sbrk (chunk.start + headerSize) bytes state) NoSpace fun result =>
      ∃ chunks' block, Allocated state (before ++ after) bytes kMaxAlignment
        result.1 result.2 chunks' block ∧ Resized state chunk bytes result.1 chunks' block := by
  have member : chunk ∈ before ++ chunk :: after := by simp
  have large := tiled.size_ge member
  have padded := paddedSize_ge bytes kMaxAlignment (by decide)
  simp only [slowRealloc]
  refine (malloc_spec contract tiled (by simp) nonzero (show isPowerOf2 kMaxAlignment = true by decide) bound).bind ?_
  rintro ⟨middle, pointer⟩ ⟨chunks', block, allocated⟩
  rw [max_self] at allocated
  dsimp only at allocated ⊢
  have listed : chunk ∈ usedChunks (before ++ chunk :: after) := mem_usedChunks.mpr ⟨member, inUse⟩
  obtain ⟨oldMember, different⟩ := allocated.old_mem listed
  obtain ⟨left, right, decomposed⟩ := List.mem_iff_append.mp oldMember
  have apart := allocated.tiled.tiles.apart oldMember allocated.block_mem different
  have startsDiffer : block.start ≠ chunk.start := by
    have blockLarge := allocated.tiled.size_ge allocated.block_mem
    simp only [Segment.stop] at apart
    omega
  have moved : pointer ≠ chunk.start + headerSize := by
    rw [allocated.address]
    omega
  refine returns_require_bind moved ?_
  have oldsizeEq : sub32 (size state.memory (fromPointer (chunk.start + headerSize))) headerSize =
      chunk.size - headerSize := by
    have small := tiled.size_lt member
    rw [fromPointer_eq (chunk_pointer_lt tiled member), (tiled.headers chunk member).size]
    exact sub32_of_le large (by omega)
  rw [oldsizeEq]
  have copiedLe : (if bytes < chunk.size - headerSize then bytes else chunk.size - headerSize) ≤ bytes ∧
      (if bytes < chunk.size - headerSize then bytes else chunk.size - headerSize) ≤
        chunk.size - headerSize ∧
      ∀ offset, offset < bytes → offset + headerSize < chunk.size →
        offset < if bytes < chunk.size - headerSize then bytes else chunk.size - headerSize := by
    split
    · exact ⟨by omega, by omega, by omega⟩
    · exact ⟨by omega, by omega, by omega⟩
  generalize (if bytes < chunk.size - headerSize then bytes else chunk.size - headerSize) = copied
    at copiedLe ⊢
  obtain ⟨copiedLe, copiedFits, copiedAll⟩ := copiedLe
  have blockSize := allocated.size
  have blockAddress := allocated.address
  have filled := allocated.fill (memcpy middle.memory pointer (chunk.start + headerSize) copied)
    copied (by omega) (fun low high outside => memcpy_agreeOn _ _ _ _ _ _ (by omega))
  rw [decomposed] at filled
  obtain ⟨new, final, run, finalTiled, finalUsed, finalStart, _, _, isFreed, agree⟩ :=
    free_spec filled.tiled inUse
  rw [run, ok_bind]
  have bytesCopied : ∀ offset, offset < bytes → offset + headerSize < chunk.size →
      new.memory (block.start + headerSize + offset) =
        state.memory (chunk.start + headerSize + offset) := by
    intro offset requested inside
    have chosen := copiedAll offset requested inside
    have kept := allocated.kept chunk listed (chunk.start + headerSize + offset) (by omega)
      (by simp only [Segment.stop]; omega)
    simp only [Segment.stop] at apart
    have beyondFree := agree (block.start + headerSize + offset)
      (block.start + headerSize + offset + 1) (by simp only [headerSize] at padded ⊢; omega)
      _ (Nat.le_refl _) (Nat.lt_succ_self _)
    have fromOld := memcpy_copies middle.memory pointer (chunk.start + headerSize) copied offset
      (by simp only [headerSize] at padded blockAddress copiedFits ⊢; omega) chosen
    rw [beyondFree, ← kept, ← fromOld, blockAddress]
  -- Both permutations list the freed chunk, which cancels.
  have cancelled : (usedChunks (left ++ right)).Perm (block :: usedChunks (before ++ after)) := by
    have added := filled.added
    simp only [usedChunks_append, usedChunks_cons_used inUse] at added ⊢
    have front := List.perm_middle.symm.trans added
    have back := front.trans ((@List.perm_middle _ chunk (usedChunks before) _).cons block)
    exact (back.trans (List.Perm.swap chunk block _)).cons_inv
  refine returns_pure.mpr ⟨final, block, ⟨finalTiled, by rw [finalUsed]; exact cancelled,
    filled.inUse, filled.address, filled.size, filled.aligned, finalStart.trans filled.heapStart, ?_⟩,
    bytesCopied, fun _ => isFreed, fun same => absurd same startsDiffer⟩
  intro older olderMember
  have olderListed : older ∈ usedChunks (before ++ chunk :: after) := by
    simp only [usedChunks_append, usedChunks_cons_used inUse, List.mem_append, List.mem_cons]
      at olderMember ⊢
    exact olderMember.imp_right Or.inr
  have olderDifferent : older ≠ chunk := by
    rintro rfl
    have repeated := List.nodup_middle.mp tiled.tiles.nodup
    exact (List.nodup_cons.mp repeated).1 (mem_usedChunks.mp olderMember).1
  refine (filled.kept older olderListed).trans (agree _ _ ?_)
  rcases tiled.tiles.apart (mem_usedChunks.mp olderListed).1 member olderDifferent with apart | apart
  · exact Or.inl apart
  · simp only [Segment.stop, headerSize] at apart ⊢
    omega

/-- In place, `Realloc` keeps the chunk or splits a free remainder off its end. -/
theorem shrink_spec (tiled : Tiled state (before ++ chunk :: after)) (inUse : chunk.tag = true)
    {realsize : Nat} (four : 4 ∣ realsize) (positive : 0 < realsize) (room : realsize + 4 < chunk.size) :
    size (setUsed (setSize state.memory (chunk.start + realsize) (chunk.size - realsize))
        (chunk.start + realsize) false) (chunk.start + realsize) = chunk.size - realsize ∧
      Tiled { state with
          memory := setSize (setUsed (setSize state.memory (chunk.start + realsize)
            (chunk.size - realsize)) (chunk.start + realsize) false) chunk.start realsize
          heapUsed := state.heapUsed - (chunk.size - realsize) }
        (before ++ ([⟨chunk.start, realsize, true⟩,
          ⟨chunk.start + realsize, chunk.size - realsize, false⟩] ++ after)) := by
  have member : chunk ∈ before ++ chunk :: after := by simp
  have header := tiled.headers chunk member
  have small := tiled.size_lt member
  have multiple := tiled.multiples chunk member
  have realLarge := Nat.le_of_dvd positive four
  refine ⟨?_, ?_⟩
  · rw [size_setUsed, size_setSize]
    omega
  · refine tiled.replace _ ?_ ?_ ?_ ?_ ?_ ?_
    · refine ⟨rfl, positive, rfl, by dsimp only; omega, ?_⟩
      simp only [Tiles, Segment.stop]
      omega
    · intro piece inPieces
      simp only [List.mem_cons, List.not_mem_nil, or_false] at inPieces
      rcases inPieces with rfl | rfl
      · refine ⟨?_, ?_⟩ <;> dsimp only
        · rw [size_setSize]
          omega
        · rw [used_setSize, used_setUsed_other _ (by omega), used_setSize_other _ (by omega), header.used,
            inUse]
      · refine ⟨?_, ?_⟩ <;> dsimp only
        · rw [size_setSize_other _ (by omega), size_setUsed, size_setSize]
          omega
        · rw [used_setSize_other _ (by omega), used_setUsed]
    · intro piece inPieces
      simp only [List.mem_cons, List.not_mem_nil, or_false] at inPieces
      rcases inPieces with rfl | rfl
      · exact four
      · exact Nat.dvd_sub multiple four
    · exact ((setSize_agreeOn _ (by omega)).trans (setUsed_agreeOn _ (by omega))).trans
        (setSize_agreeOn _ (by omega))
    · simp only [Segment.stop]
      exact ((setSize_agreeOn _ (by omega)).trans (setUsed_agreeOn _ (by omega))).trans
        (setSize_agreeOn _ (by omega))
    · rw [tiled.accounted]
      simp only [usedChunks_append, totalSize_append, usedChunks_cons_used inUse, totalSize_cons]
      simp only [usedChunks, List.filter_cons, List.filter_nil, Bool.false_eq_true, ↓reduceIte,
        totalSize_cons]
      simp only [totalSize, List.map_nil, List.sum_nil]
      omega

theorem realloc_spec (contract : SbrkContract sbrk state.heapStart)
    (tiled : Tiled state (before ++ chunk :: after)) (inUse : chunk.tag = true)
    {bytes : Nat} (nonzero : bytes ≠ 0) (bound : paddedSize bytes kMaxAlignment < 2147483648) :
    Returns (realloc sbrk (chunk.start + headerSize) bytes state)
      (fun fault => NoSpace fault ∨ fault = .notOnHeap) fun result =>
        ∃ chunks' block, Allocated state (before ++ after) bytes kMaxAlignment
          result.1 result.2 chunks' block ∧ Resized state chunk bytes result.1 chunks' block := by
  have member : chunk ∈ before ++ chunk :: after := by simp
  have header := tiled.headers chunk member
  have startFour := tiled.start_dvd member
  have small := tiled.size_lt member
  have topBound := tiled.heapBound
  have usedBound := tiled.heapUsed_le
  have topSmall := tiled.heapSize
  obtain ⟨lower, _, upper⟩ := tiled.tiles.bounds member
  have padded := paddedSize_ge bytes kMaxAlignment (by decide)
  have rounded : kMaxAlignment ∣ paddedSize bytes kMaxAlignment := Dvd.intro_left _ rfl
  have aligned : kMaxAlignment ∣ chunk.start + headerSize := by
    simp only [kMaxAlignment, headerSize]
    omega
  simp only [realloc]
  refine returns_require_or (Or.inr rfl) (fun _ => returns_require_or (Or.inr rfl) (fun _ => ?_))
  rw [if_neg nonzero, fromPointer_eq (chunk_pointer_lt tiled member), Nat.add_comm bytes,
    roundSize_eq (by decide) (by omega)]
  refine returns_require_bind (by rw [header.used, inUse])
    (returns_require_bind (Nat.mod_eq_zero_of_dvd rounded) ?_)
  rw [header.size]
  by_cases same : chunk.size = paddedSize bytes kMaxAlignment
  · rw [if_pos same]
    refine returns_pure.mpr ⟨_, chunk, ⟨tiled, ?_, inUse, rfl, same, aligned, rfl,
      fun _ _ => AgreeOn.refl _ _ _⟩, fun _ _ _ => rfl, fun differ => absurd rfl differ,
      fun _ smaller => absurd smaller (Nat.lt_irrefl _)⟩
    simp only [usedChunks_append, usedChunks_cons_used inUse]
    exact List.perm_middle
  · rw [if_neg same]
    by_cases shrinks : paddedSize bytes kMaxAlignment < chunk.size ∧
        wrap32 (paddedSize bytes kMaxAlignment + headerSize) < chunk.size
    · rw [if_pos shrinks]
      rw [wrap32_of_lt (by simp only [headerSize]; omega)] at shrinks
      simp only [Segment.stop] at upper
      obtain ⟨otherSize, newTiled⟩ := shrink_spec tiled inUse rounded
        (by simp only [headerSize] at padded; omega) shrinks.2
      have otherEq : offset chunk.start (paddedSize bytes kMaxAlignment) =
          chunk.start + paddedSize bytes kMaxAlignment := wrap32_of_lt (by omega)
      have restEq : sub32 chunk.size (paddedSize bytes kMaxAlignment) =
          chunk.size - paddedSize bytes kMaxAlignment := sub32_of_le (by omega) (by omega)
      have paid : chunk.size ≤ state.heapUsed := by
        rw [tiled.accounted]
        simp only [usedChunks_append, totalSize_append, usedChunks_cons_used inUse, totalSize_cons]
        omega
      rw [otherEq, restEq, otherSize]
      refine returns_require_bind (by omega) (returns_pure.mpr ?_)
      rw [size_setSize_other _ (by simp only [headerSize] at padded; omega), otherSize,
        sub32_of_le (by omega) (by omega)]
      have outside : ∀ low high, high ≤ chunk.start ∨
          (chunk.start + headerSize ≤ low ∧ high ≤ chunk.start + paddedSize bytes kMaxAlignment) ∨
          chunk.stop ≤ low → AgreeOn state.memory
          (setSize (setUsed (setSize state.memory (chunk.start + paddedSize bytes kMaxAlignment)
            (chunk.size - paddedSize bytes kMaxAlignment))
            (chunk.start + paddedSize bytes kMaxAlignment) false) chunk.start
            (paddedSize bytes kMaxAlignment)) low high := by
        intro low high outside
        simp only [Segment.stop, headerSize] at outside
        simp only [headerSize] at shrinks
        exact ((setSize_agreeOn _ (by omega)).trans (setUsed_agreeOn _ (by omega))).trans
          (setSize_agreeOn _ (by omega))
      refine ⟨_, ⟨chunk.start, paddedSize bytes kMaxAlignment, true⟩,
        ⟨newTiled, ?_, rfl, rfl, rfl, aligned, rfl, ?_⟩, ?_, fun differ => absurd rfl differ,
        fun _ _ => by simp⟩
      · simp only [usedChunks_append]
        exact List.perm_middle
      · intro older inOthers
        exact tiled.agreeOn_other (mem_usedChunks.mp inOthers).1 (outside _ _ (by omega))
          (outside _ _ (by omega))
      · intro offset requested _
        exact outside (chunk.start + headerSize + offset) (chunk.start + headerSize + offset + 1)
          (by omega) _ (Nat.le_refl _) (Nat.lt_succ_self _)
    · rw [if_neg shrinks]
      exact (slowRealloc_spec contract tiled inUse nonzero bound).weaken fun _ => Or.inl

theorem init_spec {memory : Memory} {heapStart heapEnd : Nat} (contract : SbrkContract sbrk heapStart)
    (aligned : 4 ∣ heapStart) (startBound : heapStart < 4294967296) :
    Returns (init sbrk memory heapStart heapEnd)
      (fun fault => fault = .heapEndBelowStart ∨ fault = .heapNotInitialized) fun state =>
        state.heapStart = heapStart ∧ ∃ first, Tiled state [first] ∧ first.tag = false := by
  simp only [init, initializeHeap, callSbrk]
  refine returns_require_or (Or.inl rfl) (fun _ => returns_require_or (Or.inr rfl) ?_)
  intro above
  rcases contract.grows 0 1 heapStart (by decide) (by decide) (Nat.le_refl _) startBound
      (by omega) with
    failed | ⟨enough, multiple, topSmall, totalSmall⟩
  · omega
  · generalize sbrk 0 1 heapStart = top at above enough multiple topSmall totalSmall ⊢
    rw [sub32_of_le (by omega) topSmall]
    refine returns_pure.mpr ⟨rfl, ⟨heapStart, top - heapStart, false⟩, ?_, rfl⟩
    refine ⟨tiles_singleton.mpr ⟨rfl, ?_, ?_⟩, ?_, ?_, aligned, topSmall, totalSmall, rfl⟩
    · dsimp only
      omega
    · simp only [Segment.stop]
      omega
    · intro chunk member
      rw [List.mem_singleton.mp member]
      refine ⟨?_, ?_⟩ <;> dsimp only
      · rw [size_setSize]
        omega
      · rw [used_setSize, used_setUsed]
    · intro chunk member
      rw [List.mem_singleton.mp member]
      exact multiple

end Allocator

end ToyKernel
