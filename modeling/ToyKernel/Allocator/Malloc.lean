import ToyKernel.Allocator.Chunks

/-!
What `Malloc` does to the chunks of a tiled heap: the search keeps them or appends
one free chunk, and the two splits rewrite the inside of one free chunk.
-/

namespace ToyKernel

open Library MallocHeader

/-- A successful `sbrk` extends the heap contiguously by a multiple of four bytes
and at least the requested amount; the whole heap stays below 2^31 bytes. It fails
with the null pointer, or with a sum that wrapped and is not above the old top. -/
structure SbrkContract (sbrk : SbrkFunc) (heapStart : Nat) : Prop where
  grows : ∀ call increment heap, 0 < increment → increment < 2147483648 → heapStart ≤ heap →
    heap < 4294967296 → heap - heapStart < 2147483648 → sbrk call increment heap ≤ heap ∨
      (heap + increment ≤ sbrk call increment heap ∧ 4 ∣ sbrk call increment heap - heap ∧
        sbrk call increment heap < 4294967296 ∧
        sbrk call increment heap - heapStart < 2147483648)

namespace Allocator

structure Extends (old new : Allocator) (limit : Nat) : Prop where
  heapStart : new.heapStart = old.heapStart
  heapEnd : new.heapEnd = old.heapEnd
  heapUsed : new.heapUsed = old.heapUsed
  heap : old.heap ≤ new.heap
  bytes : AgreeOn old.memory new.memory old.heapStart limit

theorem Extends.refl (state : Allocator) (limit : Nat) : Extends state state limit :=
  ⟨rfl, rfl, rfl, Nat.le_refl _, AgreeOn.refl _ _ _⟩

theorem Extends.trans {first second third : Allocator} {limit : Nat}
    (left : Extends first second limit) (right : Extends second third limit) :
    Extends first third limit := by
  refine ⟨right.heapStart.trans left.heapStart, right.heapEnd.trans left.heapEnd,
    right.heapUsed.trans left.heapUsed, left.heap.trans right.heap, left.bytes.trans ?_⟩
  rw [← left.heapStart]
  exact right.bytes

theorem Extends.weaken {old new : Allocator} {limit lower : Nat}
    (extension : Extends old new limit) (ordered : lower ≤ limit) : Extends old new lower :=
  ⟨extension.heapStart, extension.heapEnd, extension.heapUsed, extension.heap,
    extension.bytes.mono (Nat.le_refl _) ordered⟩

theorem canUseChunk_eq_some {memory : Memory} {realsize alignment chunk adjust : Nat}
    (found : canUseChunk memory realsize alignment chunk = some adjust) :
    used memory chunk = false ∧ realsize ≤ size memory chunk ∧
      adjust = (alignment - wrap32 (chunk + headerSize) % alignment) % alignment ∧
      (adjust = 0 ∨ wrap32 (adjust + realsize) ≤ size memory chunk) := by
  unfold canUseChunk at found
  split at found
  · simp at found
  · rename_i isFree
    split at found
    · simp at found
    · rename_i large
      dsimp only at found
      split at found
      · rename_i aligned
        simp only [Option.some.injEq] at found
        exact ⟨by simpa using isFree, by omega, found.symm, Or.inl (by omega)⟩
      · split at found
        · simp at found
        · rename_i fits
          simp only [Option.some.injEq] at found
          subst found
          exact ⟨by simpa using isFree, by omega, rfl, Or.inr (by omega)⟩

theorem canUseChunk_of_double (memory : Memory) (chunk : Nat) {realsize alignment : Nat}
    (isFree : used memory chunk = false) (large : 2 * realsize ≤ size memory chunk)
    (positive : 0 < alignment) (rounded : alignment ≤ realsize) :
    ∃ adjust, canUseChunk memory realsize alignment chunk = some adjust := by
  have bound := size_lt memory chunk
  have small := Nat.mod_lt (alignment - wrap32 (chunk + headerSize) % alignment) positive
  unfold canUseChunk
  rw [if_neg (by simp [isFree]), if_neg (by omega)]
  dsimp only
  split
  · exact ⟨_, rfl⟩
  · rw [wrap32_of_lt (by omega), if_neg (by omega)]
    exact ⟨_, rfl⟩

def NoSpace (fault : Fault) : Prop := fault = .noMemory ∨ fault = .heapDidNotIncrease

def Exhausted (sbrk : SbrkFunc) (realsize : Nat) (state : Allocator) (fault : Fault) : Prop :=
  (fault = .noMemory ∧ sbrk state.sbrkCalls realsize state.heap = 0) ∨
    (fault = .heapDidNotIncrease ∧ 0 < sbrk state.sbrkCalls realsize state.heap ∧
      sbrk state.sbrkCalls realsize state.heap ≤ state.heap)

/-- One of the next two calls of `sbrk` finds no space left. -/
def SbrkFails (sbrk : SbrkFunc) (realsize : Nat) (state : Allocator) (fault : Fault) : Prop :=
  Exhausted sbrk realsize state fault ∨ Exhausted sbrk realsize (callSbrk sbrk realsize state) fault

def OutOfMemory (sbrk : SbrkFunc) (chunks : List Chunk) (realsize alignment : Nat)
    (state : Allocator) (fault : Fault) : Prop :=
  SbrkFails sbrk realsize state fault ∧
    ∀ chunk ∈ chunks, canUseChunk state.memory realsize alignment chunk.start = none

theorem SbrkFails.noSpace {sbrk : SbrkFunc} {realsize : Nat} {state : Allocator} {fault : Fault}
    (fails : SbrkFails sbrk realsize state fault) : NoSpace fault := by
  rcases fails with (⟨null, _⟩ | ⟨below, _⟩) | ⟨null, _⟩ | ⟨below, _⟩
  · exact .inl null
  · exact .inr below
  · exact .inl null
  · exact .inr below

section
variable {sbrk : SbrkFunc} {state : Allocator} {chunks before after : List Chunk} {chunk : Chunk}
  {realsize alignment : Nat}

theorem growChunk_exhausted {next : Nat} {post : Allocator → Prop}
    (failed : sbrk state.sbrkCalls realsize state.heap ≤ state.heap) :
    Returns (growChunk sbrk realsize next state) (Exhausted sbrk realsize state) post := by
  unfold growChunk callSbrk
  dsimp only
  refine returns_require (fun null => .inl ⟨rfl, not_not.mp null⟩) fun nonzero => ?_
  exact returns_require (fun _ => .inr ⟨rfl, Nat.pos_of_ne_zero nonzero, failed⟩)
    fun above => absurd failed (Nat.not_le.mpr above)

theorem growChunk_append (contract : SbrkContract sbrk state.heapStart)
    (tiled : Tiled state chunks) (positive : 0 < realsize) (realSmall : realsize < 2147483648) :
    Returns (growChunk sbrk realsize state.heap state) (Exhausted sbrk realsize state) fun grown =>
      Extends state grown state.heap ∧ grown.sbrkCalls = state.sbrkCalls + 1 ∧
      grown.heap = sbrk state.sbrkCalls realsize state.heap ∧
      ∃ fresh : Chunk, fresh.start = state.heap ∧ fresh.tag = false ∧ realsize ≤ fresh.size ∧
        Tiled grown (chunks ++ [fresh]) := by
  have startBelow := tiled.tiles.le
  have topBound := tiled.heapBound
  have heapSmall := tiled.heapSize
  have memoryOutside : ∀ increase : Nat, AgreeOn state.memory
      (setUsed (setSize state.memory state.heap increase) state.heap false)
      state.heapStart state.heap := fun increase =>
    (setSize_agreeOn increase (by omega)).trans (setUsed_agreeOn false (by omega))
  rcases contract.grows state.sbrkCalls realsize state.heap positive realSmall startBelow topBound
      heapSmall with
    failed | ⟨enough, multiple, topSmall, totalSmall⟩
  · exact growChunk_exhausted failed
  · unfold growChunk callSbrk
    dsimp only
    generalize sbrk state.sbrkCalls realsize state.heap = top at enough multiple topSmall totalSmall
    have increaseEq : sub32 top state.heap = top - state.heap := sub32_of_le (by omega) topSmall
    refine returns_require_bind (by omega) (returns_require_bind (by omega) ?_)
    rw [increaseEq]
    refine returns_require_bind (by omega) ?_
    rw [if_pos rfl]
    simp only [pure_bind]
    have sizeEq : size (setUsed (setSize state.memory state.heap (top - state.heap)) state.heap false)
        state.heap = top - state.heap := by
      rw [size_setUsed, size_setSize]
      omega
    refine returns_require_bind ?_ ?_
    · rw [nextChunk, sizeEq, offset, wrap32_of_lt (by omega)]
      omega
    · refine returns_pure.mpr ⟨⟨rfl, rfl, rfl, by dsimp only; omega, memoryOutside _⟩, rfl, rfl,
        ⟨state.heap, top - state.heap, false⟩, rfl, rfl, by dsimp only; omega, ?_⟩
      refine ⟨?_, ?_, ?_, tiled.alignedStart, topSmall, totalSmall, ?_⟩
      · refine tiles_append.mpr ⟨state.heap, tiled.tiles, tiles_singleton.mpr ⟨rfl, ?_, ?_⟩⟩
        · dsimp only
          omega
        · dsimp only [Segment.stop]
          omega
      · intro piece member
        rcases List.mem_append.mp member with old | fresh
        · have large := tiled.size_ge old
          obtain ⟨lower, _, upper⟩ := tiled.tiles.bounds old
          simp only [Segment.stop] at upper
          exact (tiled.headers piece old).of_agreeOn (memoryOutside _) lower (by omega)
        · rw [List.mem_singleton.mp fresh]
          exact ⟨sizeEq, used_setUsed _ _ _⟩
      · intro piece member
        rcases List.mem_append.mp member with old | fresh
        · exact tiled.multiples piece old
        · rw [List.mem_singleton.mp fresh]
          exact multiple
      · rw [tiled.accounted]
        simp [usedChunks, totalSize]

theorem growChunk_extend (contract : SbrkContract sbrk state.heapStart)
    (tiled : Tiled state (before ++ [chunk])) (isFree : chunk.tag = false) (positive : 0 < realsize)
    (realSmall : realsize < 2147483648) :
    Returns (growChunk sbrk realsize chunk.start state) (Exhausted sbrk realsize state) fun grown =>
      Extends state grown chunk.start ∧ grown.sbrkCalls = state.sbrkCalls + 1 ∧
      ∃ fresh : Chunk, fresh.start = chunk.start ∧ fresh.tag = false ∧
        chunk.size + realsize ≤ fresh.size ∧ Tiled grown (before ++ [fresh]) := by
  have startBelow := tiled.tiles.le
  have topBound := tiled.heapBound
  have heapSmall := tiled.heapSize
  have large := tiled.size_ge (show chunk ∈ _ by simp)
  have header := tiled.headers chunk (by simp)
  obtain ⟨middle, front, back⟩ := tiles_append.mp tiled.tiles
  obtain ⟨start, sizePositive, stop⟩ := tiles_singleton.mp back
  have frontLe := front.le
  simp only [Segment.stop] at stop
  rcases contract.grows state.sbrkCalls realsize state.heap positive realSmall startBelow topBound
      heapSmall with
    failed | ⟨enough, multiple, topSmall, totalSmall⟩
  · exact growChunk_exhausted failed
  · unfold growChunk callSbrk
    dsimp only
    generalize sbrk state.sbrkCalls realsize state.heap = top at enough multiple topSmall totalSmall
    have increaseEq : sub32 top state.heap = top - state.heap := sub32_of_le (by omega) topSmall
    refine returns_require_bind (by omega) (returns_require_bind (by omega) ?_)
    rw [increaseEq]
    refine returns_require_bind (by omega) ?_
    rw [if_neg (by omega), header.size, wrap32_of_lt (by omega)]
    have outside : AgreeOn state.memory
        (setSize state.memory chunk.start (chunk.size + (top - state.heap)))
        state.heapStart chunk.start := setSize_agreeOn _ (by omega)
    have sizeEq : size (setSize state.memory chunk.start (chunk.size + (top - state.heap)))
        chunk.start = chunk.size + (top - state.heap) := by
      rw [size_setSize]
      omega
    refine returns_require_bind (by rw [used_setSize, header.used, isFree]) ?_
    simp only [pure_bind]
    refine returns_require_bind ?_ ?_
    · rw [nextChunk, sizeEq, offset, wrap32_of_lt (by omega)]
      omega
    · refine returns_pure.mpr ⟨⟨rfl, rfl, rfl, by dsimp only; omega, outside⟩, rfl,
        ⟨chunk.start, chunk.size + (top - state.heap), false⟩, rfl, rfl, by dsimp only; omega, ?_⟩
      refine ⟨?_, ?_, ?_, tiled.alignedStart, topSmall, totalSmall, ?_⟩
      · refine tiles_append.mpr ⟨middle, front, tiles_singleton.mpr ⟨start, ?_, ?_⟩⟩
        · dsimp only
          omega
        · dsimp only [Segment.stop]
          omega
      · intro piece member
        rcases List.mem_append.mp member with old | fresh
        · have pieceLarge := tiled.size_ge (show piece ∈ _ by simp [old])
          obtain ⟨lower, _, upper⟩ := front.bounds old
          simp only [Segment.stop] at upper
          exact (tiled.headers piece (by simp [old])).of_agreeOn outside lower (by omega)
        · rw [List.mem_singleton.mp fresh]
          exact ⟨sizeEq, by rw [used_setSize, header.used, isFree]⟩
      · intro piece member
        rcases List.mem_append.mp member with old | fresh
        · exact tiled.multiples piece (by simp [old])
        · rw [List.mem_singleton.mp fresh]
          exact Nat.dvd_add (tiled.multiples chunk (by simp)) multiple
      · rw [tiled.accounted]
        simp [usedChunks, isFree]

/-- Once the end of the heap was reached, at most one more growth is needed. -/
theorem findChunk_grown (contract : SbrkContract sbrk state.heapStart)
    (tiled : Tiled state (before ++ [chunk])) (isFree : chunk.tag = false)
    (large : realsize ≤ chunk.size) (positive : 0 < alignment) (rounded : alignment ≤ realsize)
    (realSmall : realsize < 2147483648) (fuel : Nat) (enough : 2 ≤ fuel) :
    Returns (findChunk sbrk realsize alignment fuel chunk.start true state)
      (Exhausted sbrk realsize state) fun result => Extends state result.1 chunk.start ∧ result.2.1 = chunk.start ∧
        (state.sbrkCalls ≤ result.1.sbrkCalls ∧ result.1.sbrkCalls ≤ state.sbrkCalls + 1) ∧
        canUseChunk result.1.memory realsize alignment chunk.start = some result.2.2 ∧
        ∃ fresh : Chunk, fresh.start = chunk.start ∧ fresh.tag = false ∧
          Tiled result.1 (before ++ [fresh]) := by
  obtain ⟨fuel, rfl⟩ : ∃ rest, fuel = rest + 2 := ⟨fuel - 2, by omega⟩
  have header := tiled.headers chunk (by simp)
  have sizePositive := (tiled.tiles.bounds (show chunk ∈ _ by simp)).2.1
  rw [findChunk]
  cases first : canUseChunk state.memory realsize alignment chunk.start with
  | some adjust =>
      exact returns_ok.mpr
        ⟨Extends.refl _ _, rfl, ⟨Nat.le_refl _, by dsimp only; omega⟩, first, chunk, rfl, isFree, tiled⟩
  | none =>
      refine returns_require_bind (by rw [header.size]; omega) ?_
      simp only [↓reduceIte, true_or]
      refine (growChunk_extend contract tiled isFree (by omega) realSmall).bind ?_
      rintro grown ⟨extension, calls, fresh, start, freshFree, freshLarge, grownTiled⟩
      have freshHeader := grownTiled.headers fresh (by simp)
      have freshBounds := grownTiled.tiles.bounds (show fresh ∈ _ by simp)
      simp only [Segment.stop] at freshBounds
      refine returns_require_bind (by omega) ?_
      obtain ⟨adjust, second⟩ := canUseChunk_of_double grown.memory chunk.start
        (by rw [← start, freshHeader.used, freshFree])
        (by rw [← start, freshHeader.size]; omega) positive rounded
      rw [findChunk, second]
      exact returns_ok.mpr
        ⟨extension, rfl, by dsimp only; omega, second, fresh, start, freshFree, grownTiled⟩

/-- The search ends at a free chunk that can hold the request: the first one of
the heap that can, or a fresh one behind all chunks when none can. -/
def Found (old : Allocator) (chunks : List Chunk) (realsize alignment : Nat)
    (result : Allocator × Nat × Nat) : Prop :=
  ∃ before chunk after, Tiled result.1 (before ++ chunk :: after) ∧ chunk.start = result.2.1 ∧
    chunk.tag = false ∧
    canUseChunk result.1.memory realsize alignment chunk.start = some result.2.2 ∧
    Extends old result.1 old.heap ∧
    (∀ earlier ∈ before, canUseChunk old.memory realsize alignment earlier.start = none) ∧
    ((result.1 = old ∧ chunks = before ++ chunk :: after) ∨
      (chunks = before ∧ after = [] ∧ result.1.sbrkCalls ≤ old.sbrkCalls + 2))

def Located (old : Allocator) (chunks : List Chunk) (result : Allocator × Nat × Nat) : Prop :=
  (result.1 = old ∧ result.2.1 ∈ chunks.map Segment.start) ∨
    (old.sbrkCalls < result.1.sbrkCalls ∧ result.2.1 = old.heap)

theorem findChunk_walk (contract : SbrkContract sbrk state.heapStart)
    (positive : 0 < alignment) (rounded : alignment ≤ realsize) (realSmall : realsize < 2147483648)
    (head : Chunk) (tail : List Chunk)
    (tiled : Tiled state (before ++ head :: tail))
    (unusable : ∀ earlier ∈ before,
      canUseChunk state.memory realsize alignment earlier.start = none)
    (fuel : Nat) (enough : tail.length + 3 ≤ fuel) :
    Returns (findChunk sbrk realsize alignment fuel head.start false state)
      (OutOfMemory sbrk (before ++ head :: tail) realsize alignment state) fun result =>
        Found state (before ++ head :: tail) realsize alignment result ∧
          Located state (before ++ head :: tail) result := by
  induction tail generalizing before head fuel with
  | nil =>
      obtain ⟨fuel, rfl⟩ : ∃ rest, fuel = rest + 1 := ⟨fuel - 1, by omega⟩
      have header := tiled.headers head (by simp)
      have large := tiled.size_ge (show head ∈ _ by simp)
      obtain ⟨middle, front, back⟩ := tiles_append.mp tiled.tiles
      have stop := (tiles_singleton.mp back).2.2
      rw [findChunk]
      cases here : canUseChunk state.memory realsize alignment head.start with
      | some adjust =>
          refine returns_ok.mpr ⟨⟨before, head, [], tiled, rfl, ?_, here, Extends.refl _ _, unusable,
            Or.inl ⟨rfl, rfl⟩⟩, Or.inl ⟨rfl, by simp⟩⟩
          rw [← header.used, (canUseChunk_eq_some here).1]
      | none =>
          refine returns_require_bind (by rw [header.size]; omega) ?_
          simp only [Bool.false_eq_true, ↓reduceIte, false_or]
          rw [tiled.nextChunk_eq (by simp), stop, if_pos rfl]
          have allUnusable : ∀ earlier ∈ before ++ [head],
              canUseChunk state.memory realsize alignment earlier.start = none := by
            intro earlier member
            rcases List.mem_append.mp member with old | same
            · exact unusable earlier old
            · rw [List.mem_singleton.mp same]
              exact here
          refine ((growChunk_append contract tiled (by omega) realSmall).weaken
            (fun _ failed => ⟨Or.inl failed, allUnusable⟩)).bind ?_
          rintro grown ⟨extension, calls, top, fresh, start, freshFree, freshLarge, grownTiled⟩
          refine returns_require_bind extension.heap ?_
          have later := findChunk_grown (by rw [extension.heapStart]; exact contract)
            grownTiled freshFree freshLarge positive rounded realSmall fuel
            (by simp only [List.length_nil] at enough; omega)
          rw [start] at later
          refine (later.weaken ?_).mono ?_
          · intro fault failed
            rw [Exhausted, calls, top] at failed
            exact ⟨Or.inr failed, allUnusable⟩
          rintro ⟨final, address, adjust⟩ ⟨finalExtension, same, ⟨someCalls, finalCalls⟩, usable, last,
            lastStart, lastFree, finalTiled⟩
          dsimp only at same someCalls finalCalls usable finalTiled finalExtension
          refine ⟨⟨before ++ [head], last, [], finalTiled, ?_, lastFree, ?_,
            extension.trans finalExtension, allUnusable, Or.inr ⟨rfl, rfl, by dsimp only; omega⟩⟩,
            Or.inr ⟨by dsimp only; omega, same⟩⟩
          · rw [lastStart, same]
          · rw [lastStart]
            exact usable
  | cons next tail ih =>
      obtain ⟨fuel, rfl⟩ : ∃ rest, fuel = rest + 1 := ⟨fuel - 1, by omega⟩
      have header := tiled.headers head (by simp)
      have large := tiled.size_ge (show head ∈ _ by simp)
      have nextBounds := tiled.tiles.bounds (show next ∈ _ by simp)
      obtain ⟨middle, front, start, _, nextStart, _⟩ := tiles_append.mp tiled.tiles
      rw [findChunk]
      cases here : canUseChunk state.memory realsize alignment head.start with
      | some adjust =>
          refine returns_ok.mpr ⟨⟨before, head, next :: tail, tiled, rfl, ?_, here, Extends.refl _ _,
            unusable, Or.inl ⟨rfl, rfl⟩⟩, Or.inl ⟨rfl, by simp⟩⟩
          rw [← header.used, (canUseChunk_eq_some here).1]
      | none =>
          simp only [Segment.stop] at nextBounds
          refine returns_require_bind (by rw [header.size]; omega) ?_
          simp only [Bool.false_eq_true, ↓reduceIte, false_or]
          rw [tiled.nextChunk_eq (by simp), ← nextStart, if_neg (by omega)]
          refine returns_require_bind (by omega) ?_
          have moved : before ++ head :: next :: tail = (before ++ [head]) ++ next :: tail := by simp
          rw [moved] at tiled ⊢
          refine ih next tiled ?_ _ (by simp only [List.length_cons] at enough; omega)
          intro earlier member
          rcases List.mem_append.mp member with old | same
          · exact unusable earlier old
          · rw [List.mem_singleton.mp same]
            exact here

theorem splitFront_eq {memory : Memory} (adjust : Nat) (header : HeaderAt memory chunk)
    (small : chunk.size < 2147483648) (bound : chunk.stop < 4294967296)
    (room : adjust + 4 ≤ chunk.size) (step : adjust = 0 ∨ 4 ≤ adjust) :
    ∃ result, splitFront adjust chunk.start memory = .ok (result, chunk.start + adjust) ∧
      size result (chunk.start + adjust) = chunk.size - adjust ∧
      (adjust ≠ 0 → HeaderAt result ⟨chunk.start, adjust, false⟩) ∧
      ∀ low high, high ≤ chunk.start ∨ chunk.stop ≤ low → AgreeOn memory result low high := by
  simp only [Segment.stop] at bound ⊢
  by_cases whole : adjust = 0
  · subst adjust
    exact ⟨memory, rfl, header.size, fun impossible => absurd rfl impossible,
      fun low high _ => AgreeOn.refl _ _ _⟩
  · have otherEq : offset chunk.start adjust = chunk.start + adjust := wrap32_of_lt (by omega)
    have restEq : sub32 (size memory chunk.start) adjust = chunk.size - adjust := by
      rw [header.size, sub32_of_le (by omega) (by omega)]
    refine ⟨setUsed (setSize (setSize memory (chunk.start + adjust) (chunk.size - adjust))
      chunk.start adjust) chunk.start false, ?_, ?_, ?_, ?_⟩
    · rw [splitFront, if_neg whole, otherEq, restEq, require_of (by simp only [headerSize]; omega), ok_bind]
      dsimp only
      rw [require_of (by rw [size_setSize]; omega)]
      rfl
    · rw [size_setUsed_other _ (by omega), size_setSize_other _ (by omega), size_setSize]
      omega
    · intro _
      refine ⟨?_, used_setUsed _ _ _⟩
      rw [size_setUsed, size_setSize]
      dsimp only
      omega
    · intro low high outside
      exact ((setSize_agreeOn _ (by omega)).trans (setSize_agreeOn _ (by omega))).trans
        (setUsed_agreeOn _ (by omega))

theorem splitTail_eq {memory : Memory} {address total : Nat} (realsize : Nat) (sizeEq : size memory address = total)
    (bound : address + total < 4294967296) (large : 4 ≤ realsize)
    (room : realsize ≤ total) (remainder : 4 ∣ total - realsize) :
    ∃ result, splitTail realsize address memory = .ok result ∧
      HeaderAt result ⟨address, realsize, true⟩ ∧
      (realsize ≠ total → HeaderAt result ⟨address + realsize, total - realsize, false⟩) ∧
      ∀ low high, high ≤ address ∨ address + total ≤ low → AgreeOn memory result low high := by
  have small : total < 2147483648 := by rw [← sizeEq]; exact size_lt memory address
  by_cases fits : total = realsize
  · subst fits
    refine ⟨setUsed memory address true, ?_, ⟨?_, used_setUsed _ _ _⟩,
      fun impossible => absurd rfl impossible, fun low high outside => setUsed_agreeOn _ (by omega)⟩
    · rw [splitTail, if_pos sizeEq]
      rfl
    · rw [size_setUsed, sizeEq]
  · have nextEq : offset address realsize = address + realsize := wrap32_of_lt (by omega)
    have restEq : sub32 total realsize = total - realsize := sub32_of_le room (by omega)
    have apart := Nat.le_of_dvd (by omega) remainder
    refine ⟨setUsed (setSize (setUsed (setSize memory (address + realsize) (total - realsize))
      (address + realsize) false) address realsize) address true, ?_, ⟨?_, used_setUsed _ _ _⟩, ?_, ?_⟩
    · rw [splitTail, sizeEq, if_neg fits, nextEq, restEq]
      dsimp only
      rw [if_neg (by simp only [headerSize]; omega), require_of (by rw [size_setUsed, size_setSize]; omega)]
      rfl
    · rw [size_setUsed, size_setSize]
      dsimp only
      omega
    · intro _
      refine ⟨?_, ?_⟩ <;> dsimp only
      · rw [size_setUsed_other _ (by omega), size_setSize_other _ (by omega), size_setUsed, size_setSize]
        omega
      · rw [used_setUsed_other _ (by omega), used_setSize_other _ (by omega), used_setUsed]
    · intro low high outside
      exact (((setSize_agreeOn _ (by omega)).trans (setUsed_agreeOn _ (by omega))).trans
        (setSize_agreeOn _ (by omega))).trans (setUsed_agreeOn _ (by omega))

def carve (chunk : Chunk) (adjust realsize : Nat) : List Chunk :=
  (if adjust = 0 then [] else [⟨chunk.start, adjust, false⟩]) ++
    ⟨chunk.start + adjust, realsize, true⟩ ::
      if realsize = chunk.size - adjust then []
      else [⟨chunk.start + adjust + realsize, chunk.size - adjust - realsize, false⟩]

theorem carve_tiles {adjust : Nat} (positive : 0 < realsize) (room : adjust + realsize ≤ chunk.size) :
    Tiles chunk.start (carve chunk adjust realsize) chunk.stop := by
  unfold carve Segment.stop
  refine tiles_append.mpr ⟨chunk.start + adjust, ?_, rfl, positive, ?_⟩
  · split
    · simp only [Tiles]
      omega
    · exact tiles_singleton.mpr ⟨rfl, by dsimp only; omega, rfl⟩
  · split
    · simp only [Tiles, Segment.stop]
      omega
    · exact tiles_singleton.mpr ⟨rfl, by dsimp only; omega, by simp only [Segment.stop]; omega⟩

theorem usedChunks_carve (chunk : Chunk) (adjust realsize : Nat) :
    usedChunks (carve chunk adjust realsize) = [⟨chunk.start + adjust, realsize, true⟩] := by
  unfold carve usedChunks
  split <;> split <;> simp

def paddedSize (bytes alignment : Nat) : Nat :=
  (headerSize + bytes + (alignment - 1)) / alignment * alignment

theorem paddedSize_ge (bytes alignment : Nat) (positive : 0 < alignment) :
    headerSize + bytes ≤ paddedSize bytes alignment := by
  have division := Nat.div_add_mod (headerSize + bytes + (alignment - 1)) alignment
  have small := Nat.mod_lt (headerSize + bytes + (alignment - 1)) positive
  rw [Nat.mul_comm] at division
  unfold paddedSize
  omega

theorem paddedSize_eq (bytes : Nat) {alignment : Nat} (positive : 0 < alignment) :
    paddedSize bytes alignment =
      if (headerSize + bytes) % alignment ≠ 0 then
        headerSize + bytes + (alignment - (headerSize + bytes) % alignment)
      else headerSize + bytes := by
  have division := Nat.div_add_mod (headerSize + bytes) alignment
  have small := Nat.mod_lt (headerSize + bytes) positive
  rw [Nat.mul_comm] at division
  by_cases exact : (headerSize + bytes) % alignment = 0
  · have quotient : (headerSize + bytes + (alignment - 1)) / alignment = (headerSize + bytes) / alignment := by
      rw [Nat.div_eq_iff positive]
      omega
    rw [if_neg (by simp [exact]), paddedSize, quotient]
    omega
  · have quotient : (headerSize + bytes + (alignment - 1)) / alignment =
        (headerSize + bytes) / alignment + 1 := by
      rw [Nat.div_eq_iff positive, Nat.add_mul]
      omega
    rw [if_pos exact, paddedSize, quotient, Nat.add_mul]
    omega

theorem roundSize_eq {bytes alignment : Nat} (positive : 0 < alignment)
    (bound : paddedSize bytes alignment < 4294967296) :
    roundSize (wrap32 (headerSize + bytes)) alignment = paddedSize bytes alignment := by
  have large := paddedSize_ge bytes alignment positive
  have padded := paddedSize_eq bytes positive
  rw [wrap32_of_lt (by omega), roundSize]
  by_cases exact : (headerSize + bytes) % alignment = 0
  · rw [if_neg (by simp [exact])] at padded ⊢
    exact padded.symm
  · rw [if_pos exact] at padded ⊢
    rw [← padded]
    exact wrap32_of_lt bound

structure Allocated (old : Allocator) (chunks : List Chunk) (bytes alignment : Nat)
    (new : Allocator) (pointer : Nat) (chunks' : List Chunk) (block : Chunk) : Prop where
  tiled : Tiled new chunks'
  added : (usedChunks chunks').Perm (block :: usedChunks chunks)
  inUse : block.tag = true
  address : pointer = block.start + headerSize
  size : block.size = paddedSize bytes alignment
  aligned : alignment ∣ pointer
  heapStart : new.heapStart = old.heapStart
  kept : ∀ chunk ∈ usedChunks chunks, AgreeOn old.memory new.memory chunk.start chunk.stop

theorem adjust_spec {address alignment adjust : Nat} (positive : 0 < alignment)
    (found : adjust = (alignment - address % alignment) % alignment) :
    adjust < alignment ∧ alignment ∣ address + adjust := by
  have small := Nat.mod_lt address positive
  refine ⟨by rw [found]; exact Nat.mod_lt _ positive, ?_⟩
  by_cases aligned : address % alignment = 0
  · rw [aligned, Nat.sub_zero, Nat.mod_self] at found
    rw [found]
    exact Nat.dvd_of_mod_eq_zero aligned
  · rw [Nat.mod_eq_of_lt (by omega)] at found
    have division := Nat.div_add_mod address alignment
    have sum : address + adjust = alignment * (address / alignment + 1) := by
      rw [Nat.mul_add]
      omega
    exact Dvd.intro _ sum.symm

theorem carve_spec {adjust : Nat} (tiled : Tiled state (before ++ chunk :: after))
    (isFree : chunk.tag = false)
    (usable : canUseChunk state.memory realsize alignment chunk.start = some adjust)
    (four : 4 ∣ alignment) (positive : 0 < alignment) (rounded : alignment ∣ realsize)
    (realPositive : 0 < realsize) (realSmall : realsize < 2147483648) :
    ∃ front result, splitFront adjust chunk.start state.memory = .ok (front, chunk.start + adjust) ∧
      realsize ≤ size front (chunk.start + adjust) ∧
      splitTail realsize (chunk.start + adjust) front = .ok result ∧
      size result (chunk.start + adjust) = realsize ∧
      alignment ∣ chunk.start + adjust + headerSize ∧
      chunk.start + adjust + headerSize < 4294967296 ∧
      (∀ low high, high ≤ chunk.start ∨ chunk.stop ≤ low → AgreeOn state.memory result low high) ∧
      Tiled { state with
          memory := result
          heapUsed := wrap32 (state.heapUsed + realsize) }
        (before ++ (carve chunk adjust realsize ++ after)) := by
  have member : chunk ∈ before ++ chunk :: after := by simp
  have header := tiled.headers chunk member
  have sizeSmall := tiled.size_lt member
  have startFour := tiled.start_dvd member
  have sizeFour := tiled.multiples chunk member
  obtain ⟨lower, sizePositive, upper⟩ := tiled.tiles.bounds member
  have topBound := tiled.heapBound
  have topSmall := tiled.heapSize
  have realFour : 4 ∣ realsize := four.trans rounded
  have realLarge := Nat.le_of_dvd realPositive realFour
  have alignSmall := Nat.le_of_dvd realPositive rounded
  obtain ⟨_, large, adjustEq, fits⟩ := canUseChunk_eq_some usable
  rw [header.size] at large fits
  simp only [Segment.stop] at upper
  have addressEq : wrap32 (chunk.start + headerSize) = chunk.start + headerSize :=
    wrap32_of_lt (by simp only [headerSize]; omega)
  rw [addressEq] at adjustEq
  obtain ⟨adjustSmall, aligned⟩ := adjust_spec positive adjustEq
  have adjustFour : 4 ∣ adjust := by
    have sumFour := four.trans aligned
    simp only [headerSize] at sumFour
    omega
  have room : adjust + realsize ≤ chunk.size := by
    rcases fits with zero | fits
    · omega
    · rwa [wrap32_of_lt (by omega)] at fits
  obtain ⟨front, frontOk, frontSize, frontHeader, frontAgree⟩ :=
    splitFront_eq adjust header sizeSmall (by simp only [Segment.stop]; omega) (by omega)
      (by omega)
  obtain ⟨result, tailOk, blockHeader, restHeader, tailAgree⟩ :=
    splitTail_eq realsize frontSize (by omega) (by omega) (by omega) (by omega)
  have agree : ∀ low high, high ≤ chunk.start ∨ chunk.stop ≤ low →
      AgreeOn state.memory result low high := by
    intro low high outside
    refine (frontAgree low high outside).trans (tailAgree low high ?_)
    simp only [Segment.stop] at outside
    omega
  refine ⟨front, result, frontOk, by omega, tailOk, blockHeader.size, ?_, ?_, agree, ?_⟩
  · rwa [Nat.add_right_comm] at aligned
  · simp only [headerSize]
    omega
  · refine tiled.replace _ (carve_tiles realPositive room) ?_ ?_ (agree _ _ (by omega))
      (agree _ _ (by omega)) ?_
    · intro piece inPieces
      simp only [carve, List.mem_append, List.mem_cons] at inPieces
      rcases inPieces with inFront | rfl | inRest
      · split at inFront
        · simp at inFront
        · rename_i nonzero
          rw [List.mem_singleton.mp inFront]
          have kept := tailAgree chunk.start (chunk.start + adjust) (by omega)
          exact (frontHeader nonzero).of_agreeOn kept (Nat.le_refl _) (by dsimp only; omega)
      · exact blockHeader
      · split at inRest
        · simp at inRest
        · rename_i different
          rw [List.mem_singleton.mp inRest]
          exact restHeader different
    · intro piece inPieces
      simp only [carve, List.mem_append, List.mem_cons] at inPieces
      rcases inPieces with inFront | rfl | inRest
      · split at inFront
        · simp at inFront
        · rw [List.mem_singleton.mp inFront]
          exact adjustFour
      · exact realFour
      · split at inRest
        · simp at inRest
        · rw [List.mem_singleton.mp inRest]
          dsimp only
          omega
    · have usedBound := tiled.heapUsed_le
      rw [wrap32_of_lt (by omega), tiled.accounted]
      simp only [usedChunks_append, usedChunks_carve, totalSize_append, totalSize_cons,
        usedChunks_cons_free isFree]
      simp only [totalSize, List.map_nil, List.sum_nil]
      omega

/-- `Malloc` of a size that rounds like `held` bytes places them in the chunk that
the search ends at. -/
theorem malloc_rounded (contract : SbrkContract sbrk state.heapStart) (tiled : Tiled state chunks)
    (nonempty : chunks ≠ []) {bytes held : Nat} (nonzero : bytes ≠ 0)
    (power : isPowerOf2 alignment = true)
    (rounds : roundSize (wrap32 (headerSize + bytes)) (max alignment kMaxAlignment) =
      paddedSize held (max alignment kMaxAlignment))
    (bound : paddedSize held (max alignment kMaxAlignment) < 2147483648) :
    Returns (malloc sbrk bytes alignment state)
      (OutOfMemory sbrk chunks (paddedSize held (max alignment kMaxAlignment))
        (max alignment kMaxAlignment) state) fun result =>
        ∃ found chunks' block,
          Found state chunks (paddedSize held (max alignment kMaxAlignment))
            (max alignment kMaxAlignment) found ∧
          Located state chunks found ∧ result.1.sbrkCalls = found.1.sbrkCalls ∧
          block.start = found.2.1 + found.2.2 ∧
          Allocated state chunks held (max alignment kMaxAlignment)
            result.1 result.2 chunks' block := by
  have four := four_dvd_max_alignment power
  have alignmentLarge : 4 ≤ max alignment kMaxAlignment := Nat.le_max_right _ _
  have alignmentNonzero : alignment ≠ 0 := by
    rintro rfl
    simp [isPowerOf2] at power
  unfold malloc
  refine returns_require_bind ⟨alignmentNonzero, power⟩ ?_
  rw [if_neg nonzero]
  dsimp only
  generalize max alignment kMaxAlignment = wide at bound four alignmentLarge rounds ⊢
  have padded := paddedSize_ge held wide (by omega)
  have rounded : wide ∣ paddedSize held wide := Dvd.intro_left _ rfl
  have wideLe := Nat.le_of_dvd (by simp only [headerSize] at padded; omega) rounded
  rw [rounds]
  refine returns_require_bind (Nat.mod_eq_zero_of_dvd rounded) ?_
  obtain ⟨head, tail, rfl⟩ := List.exists_cons_of_ne_nil nonempty
  have headStart : head.start = state.heapStart := tiled.tiles.1
  have lengthBound := tiled.tiles.length_le
  have search := findChunk_walk contract (by omega) wideLe bound head tail
    (show Tiled state ([] ++ head :: tail) from tiled) (by simp) state.searchFuel
    (by simp only [searchFuel, List.length_cons] at lengthBound ⊢; omega)
  rw [headStart] at search
  refine search.bind ?_
  rintro ⟨found, address, adjust⟩ ⟨isFound, located⟩
  obtain ⟨before, chunk, after, foundTiled, start, isFree, usable, extension, _, origin⟩ := id isFound
  dsimp only at foundTiled start usable extension origin ⊢
  subst start
  obtain ⟨front, result, frontOk, enough, tailOk, sizeEq, aligned, pointerBound, agree, newTiled⟩ :=
    carve_spec foundTiled isFree usable four (by omega) rounded
      (by simp only [headerSize] at padded; omega) bound
  rw [frontOk, ok_bind]
  dsimp only
  refine returns_require_bind enough ?_
  rw [tailOk, ok_bind, wrap32_of_lt pointerBound, sizeEq]
  refine returns_require_bind (Nat.mod_eq_zero_of_dvd aligned) ?_
  have usedEq : usedChunks (before ++ after) = usedChunks (head :: tail) := by
    rcases origin with ⟨_, same⟩ | ⟨same, empty, _⟩
    · rw [List.nil_append] at same
      rw [same, usedChunks_append, usedChunks_append, usedChunks_cons_free isFree]
    · rw [← same, empty, List.append_nil, List.nil_append]
  refine returns_pure.mpr ⟨(found, chunk.start, adjust), _,
    ⟨chunk.start + adjust, paddedSize held wide, true⟩, isFound, located, rfl, rfl, newTiled, ?_, rfl,
    rfl, rfl, aligned, extension.heapStart, ?_⟩
  · rw [← usedEq]
    simp only [usedChunks_append, usedChunks_carve]
    exact List.perm_middle
  · intro other inUse
    rw [← usedEq, mem_usedChunks] at inUse
    have oldMember : other ∈ head :: tail := by
      have listed := mem_usedChunks.mpr inUse
      rw [usedEq] at listed
      exact (mem_usedChunks.mp listed).1
    obtain ⟨lower, _, upper⟩ := tiled.tiles.bounds oldMember
    exact (extension.bytes.mono lower upper).trans
      (foundTiled.agreeOn_other inUse.1 (agree _ _ (by omega)) (agree _ _ (by omega)))

theorem malloc_zero {pointer : Nat} {new : Allocator}
    (run : malloc sbrk 0 alignment state = .ok (new, pointer)) : new = state ∧ pointer = 0 := by
  simp only [malloc, bind_eq_ok, ↓reduceIte, pure_eq_ok, Prod.mk.injEq] at run
  obtain ⟨_, _, same, null⟩ := run
  exact ⟨same.symm, null.symm⟩

/-- `Malloc` of a nonzero size returns a fresh aligned block or runs out of memory. -/
theorem malloc_spec (contract : SbrkContract sbrk state.heapStart) (tiled : Tiled state chunks)
    (nonempty : chunks ≠ []) {bytes : Nat} (nonzero : bytes ≠ 0)
    (power : isPowerOf2 alignment = true)
    (bound : paddedSize bytes (max alignment kMaxAlignment) < 2147483648) :
    Returns (malloc sbrk bytes alignment state) NoSpace fun result =>
      ∃ chunks' block, Allocated state chunks bytes (max alignment kMaxAlignment)
        result.1 result.2 chunks' block := by
  have positive : 0 < max alignment kMaxAlignment := by
    simp only [kMaxAlignment]
    omega
  refine ((malloc_rounded contract tiled nonempty nonzero power
    (roundSize_eq positive (by omega)) bound).weaken (fun _ failed => failed.1.noSpace)).mono ?_
  rintro result ⟨_, chunks', block, _, _, _, _, allocated⟩
  exact ⟨chunks', block, allocated⟩

end

end Allocator

end ToyKernel
