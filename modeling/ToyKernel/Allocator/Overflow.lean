import ToyKernel.Allocator.Resize

/-!
Requests at the limits of 32-bit arithmetic. A rounded size from 2^31 on never
finds a chunk, and one that wraps around is served as the small size it wraps to.
-/

namespace ToyKernel

open Library MallocHeader

namespace Allocator

/-- The rounded size fits 32 bits, or wraps to 2^31, which no chunk can hold. -/
def Representable (bytes alignment : Nat) : Prop :=
  paddedSize bytes alignment < 4294967296 ∨ (alignment = 2147483648 ∧ 4294967292 < bytes)

section
variable {bytes alignment : Nat}

theorem dvd_of_isPowerOf2 (power : isPowerOf2 alignment = true) (bound : alignment < 4294967296) :
    max alignment kMaxAlignment ∣ 4294967296 ∧ max alignment kMaxAlignment ≤ 2147483648 := by
  obtain ⟨exponent, rfl⟩ := isPowerOf2_iff.mp power
  have small : exponent < 32 := by
    by_contra large
    have grown := Nat.pow_le_pow_right (show 0 < 2 by decide) (show 32 ≤ exponent by omega)
    omega
  have half : 2 ^ exponent ≤ 2147483648 :=
    Nat.pow_le_pow_right (show 0 < 2 by decide) (show exponent ≤ 31 by omega)
  refine ⟨?_, by simp only [kMaxAlignment]; omega⟩
  rcases Nat.le_total (2 ^ exponent) kMaxAlignment with low | high
  · rw [max_eq_right low]
    decide
  · rw [max_eq_left high]
    exact pow_dvd_pow 2 (show exponent ≤ 32 by omega)

/-- Rounding reaches 2^32 when it leaves 32 bits at all, and then wraps to zero. -/
theorem roundSize_wraps (divides : alignment ∣ 4294967296) (positive : 0 < alignment)
    (fits : bytes ≤ 4294967292) (large : 4294967296 ≤ paddedSize bytes alignment) :
    roundSize (wrap32 (headerSize + bytes)) alignment = 0 := by
  have padded := paddedSize_eq bytes positive
  by_cases full : bytes = 4294967292
  · subst full
    have zero : wrap32 (headerSize + 4294967292) = 0 := by decide
    rw [zero, roundSize, Nat.zero_mod, if_neg (by simp)]
  · rw [wrap32_of_lt (by simp only [headerSize]; omega), roundSize]
    by_cases whole : (headerSize + bytes) % alignment = 0
    · rw [if_neg (by simp [whole])] at padded
      simp only [headerSize] at padded
      omega
    · rw [if_pos whole] at padded ⊢
      rw [← padded]
      have ceiling : paddedSize bytes alignment ≤ 4294967296 := by
        obtain ⟨quotient, product⟩ := divides
        have below : (headerSize + bytes) / alignment < quotient := by
          rw [Nat.div_lt_iff_lt_mul positive, Nat.mul_comm, ← product]
          simp only [headerSize]
          omega
        have division := Nat.div_add_mod (headerSize + bytes) alignment
        have remainder := Nat.mod_lt (headerSize + bytes) positive
        have next : alignment * ((headerSize + bytes) / alignment + 1) ≤ alignment * quotient :=
          Nat.mul_le_mul_left alignment below
        rw [Nat.mul_add, ← product] at next
        omega
      have exact : paddedSize bytes alignment = 4294967296 := by omega
      rw [exact]
      rfl

theorem roundSize_tiny (atLeast : 4 ≤ alignment) (bound : alignment < 4294967296)
    (beyond : 4294967292 < bytes) (bytesBound : bytes < 4294967296) :
    roundSize (wrap32 (headerSize + bytes)) alignment = alignment := by
  have wrapped : wrap32 (headerSize + bytes) = bytes - 4294967292 := by
    unfold wrap32
    simp only [headerSize]
    omega
  rw [wrapped, roundSize, Nat.mod_eq_of_lt (by omega), if_pos (by omega), wrap32_of_lt (by omega)]
  omega

end

section
variable {sbrk : SbrkFunc} {state : Allocator} {bytes alignment : Nat}

theorem findChunk_large {realsize : Nat} (large : 2147483648 ≤ realsize) (fuel chunk : Nat)
    (reachedHeapEnd : Bool) (state : Allocator) :
    Returns (findChunk sbrk realsize alignment fuel chunk reachedHeapEnd state) (fun _ => True)
      fun _ => False := by
  induction fuel generalizing chunk reachedHeapEnd state with
  | zero => exact returns_error.mpr trivial
  | succ fuel ih =>
      have unusable : canUseChunk state.memory realsize alignment chunk = none := by
        have small := size_lt state.memory chunk
        unfold canUseChunk
        split
        · rfl
        · rw [if_pos (by omega)]
      rw [findChunk, unusable]
      refine returns_require_or trivial fun _ => ?_
      dsimp only
      generalize (if reachedHeapEnd = true then chunk else nextChunk state.memory chunk) = next
      by_cases atTop : reachedHeapEnd = true ∨ next = state.heap
      · rw [if_pos atTop]
        refine (returns_any _).bind fun grown _ => ?_
        refine returns_require_or trivial fun _ => ?_
        exact ih next true grown
      · rw [if_neg atTop]
        refine returns_require_or trivial fun _ => ?_
        exact ih next false state

theorem malloc_large (nonzero : bytes ≠ 0)
    (large : 2147483648 ≤ roundSize (wrap32 (headerSize + bytes)) (max alignment kMaxAlignment)) :
    Returns (malloc sbrk bytes alignment state) (fun _ => True) fun _ => False := by
  unfold malloc
  refine returns_require_or trivial fun _ => ?_
  rw [if_neg nonzero]
  refine returns_require_or trivial fun _ => ?_
  exact (findChunk_large large _ _ _ state).bind fun _ impossible => impossible.elim

theorem realloc_large (pointer : Nat) (nonzero : bytes ≠ 0)
    (large : 2147483648 ≤ roundSize (wrap32 (headerSize + bytes)) kMaxAlignment) :
    Returns (realloc sbrk pointer bytes state) (fun _ => True) fun _ => False := by
  have small := size_lt state.memory (fromPointer pointer)
  unfold realloc
  refine returns_require_or trivial fun _ => returns_require_or trivial fun _ => ?_
  rw [if_neg nonzero]
  refine returns_require_or trivial fun _ => returns_require_or trivial fun _ => ?_
  rw [Nat.add_comm bytes, if_neg (by omega), if_neg (by omega)]
  unfold slowRealloc
  exact (malloc_large nonzero (by rw [max_self]; exact large)).bind fun _ impossible => impossible.elim

theorem Representable.large (atLeast : 4 ≤ alignment) (bytesBound : bytes < 4294967296)
    (represented : Representable bytes alignment) (large : 2147483648 ≤ paddedSize bytes alignment) :
    2147483648 ≤ roundSize (wrap32 (headerSize + bytes)) alignment := by
  rcases represented with fits | ⟨rfl, beyond⟩
  · rw [roundSize_eq (by omega) fits]
    exact large
  · rw [roundSize_tiny atLeast (by decide) beyond bytesBound]

end

def Nonzero (state : Allocator) : Prop :=
  ∃ fuel visited, walk state.memory state.heap fuel state.heapStart = some visited ∧
    ∀ chunk ∈ visited, MallocHeader.size state.memory chunk ≠ 0

theorem tiled_nonzero {state : Allocator} {chunks : List Chunk} (tiled : Tiled state chunks) :
    Nonzero state := by
  refine ⟨chunks.length + 1, chunks.map Segment.start,
    walk_tiles chunks tiled.tiles fun chunk member => tiled.nextChunk_eq member, ?_⟩
  intro start visited
  obtain ⟨chunk, member, rfl⟩ := List.mem_map.mp visited
  have positive := (tiled.tiles.bounds member).2.1
  rw [(tiled.headers chunk member).size]
  omega

namespace Session

def Answerable (session : Session) : Operation → Prop
  | .malloc bytes alignment => bytes < 4294967296 ∧ alignment < 4294967296 ∧
      isPowerOf2 alignment = true ∧ Representable bytes (max alignment kMaxAlignment)
  | .calloc count bytes =>
      count * bytes < 4294967296 ∧ Representable (count * bytes) kMaxAlignment
  | .realloc pointer bytes =>
      pointer ∈ session.pointers ∧ bytes < 4294967296 ∧ Representable bytes kMaxAlignment
  | .free pointer => pointer ∈ session.pointers
  | .write pointer offset _ =>
      pointer ∈ session.pointers ∧ offset < payloadSize session.allocator.memory pointer

def requests (sbrk : SbrkFunc) (heapStart : Nat) : System Session Operation where
  initial := (runs sbrk heapStart).initial
  step session operation after :=
    session.Answerable operation ∧ session.perform sbrk operation = .ok after

section
variable {sbrk : SbrkFunc} {heapStart : Nat} {session : Session}

/-- Only requests below 2^31 are served, so the larger ones reach no new session. -/
theorem requests_reachable (reachable : (requests sbrk heapStart).Reachable session) :
    (runs sbrk heapStart).Reachable session := by
  induction reachable with
  | start isInitial => exact .start isInitial
  | @next session operation after _ stepped ih =>
      obtain ⟨answerable, performed⟩ := stepped
      cases operation with
      | malloc bytes alignment =>
          obtain ⟨bytesBound, _, power, represented⟩ := answerable
          by_cases small : paddedSize bytes (max alignment kMaxAlignment) < 2147483648
          · have stepped : (runs sbrk heapStart).step session (.malloc bytes alignment) after :=
              ⟨⟨power, small⟩, performed⟩
            exact ih.next stepped
          · simp only [perform, bind_eq_ok, pure_eq_ok] at performed
            obtain ⟨⟨new, pointer⟩, run, rfl⟩ := performed
            by_cases empty : bytes = 0
            · subst empty
              obtain ⟨rfl, rfl⟩ := malloc_zero run
              exact ih
            · exact ((malloc_large empty (represented.large (Nat.le_max_right _ _) bytesBound
                (by omega))).of_ok run).elim
      | calloc count bytes =>
          by_cases small : paddedSize (count * bytes) kMaxAlignment < 2147483648
          · have stepped : (runs sbrk heapStart).step session (.calloc count bytes) after :=
              ⟨small, performed⟩
            exact ih.next stepped
          · simp only [perform, calloc, bind_eq_ok, pure_eq_ok] at performed
            obtain ⟨_, ⟨⟨new, pointer⟩, run, rfl⟩, rfl⟩ := performed
            rw [wrap32_of_lt answerable.1] at run
            have nonzero : count * bytes ≠ 0 := by
              intro zero
              rw [zero] at small
              exact small (by decide)
            have large := answerable.2.large (by decide) answerable.1 (by omega)
            exact ((malloc_large nonzero (by rw [max_self]; exact large)).of_ok run).elim
      | realloc pointer bytes =>
          obtain ⟨isLive, bytesBound, represented⟩ := answerable
          by_cases small : paddedSize bytes kMaxAlignment < 2147483648
          · have stepped : (runs sbrk heapStart).step session (.realloc pointer bytes) after :=
              ⟨⟨isLive, small⟩, performed⟩
            exact ih.next stepped
          · have nonzero : bytes ≠ 0 := by
              rintro rfl
              exact small (by decide)
            have large := represented.large (by decide) bytesBound (by omega)
            simp only [perform, bind_eq_ok] at performed
            obtain ⟨_, run, _⟩ := performed
            exact ((realloc_large pointer nonzero large).of_ok run).elim
      | free pointer =>
          have stepped : (runs sbrk heapStart).step session (.free pointer) after :=
            ⟨answerable, performed⟩
          exact ih.next stepped
      | write pointer offset byte =>
          have stepped : (runs sbrk heapStart).step session (.write pointer offset byte) after :=
            ⟨answerable, performed⟩
          exact ih.next stepped

theorem Permitted.answerable {operation : Operation} (permitted : session.Permitted operation) :
    session.Answerable operation := by
  cases operation with
  | malloc bytes alignment =>
      obtain ⟨power, small⟩ := permitted
      have atLeast : 4 ≤ max alignment kMaxAlignment := Nat.le_max_right _ _
      have padded := paddedSize_ge bytes (max alignment kMaxAlignment) (by omega)
      have wide := Nat.le_of_dvd (show 0 < paddedSize bytes (max alignment kMaxAlignment) by
        simp only [headerSize] at padded; omega) (Dvd.intro_left _ rfl)
      exact ⟨by omega, by omega, power, Or.inl (by omega)⟩
  | calloc count bytes =>
      have padded := paddedSize_ge (count * bytes) kMaxAlignment (by decide)
      simp only [Permitted] at permitted
      exact ⟨by omega, Or.inl (by omega)⟩
  | realloc pointer bytes =>
      obtain ⟨isLive, small⟩ := permitted
      have padded := paddedSize_ge bytes kMaxAlignment (by decide)
      exact ⟨isLive, by omega, Or.inl (by omega)⟩
  | free pointer => exact permitted
  | write pointer offset byte => exact permitted

theorem requests_of_runs (reachable : (runs sbrk heapStart).Reachable session) :
    (requests sbrk heapStart).Reachable session := by
  induction reachable with
  | start isInitial => exact .start isInitial
  | @next session operation after _ stepped ih =>
      have answered : (requests sbrk heapStart).step session operation after :=
        ⟨Permitted.answerable stepped.1, stepped.2⟩
      exact ih.next answered

end

end Session

def servingSbrk (heapStart room : Nat) : SbrkFunc := fun _ increment heap =>
  if heap = heapStart ∧ increment ≤ room then heapStart + room else 0

def oneChunk (heapStart room : Nat) : Allocator where
  memory := setSize (setUsed (fun _ => 0) heapStart false) heapStart room
  heap := heapStart + room
  heapUsed := 0
  heapStart := heapStart
  heapEnd := 0
  sbrkCalls := 1

section
variable {heapStart room bytes alignment realsize : Nat}

theorem servingSbrk_contract (four : 4 ∣ room) (small : room < 2147483648)
    (bound : heapStart + room < 4294967296) : SbrkContract (servingSbrk heapStart room) heapStart := by
  constructor
  intro call increment heap positive _ above heapBound heapSize
  unfold servingSbrk
  split
  · rename_i served
    exact Or.inr ⟨by omega, by omega, by omega, by omega⟩
  · exact Or.inl (Nat.zero_le _)

theorem oneChunk_reachable (atLeast : 4 ≤ room) (bound : heapStart + room < 4294967296) :
    (Session.runs (servingSbrk heapStart room) heapStart).Reachable ⟨oneChunk heapStart room, []⟩ := by
  refine .start ⟨rfl, fun _ => 0, 0, ?_⟩
  have top : servingSbrk heapStart room 0 1 heapStart = heapStart + room := by
    rw [servingSbrk, if_pos ⟨rfl, by omega⟩]
  simp only [init, initializeHeap, callSbrk, top]
  rw [require_of (by simp), ok_bind, require_of (by omega), ok_bind,
    sub32_of_le (by omega) bound, Nat.add_sub_cancel_left]
  rfl

theorem splitTail_size {memory : Memory} {chunk : Nat} (held : MallocHeader.size memory chunk = room)
    (fits : room = realsize ∨ realsize + 4 ≤ room) (bound : chunk + room < 4294967296) :
    ∃ result, splitTail realsize chunk memory = .ok result ∧
      MallocHeader.size result chunk = realsize := by
  have small : room < 2147483648 := held ▸ size_lt memory chunk
  rcases fits with rfl | fits
  · refine ⟨setUsed memory chunk true, ?_, by rw [size_setUsed, held]⟩
    rw [splitTail, if_pos held]
    rfl
  · have nextEq : offset chunk realsize = chunk + realsize := wrap32_of_lt (by omega)
    have restEq : sub32 room realsize = room - realsize := sub32_of_le (by omega) (by omega)
    refine ⟨setUsed (setSize (setUsed (setSize memory (chunk + realsize) (room - realsize))
      (chunk + realsize) false) chunk realsize) chunk true, ?_, ?_⟩
    · rw [splitTail, held, if_neg (by omega), nextEq, restEq]
      dsimp only
      rw [if_neg (by simp only [headerSize]; omega),
        require_of (by rw [size_setUsed, size_setSize]; omega)]
      rfl
    · rw [size_setUsed, size_setSize]
      omega

/-- On a heap of one aligned free chunk, a size that fits is served from its start. -/
theorem malloc_oneChunk (nonzero : bytes ≠ 0) (power : isPowerOf2 alignment = true)
    (rounds : roundSize (wrap32 (headerSize + bytes)) (max alignment kMaxAlignment) = realsize)
    (rounded : max alignment kMaxAlignment ∣ realsize)
    (aligned : max alignment kMaxAlignment ∣ heapStart + headerSize)
    (fits : room = realsize ∨ realsize + 4 ≤ room) (atLeast : 4 ≤ room) (small : room < 2147483648)
    (bound : heapStart + room < 4294967296) (sbrk : SbrkFunc) :
    ∃ after, malloc sbrk bytes alignment (oneChunk heapStart room) = .ok (after, heapStart + headerSize) ∧
      MallocHeader.size after.memory heapStart = realsize := by
  have alignmentNonzero : alignment ≠ 0 := by
    rintro rfl
    simp [isPowerOf2] at power
  have held : MallocHeader.size (oneChunk heapStart room).memory heapStart = room := by
    simp only [oneChunk, size_setSize]
    omega
  have isFree : used (oneChunk heapStart room).memory heapStart = false := by
    simp only [oneChunk, used_setSize, used_setUsed]
  have pointerEq : wrap32 (heapStart + headerSize) = heapStart + headerSize :=
    wrap32_of_lt (by simp only [headerSize]; omega)
  have usable : canUseChunk (oneChunk heapStart room).memory realsize (max alignment kMaxAlignment)
      heapStart = some 0 := by
    unfold canUseChunk
    rw [if_neg (by simp [isFree]), held, if_neg (by omega), pointerEq]
    dsimp only
    rw [Nat.mod_eq_zero_of_dvd aligned, Nat.sub_zero, Nat.mod_self]
    rfl
  have found : findChunk sbrk realsize (max alignment kMaxAlignment) (oneChunk heapStart room).searchFuel
      heapStart false (oneChunk heapStart room) = .ok (oneChunk heapStart room, heapStart, 0) := by
    rw [searchFuel, findChunk, usable]
  obtain ⟨result, split, sizeEq⟩ := splitTail_size held fits bound
  refine ⟨{ oneChunk heapStart room with
    memory := result
    heapUsed := wrap32 ((oneChunk heapStart room).heapUsed + MallocHeader.size result heapStart) },
    ?_, sizeEq⟩
  unfold malloc
  rw [require_of ⟨alignmentNonzero, power⟩, ok_bind, if_neg nonzero]
  dsimp only
  rw [rounds, require_of (Nat.mod_eq_zero_of_dvd rounded), ok_bind]
  have start : (oneChunk heapStart room).heapStart = heapStart := rfl
  rw [start, found, ok_bind]
  dsimp only
  rw [splitFront, if_pos rfl]
  simp only [pure_bind]
  rw [held, require_of (by omega), ok_bind, split, ok_bind, pointerEq,
    require_of (Nat.mod_eq_zero_of_dvd aligned), ok_bind]
  rfl

end

def MallocHonours (bytes alignment : Nat) : Prop :=
  ∀ sbrk heapStart, SbrkContract sbrk heapStart → 4 ∣ heapStart → heapStart < 4294967296 →
    ∀ session, (Session.requests sbrk heapStart).Reachable session → ∀ after pointer,
      session.allocator.malloc sbrk bytes alignment = .ok (after, pointer) → pointer ≠ 0 →
        bytes ≤ payloadSize after.memory pointer ∧ Nonzero after

def ReallocHonours (bytes : Nat) : Prop :=
  ∀ sbrk heapStart, SbrkContract sbrk heapStart → 4 ∣ heapStart → heapStart < 4294967296 →
    ∀ session, (Session.requests sbrk heapStart).Reachable session →
      ∀ pointer ∈ session.pointers, ∀ after moved,
        session.allocator.realloc sbrk pointer bytes = .ok (after, moved) → moved ≠ 0 →
          bytes ≤ payloadSize after.memory moved ∧ Nonzero after

section
variable {bytes alignment : Nat}

theorem Allocated.honours {old new : Allocator} {chunks chunks' : List Chunk} {pointer : Nat}
    {block : Chunk} (positive : 0 < alignment)
    (allocated : Allocated old chunks bytes alignment new pointer chunks' block) :
    bytes ≤ payloadSize new.memory pointer ∧ Nonzero new := by
  have padded := paddedSize_ge bytes alignment positive
  refine ⟨?_, tiled_nonzero allocated.tiled⟩
  rw [payloadSize, allocated.chunk_eq, (allocated.tiled.headers block allocated.block_mem).size,
    allocated.size]
  omega

theorem Representable.malloc_honours (power : isPowerOf2 alignment = true)
    (bytesBound : bytes < 4294967296)
    (represented : Representable bytes (max alignment kMaxAlignment)) :
    MallocHonours bytes alignment := by
  intro sbrk heapStart contract four startBound session reachable after pointer run nonnull
  obtain ⟨chunks, consistent⟩ :=
    reachable_consistent contract four startBound (Session.requests_reachable reachable)
  have atLeast : 4 ≤ max alignment kMaxAlignment := Nat.le_max_right _ _
  have nonzero : bytes ≠ 0 := by
    rintro rfl
    exact nonnull (malloc_zero run).2
  by_cases small : paddedSize bytes (max alignment kMaxAlignment) < 2147483648
  · have spec := malloc_spec (by rw [consistent.start]; exact contract) consistent.tiled
      consistent.nonempty nonzero power small
    obtain ⟨chunks', block, allocated⟩ := spec.of_ok run
    exact allocated.honours (by omega)
  · exact ((malloc_large nonzero (represented.large atLeast bytesBound (by omega))).of_ok run).elim

theorem Representable.realloc_honours (bytesBound : bytes < 4294967296)
    (represented : Representable bytes kMaxAlignment) : ReallocHonours bytes := by
  intro sbrk heapStart contract four startBound session reachable pointer isLive after moved run nonnull
  obtain ⟨chunks, consistent⟩ :=
    reachable_consistent contract four startBound (Session.requests_reachable reachable)
  obtain ⟨before, chunk, rest, rfl, inUse, rfl⟩ := consistent.owner isLive
  have nonzero : bytes ≠ 0 := by
    rintro rfl
    simp only [realloc, bind_eq_ok, ↓reduceIte, pure_eq_ok, Prod.mk.injEq] at run
    obtain ⟨_, _, _, _, _, zero⟩ := run
    exact nonnull zero.symm
  by_cases small : paddedSize bytes kMaxAlignment < 2147483648
  · have spec := realloc_spec (by rw [consistent.start]; exact contract) consistent.tiled inUse
      nonzero small
    obtain ⟨chunks', block, allocated, _⟩ := spec.of_ok run
    exact allocated.honours (by decide)
  · exact ((realloc_large _ nonzero (represented.large (by decide) bytesBound (by omega))).of_ok run).elim

theorem rounds_small (power : isPowerOf2 alignment = true) (bytesBound : bytes < 4294967296)
    (alignmentBound : alignment < 4294967296)
    (wraps : ¬Representable bytes (max alignment kMaxAlignment)) :
    ∃ realsize, roundSize (wrap32 (headerSize + bytes)) (max alignment kMaxAlignment) = realsize ∧
      (realsize = 0 ∨ (realsize = max alignment kMaxAlignment ∧ realsize ≤ 1073741824)) ∧
      1073741824 < bytes := by
  obtain ⟨divides, wideBound⟩ := dvd_of_isPowerOf2 power alignmentBound
  have atLeast : 4 ≤ max alignment kMaxAlignment := Nat.le_max_right _ _
  simp only [Representable, not_or, not_and] at wraps
  generalize max alignment kMaxAlignment = wide at divides wideBound atLeast wraps ⊢
  have quarter : wide ≠ 2147483648 → wide ≤ 1073741824 := by
    intro different
    obtain ⟨exponent, _, rfl⟩ := (Nat.dvd_prime_pow Nat.prime_two).mp (show wide ∣ 2 ^ 32 from divides)
    have below : exponent ≤ 31 := (Nat.pow_le_pow_iff_right (show 1 < 2 by decide)).mp wideBound
    have notLast : exponent ≠ 31 := by
      rintro rfl
      exact different (by decide)
    exact Nat.pow_le_pow_right (by decide) (show exponent ≤ 30 by omega)
  by_cases beyond : 4294967292 < bytes
  · refine ⟨wide, roundSize_tiny atLeast (by omega) beyond bytesBound, Or.inr ⟨rfl, ?_⟩, by omega⟩
    exact quarter fun half => wraps.2 half beyond
  · refine ⟨0, roundSize_wraps divides (by omega) (by omega) (by omega), Or.inl rfl, ?_⟩
    have padded := paddedSize_eq bytes (show 0 < wide by omega)
    have remainder := Nat.mod_lt (headerSize + bytes) (show 0 < wide by omega)
    have ceiling : paddedSize bytes wide ≤ headerSize + bytes + wide := by
      rw [padded]
      split
      · omega
      · omega
    simp only [headerSize] at ceiling
    omega

theorem malloc_honours_iff (power : isPowerOf2 alignment = true) (bytesBound : bytes < 4294967296)
    (alignmentBound : alignment < 4294967296) :
    MallocHonours bytes alignment ↔ Representable bytes (max alignment kMaxAlignment) := by
  refine ⟨?_, fun represented => represented.malloc_honours power bytesBound⟩
  intro honours
  by_contra wraps
  obtain ⟨realsize, rounds, small, large⟩ := rounds_small power bytesBound alignmentBound wraps
  obtain ⟨_, wideBound⟩ := dvd_of_isPowerOf2 power alignmentBound
  have four := four_dvd_max_alignment power
  have atLeast : 4 ≤ max alignment kMaxAlignment := Nat.le_max_right _ _
  have rounded : max alignment kMaxAlignment ∣ realsize := by
    rcases small with rfl | ⟨rfl, _⟩
    · exact Nat.dvd_zero _
    · exact Nat.dvd_refl _
  -- The payload of a chunk just below a multiple of the alignment is aligned.
  obtain ⟨heapStart, startFour, positive, aligned, bound⟩ : ∃ heapStart, 4 ∣ heapStart ∧
      0 < heapStart ∧ max alignment kMaxAlignment ∣ heapStart + headerSize ∧
      heapStart + max realsize 8 < 4294967296 := by
    generalize max alignment kMaxAlignment = wide at wideBound four atLeast small ⊢
    by_cases quarter : wide ≤ 1073741824
    · refine ⟨2 * wide - 4, by omega, by omega, ?_, by omega⟩
      simp only [headerSize]
      rw [Nat.sub_add_cancel (by omega)]
      exact Nat.dvd_mul_left _ _
    · refine ⟨wide - 4, by omega, by omega, ?_, by omega⟩
      simp only [headerSize]
      rw [Nat.sub_add_cancel atLeast]
  have realFour : 4 ∣ realsize := four.trans rounded
  have roomFour : 4 ∣ max realsize 8 := by omega
  obtain ⟨after, run, sizeEq⟩ := malloc_oneChunk (by omega) power rounds rounded aligned
    (show max realsize 8 = realsize ∨ realsize + 4 ≤ max realsize 8 by omega) (by omega)
    (by omega) bound (servingSbrk heapStart (max realsize 8))
  have reachable := Session.requests_of_runs
    (oneChunk_reachable (show 4 ≤ max realsize 8 by omega) bound)
  obtain ⟨room, _⟩ := honours _ heapStart (servingSbrk_contract roomFour (by omega) bound) startFour
    (by omega) _ reachable after _ run (by omega)
  rw [payloadSize, fromPointer_eq (by simp only [headerSize]; omega), sizeEq] at room
  omega

theorem userHeap_chunk : ∃ session : Session,
    (Session.runs (usbrk 8192) 4096).Reachable session ∧ 4100 ∈ session.pointers ∧
      session.allocator.heapStart = 4096 ∧ session.allocator.heapEnd = 8192 ∧
      used session.allocator.memory 4096 = true ∧
      MallocHeader.size session.allocator.memory 4096 = 16 := by
  have evaluated : (userHeap.map fun session => (session.pointers, session.allocator.heapStart,
      session.allocator.heapEnd, used session.allocator.memory 4096,
      MallocHeader.size session.allocator.memory 4096)) =
        .ok ([6144, 4100], 4096, 8192, true, 16) := by decide +kernel
  obtain ⟨session, run, results⟩ := map_eq_ok.mp evaluated
  simp only [Prod.mk.injEq] at results
  obtain ⟨pointers, start, stop, inUse, size⟩ := results
  exact ⟨session, userHeap_run run, by simp [pointers], start, stop, inUse, size⟩

/-- A size below the chunk's own is served in place, whatever it was rounded from. -/
theorem realloc_shrinks {state : Allocator} {pointer realsize room : Nat} (sbrk : SbrkFunc)
    (onHeap : state.heapStart ≤ pointer) (below : state.heapEnd ≠ 0 → pointer < state.heapEnd)
    (nonzero : bytes ≠ 0) (inUse : used state.memory (fromPointer pointer) = true)
    (held : MallocHeader.size state.memory (fromPointer pointer) = room)
    (rounds : roundSize (wrap32 (bytes + headerSize)) kMaxAlignment = realsize)
    (rounded : realsize % kMaxAlignment = 0) (shrinks : realsize + 4 < room) :
    Returns (realloc sbrk pointer bytes state) (fun _ => False) fun result =>
      result.2 = pointer ∧ MallocHeader.size result.1.memory (fromPointer pointer) = realsize := by
  have small : room < 2147483648 := held ▸ size_lt state.memory (fromPointer pointer)
  have restEq : sub32 room realsize = room - realsize := sub32_of_le (by omega) (by omega)
  have smaller : wrap32 (realsize + headerSize) < room := by
    rw [wrap32_of_lt (by simp only [headerSize]; omega)]
    exact shrinks
  unfold realloc
  refine returns_require_bind onHeap (returns_require_bind below ?_)
  rw [if_neg nonzero]
  refine returns_require_bind inUse ?_
  dsimp only
  rw [rounds]
  refine returns_require_bind rounded ?_
  rw [held, if_neg (by omega), if_pos ⟨by omega, smaller⟩, restEq]
  refine returns_require_bind (by rw [size_setUsed, size_setSize]; omega) (returns_pure.mpr ⟨rfl, ?_⟩)
  rw [size_setSize]
  omega

theorem realloc_honours_iff (bytesBound : bytes < 4294967296) :
    ReallocHonours bytes ↔ Representable bytes kMaxAlignment := by
  refine ⟨?_, fun represented => represented.realloc_honours bytesBound⟩
  intro honours
  by_contra wraps
  obtain ⟨realsize, rounds, small, large⟩ := rounds_small (show isPowerOf2 kMaxAlignment = true by decide)
    bytesBound (by decide) (by rw [max_self]; exact wraps)
  rw [max_self] at rounds small
  have four : realsize = 0 ∨ realsize = 4 := small.imp_right fun wide => wide.1
  obtain ⟨session, reachable, isLive, start, stop, inUse, size⟩ := userHeap_chunk
  have chunkEq : fromPointer 4100 = 4096 := by decide
  have rounded : realsize % kMaxAlignment = 0 := by
    simp only [kMaxAlignment]
    omega
  have served := realloc_shrinks (usbrk 8192) (show session.allocator.heapStart ≤ 4100 by omega)
    (fun _ => by omega) (show bytes ≠ 0 by omega) (by rw [chunkEq]; exact inUse)
    (show MallocHeader.size session.allocator.memory (fromPointer 4100) = 16 by
      rw [chunkEq]; exact size)
    (by rw [Nat.add_comm]; exact rounds) rounded (by omega)
  obtain ⟨⟨after, _⟩, run, rfl, sizeEq⟩ := served.exists_ok
  obtain ⟨room, _⟩ := honours _ 4096 (usbrk_contract (show 8192 - 4096 < 2147483648 by decide))
    (by decide) (by decide) session (Session.requests_of_runs reachable) 4100 isLive after 4100 run
    (by decide)
  rw [payloadSize, sizeEq] at room
  omega

theorem requests_honoured_iff (power : isPowerOf2 alignment = true) (bytesBound : bytes < 4294967296)
    (alignmentBound : alignment < 4294967296) :
    (MallocHonours bytes alignment ↔ Representable bytes (max alignment kMaxAlignment)) ∧
      (ReallocHonours bytes ↔ Representable bytes kMaxAlignment) :=
  ⟨malloc_honours_iff power bytesBound alignmentBound, realloc_honours_iff bytesBound⟩

theorem requests_honoured_page :
    MallocHonours 4096 4096 ∧ ReallocHonours 4096 := by
  have honoured := requests_honoured_iff (show isPowerOf2 4096 = true by decide)
    (show 4096 < 4294967296 by decide) (show 4096 < 4294967296 by decide)
  exact ⟨honoured.1.mpr (Or.inl (by decide)), honoured.2.mpr (Or.inl (by decide))⟩

/-- Header and size add up to 2^32, so the request becomes one of zero bytes. -/
theorem malloc_wraps_to_zero :
    ∃ session : Session, (Session.requests (usbrk 8192) 4096).Reachable session ∧
      ∃ after, session.allocator.malloc (usbrk 8192) 4294967292 4 = .ok (after, 4100) ∧
        payloadSize after.memory 4100 < 4294967292 ∧ MallocHeader.size after.memory 4096 = 0 := by
  have evaluated : (init (usbrk 8192) (fun _ => 0) 4096 8192 >>= fun allocator =>
      (allocator.malloc (usbrk 8192) 4294967292 4).map fun result =>
        (result.2, payloadSize result.1.memory 4100, MallocHeader.size result.1.memory 4096)) =
          .ok (4100, 0, 0) := by decide +kernel
  obtain ⟨allocator, started, rest⟩ := bind_eq_ok.mp evaluated
  have reachable : (Session.runs (usbrk 8192) 4096).Reachable ⟨allocator, []⟩ :=
    .start ⟨rfl, _, _, started⟩
  obtain ⟨result, run, results⟩ := map_eq_ok.mp rest
  simp only [Prod.mk.injEq] at results
  obtain ⟨pointer, payload, size⟩ := results
  refine ⟨⟨allocator, []⟩, Session.requests_of_runs reachable, result.1, ?_, by omega, size⟩
  rw [← pointer]
  exact run

end

def CallocHonours (count bytes : Nat) : Prop :=
  ∀ sbrk heapStart, SbrkContract sbrk heapStart → 4 ∣ heapStart → heapStart < 4294967296 →
    ∀ session, (Session.requests sbrk heapStart).Reachable session → ∀ after pointer,
      session.allocator.calloc sbrk count bytes = .ok (after, pointer) → pointer ≠ 0 →
        count * bytes ≤ payloadSize after.memory pointer ∧
          ∀ offset < count * bytes, after.memory (pointer + offset) = 0

/-- The product itself can be served, or what it wraps to never is. -/
def ProductKept (count bytes : Nat) : Prop :=
  paddedSize (count * bytes) kMaxAlignment < 2147483648 ∨ wrap32 (count * bytes) = 0 ∨
    (2147483648 ≤ paddedSize (wrap32 (count * bytes)) kMaxAlignment ∧
      paddedSize (wrap32 (count * bytes)) kMaxAlignment < 4294967296)

section
variable {count bytes : Nat}

theorem ProductKept.honours (kept : ProductKept count bytes) : CallocHonours count bytes := by
  intro sbrk heapStart contract four startBound session reachable after pointer run nonnull
  obtain ⟨chunks, consistent⟩ :=
    reachable_consistent contract four startBound (Session.requests_reachable reachable)
  obtain ⟨⟨middle, place⟩, inner, finished⟩ := bind_eq_ok.mp run
  have placeEq : place = pointer := by
    simp only [pure_eq_ok, Prod.mk.injEq] at finished
    exact finished.2
  have nonzero : wrap32 (count * bytes) ≠ 0 := by
    intro zero
    rw [zero] at inner
    exact nonnull (placeEq ▸ (malloc_zero inner).2)
  rcases kept with small | zero | ⟨large, fits⟩
  · have padded := paddedSize_ge (count * bytes) kMaxAlignment (by decide)
    have exact : wrap32 (count * bytes) = count * bytes := wrap32_of_lt (by omega)
    have spec := calloc_zeroes (by rw [consistent.start]; exact contract) consistent.tiled
      consistent.nonempty exact (exact ▸ nonzero) small
    obtain ⟨chunks', block, allocated, zeroes⟩ := spec.of_ok run
    exact ⟨(allocated.honours (by decide)).1, zeroes⟩
  · exact absurd zero nonzero
  · have rounded : 2147483648 ≤
        roundSize (wrap32 (headerSize + wrap32 (count * bytes))) (max kMaxAlignment kMaxAlignment) := by
      rw [max_self, roundSize_eq (by decide) fits]
      exact large
    exact ((malloc_large nonzero rounded).of_ok inner).elim

/-- What is not kept is served as a size that is too small for the product. -/
theorem product_rounds_small (lost : ¬ProductKept count bytes) :
    ∃ realsize, roundSize (wrap32 (headerSize + wrap32 (count * bytes))) kMaxAlignment = realsize ∧
      wrap32 (count * bytes) ≠ 0 ∧ 4 ∣ realsize ∧ realsize < 2147483648 ∧
      realsize < count * bytes + headerSize := by
  have bound := wrap32_lt (count * bytes)
  simp only [ProductKept, not_or, not_and] at lost
  obtain ⟨large, nonzero, outside⟩ := lost
  have wrapLe : wrap32 (count * bytes) ≤ count * bytes := Nat.mod_le _ _
  by_cases small : paddedSize (wrap32 (count * bytes)) kMaxAlignment < 2147483648
  · have wrapped : 4294967296 ≤ count * bytes := by
      by_contra fits
      rw [wrap32_of_lt (by omega)] at small
      exact large small
    refine ⟨_, roundSize_eq (by decide) (by omega), nonzero, Dvd.intro_left _ rfl, small, by omega⟩
  · have wraps : ¬Representable (wrap32 (count * bytes)) (max kMaxAlignment kMaxAlignment) := by
      rintro (fits | ⟨half, _⟩)
      · rw [max_self] at fits
        exact outside (by omega) fits
      · revert half
        decide
    obtain ⟨realsize, rounds, tiny, above⟩ := rounds_small (show isPowerOf2 kMaxAlignment = true by decide)
      bound (by decide) wraps
    rw [max_self] at rounds tiny
    simp only [kMaxAlignment] at tiny
    exact ⟨realsize, rounds, nonzero, by omega, by omega, by omega⟩

theorem calloc_honours_iff : CallocHonours count bytes ↔ ProductKept count bytes := by
  refine ⟨?_, ProductKept.honours⟩
  intro honours
  by_contra lost
  obtain ⟨realsize, rounds, nonzero, four, small, short⟩ := product_rounds_small lost
  have roomFour : 4 ∣ max realsize 8 := by omega
  have bound : 4 + max realsize 8 < 4294967296 := by omega
  obtain ⟨after, run, sizeEq⟩ := malloc_oneChunk nonzero (show isPowerOf2 kMaxAlignment = true by decide)
    (by rw [max_self]; exact rounds) (by rw [max_self]; exact four)
    (show max kMaxAlignment kMaxAlignment ∣ 4 + headerSize by decide)
    (show max realsize 8 = realsize ∨ realsize + 4 ≤ max realsize 8 by omega) (by omega)
    (by omega) bound (servingSbrk 4 (max realsize 8))
  have cleared : (oneChunk 4 (max realsize 8)).calloc (servingSbrk 4 (max realsize 8)) count bytes =
      .ok ({ after with
        memory := memset after.memory (4 + headerSize) 0 (wrap32 (count * bytes)) }, 4 + headerSize) := by
    rw [calloc, run]
    rfl
  have reachable := Session.requests_of_runs
    (oneChunk_reachable (show 4 ≤ max realsize 8 by omega) bound)
  obtain ⟨room, _⟩ := honours _ 4 (servingSbrk_contract roomFour (by omega) bound) (by decide)
    (by decide) _ reachable _ _ cleared (by decide)
  have header := size_of_agreeOn (memset_agreeOn after.memory (4 + headerSize) 4 (4 + 4) 0
    (wrap32 (count * bytes)) (Or.inl (by decide))) (Nat.le_refl _) (Nat.le_refl _)
  rw [payloadSize, show fromPointer (4 + headerSize) = 4 by decide, header, sizeEq] at room
  have wrapLe : wrap32 (count * bytes) ≤ count * bytes := Nat.mod_le _ _
  simp only [headerSize] at short room
  omega

/-- Four more than 2^32 bytes were asked for, four are there. -/
theorem calloc_product_wraps :
    ∃ session : Session, (Session.requests (usbrk 8192) 4096).Reachable session ∧
      ∃ after, session.allocator.calloc (usbrk 8192) 1073741825 4 = .ok (after, 4100) ∧
        payloadSize after.memory 4100 < 1073741825 * 4 := by
  have evaluated : (init (usbrk 8192) (fun _ => 0) 4096 8192 >>= fun allocator =>
      (allocator.calloc (usbrk 8192) 1073741825 4).map fun result =>
        (result.2, payloadSize result.1.memory 4100)) = .ok (4100, 4) := by decide +kernel
  obtain ⟨allocator, started, rest⟩ := bind_eq_ok.mp evaluated
  have reachable : (Session.runs (usbrk 8192) 4096).Reachable ⟨allocator, []⟩ :=
    .start ⟨rfl, _, _, started⟩
  obtain ⟨result, run, results⟩ := map_eq_ok.mp rest
  simp only [Prod.mk.injEq] at results
  obtain ⟨pointer, payload⟩ := results
  refine ⟨⟨allocator, []⟩, Session.requests_of_runs reachable, result.1, ?_, by omega⟩
  rw [← pointer]
  exact run

end

end Allocator

end ToyKernel
