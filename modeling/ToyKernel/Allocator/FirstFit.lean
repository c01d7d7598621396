import ToyKernel.Allocator.Runs

/-!
Which chunk `Malloc` takes: the lowest free chunk that has room for an aligned
payload, and new space at the top of the heap only when there is none.
-/

namespace ToyKernel

open Library MallocHeader

namespace Allocator

def CanHold (memory : Memory) (realsize alignment chunk : Nat) : Prop :=
  used memory chunk = false ∧ ∃ start, chunk ≤ start ∧ alignment ∣ start + headerSize ∧
    start + realsize ≤ chunk + MallocHeader.size memory chunk

theorem adjust_least {address alignment adjust target : Nat} (positive : 0 < alignment)
    (found : adjust = (alignment - address % alignment) % alignment) (above : address ≤ target)
    (aligned : alignment ∣ target) : address + adjust ≤ target := by
  obtain ⟨small, reached⟩ := adjust_spec positive found
  by_contra beyond
  have gap : alignment ∣ address + adjust - target := Nat.dvd_sub reached aligned
  have large := Nat.le_of_dvd (by omega) gap
  omega

theorem canUseChunk_eq_none_iff {memory : Memory} {realsize alignment chunk : Nat}
    (positive : 0 < alignment) (rounded : alignment ≤ realsize) (realSmall : realsize < 2147483648)
    (bound : chunk + MallocHeader.size memory chunk < 4294967296)
    (large : 4 ≤ MallocHeader.size memory chunk) :
    canUseChunk memory realsize alignment chunk = none ↔
      ¬CanHold memory realsize alignment chunk := by
  have addressEq : wrap32 (chunk + headerSize) = chunk + headerSize :=
    wrap32_of_lt (by simp only [headerSize]; omega)
  constructor
  · rintro unusable ⟨isFree, start, above, aligned, room⟩
    have reach := adjust_least positive rfl (Nat.add_le_add_right above headerSize) aligned
    have small := Nat.mod_lt (alignment - (chunk + headerSize) % alignment) positive
    unfold canUseChunk at unusable
    rw [if_neg (by simp [isFree]), if_neg (by omega), addressEq] at unusable
    dsimp only at unusable
    split at unusable
    · simp at unusable
    · rw [wrap32_of_lt (by omega), if_neg (by omega)] at unusable
      simp at unusable
  · intro noRoom
    cases found : canUseChunk memory realsize alignment chunk with
    | none => rfl
    | some adjust =>
        obtain ⟨isFree, fits, adjustEq, room⟩ := canUseChunk_eq_some found
        rw [addressEq] at adjustEq
        obtain ⟨small, aligned⟩ := adjust_spec positive adjustEq
        refine absurd ⟨isFree, chunk + adjust, by omega, ?_, ?_⟩ noRoom
        · rwa [Nat.add_right_comm] at aligned
        · rcases room with zero | room
          · omega
          · rw [wrap32_of_lt (by omega)] at room
            omega

theorem canUse_iff {state : Allocator} {chunks : List Chunk} {chunk : Chunk} {realsize alignment : Nat}
    (tiled : Tiled state chunks) (member : chunk ∈ chunks)
    (positive : 0 < alignment) (rounded : alignment ≤ realsize) (realSmall : realsize < 2147483648) :
    canUseChunk state.memory realsize alignment chunk.start = none ↔
      ¬CanHold state.memory realsize alignment chunk.start := by
  have size := (tiled.headers chunk member).size
  have large := tiled.size_ge member
  have upper := (tiled.tiles.bounds member).2.2
  have bound := tiled.heapBound
  simp only [Segment.stop] at upper
  exact canUseChunk_eq_none_iff positive rounded realSmall (by omega) (by omega)

theorem malloc_firstFit {sbrk : SbrkFunc} {heapStart : Nat} (contract : SbrkContract sbrk heapStart)
    (aligned : 4 ∣ heapStart) (startBound : heapStart < 4294967296) {session : Session}
    (reachable : (Session.runs sbrk heapStart).Reachable session) {bytes alignment wide : Nat}
    (positive : 0 < bytes) (power : isPowerOf2 alignment = true)
    (widened : wide = max alignment kMaxAlignment) (bound : paddedSize bytes wide < 2147483648) :
    ∃ fuel visited,
      walk session.allocator.memory session.allocator.heap fuel session.allocator.heapStart =
        some visited ∧
      (∀ lowest ∈ visited, CanHold session.allocator.memory (paddedSize bytes wide) wide lowest →
        (∀ chunk ∈ visited, chunk < lowest →
          ¬CanHold session.allocator.memory (paddedSize bytes wide) wide chunk) →
        ∃ after pointer, session.allocator.malloc sbrk bytes alignment = .ok (after, pointer) ∧
          wide ∣ pointer ∧ after.sbrkCalls = session.allocator.sbrkCalls ∧
          lowest ≤ fromPointer pointer ∧ fromPointer pointer + paddedSize bytes wide ≤
            lowest + MallocHeader.size session.allocator.memory lowest) ∧
      ((∀ chunk ∈ visited, ¬CanHold session.allocator.memory (paddedSize bytes wide) wide chunk) →
        Returns (session.allocator.malloc sbrk bytes alignment)
          (SbrkFails sbrk (paddedSize bytes wide) session.allocator) fun result =>
            wide ∣ result.2 ∧ session.allocator.heap ≤ fromPointer result.2 ∧
            session.allocator.sbrkCalls < result.1.sbrkCalls ∧
            result.1.sbrkCalls ≤ session.allocator.sbrkCalls + 2) := by
  obtain ⟨chunks, consistent⟩ := reachable_consistent contract aligned startBound reachable
  have tiled := consistent.tiled
  have wideLarge : 4 ≤ wide := by
    rw [widened]
    exact Nat.le_max_right _ _
  have padded := paddedSize_ge bytes wide (by omega)
  have wideLe : wide ≤ paddedSize bytes wide :=
    Nat.le_of_dvd (by omega) (Dvd.intro_left _ rfl)
  have spec := malloc_rounded (by rw [consistent.start]; exact contract) tiled consistent.nonempty
    (Nat.ne_of_gt positive) power (roundSize_eq (by omega) (by rw [← widened]; omega))
    (by rw [← widened]; exact bound)
  rw [← widened] at spec
  have room : ∀ chunk ∈ chunks,
      canUseChunk session.allocator.memory (paddedSize bytes wide) wide chunk.start = none ↔
        ¬CanHold session.allocator.memory (paddedSize bytes wide) wide chunk.start :=
    fun chunk member => canUse_iff tiled member (by omega) wideLe bound
  refine ⟨chunks.length + 1, chunks.map Segment.start,
    walk_tiles chunks tiled.tiles fun chunk member => tiled.nextChunk_eq member, ?_, ?_⟩
  · intro lowest visited holds least
    obtain ⟨target, member, rfl⟩ := List.mem_map.mp visited
    cases run : session.allocator.malloc sbrk bytes alignment with
    | error fault =>
        exact absurd holds ((room target member).mp ((spec.of_error run).2 target member))
    | ok result =>
        obtain ⟨after, pointer⟩ := result
        obtain ⟨⟨found, address, adjust⟩, chunks', block, isFound, _, calls, start, allocated⟩ :=
          spec.of_ok run
        obtain ⟨before, chunk, rest, _, chunkStart, _, usable, _, unusable, origin⟩ := isFound
        dsimp only at calls start chunkStart usable origin
        rcases origin with ⟨rfl, split⟩ | ⟨split, _, _⟩
        · have chunkMember : chunk ∈ chunks := by simp [split]
          have same : chunk.start = target.start := by
            have notBefore : ¬target.start < chunk.start := by
              intro lower
              rw [split] at member tiled
              have early := (tiled.tiles.lower_iff member).mp lower
              rw [← split] at member
              exact (room target member).mp (unusable target early) holds
            have notAfter : ¬chunk.start < target.start := by
              intro lower
              have noRoom := least _ (List.mem_map_of_mem chunkMember) lower
              rw [(room chunk chunkMember).mpr noRoom] at usable
              simp at usable
            omega
          have pointerEq : fromPointer pointer = chunk.start + adjust := by
            rw [allocated.chunk_eq, start, chunkStart]
          obtain ⟨_, large, adjustEq, fits⟩ := canUseChunk_eq_some usable
          have adjustSmall := (adjust_spec (by omega) adjustEq).1
          refine ⟨after, pointer, rfl, allocated.aligned, calls, by omega, ?_⟩
          rw [pointerEq, ← same]
          rcases fits with zero | fits
          · omega
          · rw [wrap32_of_lt (by omega)] at fits
            omega
        · rw [split] at member room
          exact absurd holds ((room target member).mp (unusable target member))
  · intro none_
    have nowhere : ∀ chunk ∈ chunks,
        canUseChunk session.allocator.memory (paddedSize bytes wide) wide chunk.start = none :=
      fun chunk member => (room chunk member).mpr (none_ _ (List.mem_map_of_mem member))
    refine (spec.weaken fun _ failed => failed.1).mono ?_
    rintro ⟨after, pointer⟩ ⟨⟨found, address, adjust⟩, chunks', block, isFound, located, calls, start,
      allocated⟩
    obtain ⟨before, chunk, rest, _, chunkStart, _, usable, _, _, origin⟩ := isFound
    dsimp only at calls start chunkStart usable origin ⊢
    have pointerEq : fromPointer pointer = address + adjust := by
      rw [allocated.chunk_eq, start]
    rcases origin with ⟨rfl, split⟩ | ⟨_, _, fewCalls⟩
    · rw [nowhere chunk (by simp [split])] at usable
      simp at usable
    · rcases located with ⟨same, listed⟩ | ⟨someCalls, top⟩
      · dsimp only at same listed
        obtain ⟨old, oldMember, oldStart⟩ := List.mem_map.mp listed
        rw [same, chunkStart, ← oldStart, nowhere old oldMember] at usable
        simp at usable
      · dsimp only at someCalls top
        exact ⟨allocated.aligned, by omega, by omega, by omega⟩

theorem malloc_firstFit_userHeap :
    ∃ session : Session, (Session.runs (usbrk 8192) 4096).Reachable session ∧
      ∃ fuel visited,
        walk session.allocator.memory session.allocator.heap fuel session.allocator.heapStart =
          some visited ∧
        ((∀ chunk ∈ visited, ¬CanHold session.allocator.memory (paddedSize 10 4) 4 chunk) →
          Returns (session.allocator.malloc (usbrk 8192) 10 4)
            (SbrkFails (usbrk 8192) (paddedSize 10 4) session.allocator) fun result =>
              4 ∣ result.2 ∧ session.allocator.heap ≤ fromPointer result.2 ∧
              session.allocator.sbrkCalls < result.1.sbrkCalls ∧
              result.1.sbrkCalls ≤ session.allocator.sbrkCalls + 2) := by
  obtain ⟨session, reachable, _⟩ := userHeap_reachable
  obtain ⟨fuel, visited, walked, _, grows⟩ := malloc_firstFit
    (usbrk_contract (by decide)) (by decide) (by decide) reachable
    (show 0 < 10 by decide) (show isPowerOf2 4 = true by decide) (show 4 = max 4 kMaxAlignment by decide)
    (by decide)
  exact ⟨session, reachable, fuel, visited, walked, grows⟩

/-- Two gigabytes do not fit the 31-bit size of one chunk. -/
theorem malloc_fills_the_size_field :
    (∀ call increment heap, heap + increment ≤ generousSbrk call increment heap ∧
      4 ∣ generousSbrk call increment heap - heap) ∧
    isPowerOf2 1073741824 = true ∧ paddedSize 4 (max 1073741824 kMaxAlignment) < 2147483648 ∧
    ∃ session : Session, (Session.runs generousSbrk 4096).Reachable session ∧
      (session.allocator.malloc generousSbrk 4 1073741824).map Prod.snd =
        .error .chunkDoesNotEndAtHeap := by
  refine ⟨?_, by decide, by decide, ?_⟩
  · intro call increment heap
    simp only [generousSbrk]
    omega
  · have evaluated : (init generousSbrk (fun _ => 0) 4096 0 >>= fun allocator =>
        (allocator.malloc generousSbrk 4 1073741824).map Prod.snd) =
          .error .chunkDoesNotEndAtHeap := by decide +kernel
    cases started : init generousSbrk (fun _ => 0) 4096 0 with
    | error fault =>
        have succeeded : (init generousSbrk (fun _ => 0) 4096 0).isOk = true := by decide +kernel
        rw [started] at succeeded
        cases succeeded
    | ok allocator =>
        rw [started, ok_bind] at evaluated
        exact ⟨⟨allocator, []⟩, .start ⟨rfl, _, _, started⟩, evaluated⟩

end Allocator

end ToyKernel
