import ToyKernel.Allocator.Free
import ToyKernel.Library.Run

/-!
Whole runs of the allocator by a client that only hands back live pointers and
only writes into live payloads. The session records the live allocations next to
the allocator; the invariant ties them to the used chunks of the heap.
-/

namespace ToyKernel

open Library MallocHeader

namespace Allocator

structure Block where
  pointer : Nat
  alignment : Nat
  request : Nat

structure Session where
  allocator : Allocator
  live : List Block

inductive Operation
  | malloc (bytes alignment : Nat)
  | calloc (count bytes : Nat)
  | realloc (pointer bytes : Nat)
  | free (pointer : Nat)
  | write (pointer offset : Nat) (byte : UInt8)

namespace Operation

def given : Operation → Option Nat
  | malloc _ _ => none
  | calloc _ _ => none
  | realloc pointer _ => some pointer
  | free pointer => some pointer
  | write pointer _ _ => some pointer

def released : Operation → Option Nat
  | realloc pointer _ => some pointer
  | free pointer => some pointer
  | _ => none

end Operation

def payloadSize (memory : Memory) (pointer : Nat) : Nat :=
  MallocHeader.size memory (fromPointer pointer) - headerSize

namespace Session

def pointers (session : Session) : List Nat := session.live.map Block.pointer

def addBlock (live : List Block) (pointer alignment request : Nat) : List Block :=
  if pointer = 0 then live else ⟨pointer, alignment, request⟩ :: live

def resizeBlock (live : List Block) (pointer request : Nat) : List Block :=
  live.map fun block => if block.pointer = pointer then { block with request } else block

def removeBlock (live : List Block) (pointer : Nat) : List Block :=
  live.filter fun block => block.pointer ≠ pointer

def perform (sbrk : SbrkFunc) (session : Session) : Operation → Except Fault Session
  | .malloc bytes alignment => do
      let (allocator, pointer) ← session.allocator.malloc sbrk bytes alignment
      return ⟨allocator, addBlock session.live pointer (max alignment kMaxAlignment) bytes⟩
  | .calloc count bytes => do
      let (allocator, pointer) ← session.allocator.calloc sbrk count bytes
      return ⟨allocator, addBlock session.live pointer kMaxAlignment (count * bytes)⟩
  | .realloc pointer bytes => do
      let (allocator, moved) ← session.allocator.realloc sbrk pointer bytes
      if moved = 0 then return ⟨allocator, session.live⟩
      if moved = pointer then return ⟨allocator, resizeBlock session.live pointer bytes⟩
      return ⟨allocator, ⟨moved, kMaxAlignment, bytes⟩ :: removeBlock session.live pointer⟩
  | .free pointer => do
      let allocator ← session.allocator.free pointer
      return ⟨allocator, removeBlock session.live pointer⟩
  | .write pointer offset byte =>
      return ⟨{ session.allocator with
        memory := store session.allocator.memory (pointer + offset) byte }, session.live⟩

def Permitted (session : Session) : Operation → Prop
  | .malloc bytes alignment =>
      isPowerOf2 alignment = true ∧ paddedSize bytes (max alignment kMaxAlignment) < 2147483648
  | .calloc count bytes => paddedSize (count * bytes) kMaxAlignment < 2147483648
  | .realloc pointer bytes =>
      pointer ∈ session.pointers ∧ paddedSize bytes kMaxAlignment < 2147483648
  | .free pointer => pointer ∈ session.pointers
  | .write pointer offset _ =>
      pointer ∈ session.pointers ∧ offset < payloadSize session.allocator.memory pointer

def runs (sbrk : SbrkFunc) (heapStart : Nat) : System Session Operation where
  initial session := session.live = [] ∧
    ∃ memory heapEnd, Allocator.init sbrk memory heapStart heapEnd = .ok session.allocator
  step session operation after :=
    session.Permitted operation ∧ session.perform sbrk operation = .ok after

end Session

def payload (chunk : Chunk) : Nat := chunk.start + headerSize

structure Matches (live : List Block) (used : List Chunk) : Prop where
  pointers : (live.map Block.pointer).Perm (used.map payload)
  placed : ∀ block ∈ live, block.alignment ∣ block.pointer ∧
    ∃ chunk ∈ used, payload chunk = block.pointer ∧ block.request + headerSize ≤ chunk.size

namespace Matches

variable {live : List Block} {used rest used' : List Chunk} {chunk fresh : Chunk}

theorem add {alignment request : Nat} (matched : Matches live used)
    (added : used'.Perm (fresh :: used)) (aligned : alignment ∣ payload fresh)
    (room : request + headerSize ≤ fresh.size) :
    Matches (⟨payload fresh, alignment, request⟩ :: live) used' := by
  refine ⟨?_, ?_⟩
  · exact (matched.pointers.cons _).trans (added.map payload).symm
  · intro block member
    rcases List.mem_cons.mp member with same | old
    · rw [same]
      exact ⟨aligned, fresh, added.mem_iff.mpr List.mem_cons_self, rfl, room⟩
    · obtain ⟨blockAligned, chunk, listed, address, size⟩ := matched.placed block old
      exact ⟨blockAligned, chunk, added.mem_iff.mpr (List.mem_cons_of_mem _ listed), address, size⟩

theorem remove (matched : Matches live used) (distinct : (used.map payload).Nodup)
    (removed : used.Perm (chunk :: rest)) :
    Matches (Session.removeBlock live (payload chunk)) rest := by
  have restDistinct := (removed.map payload).nodup_iff.mp distinct
  have absent : payload chunk ∉ rest.map payload := (List.nodup_cons.mp restDistinct).1
  refine ⟨?_, ?_⟩
  · have filtered := (matched.pointers.trans (removed.map payload)).filter fun pointer =>
      pointer ≠ payload chunk
    have restKept : (rest.map payload).filter (fun pointer => pointer ≠ payload chunk) =
        rest.map payload := by
      rw [List.filter_eq_self]
      intro pointer member
      simp only [ne_eq, decide_not, Bool.not_eq_eq_eq_not, Bool.not_true, decide_eq_false_iff_not]
      rintro rfl
      exact absent member
    rw [List.map_cons, List.filter_cons_of_neg (by simp), restKept, List.filter_map] at filtered
    exact filtered
  · intro block member
    simp only [Session.removeBlock, List.mem_filter, decide_eq_true_eq] at member
    obtain ⟨aligned, owner, listed, address, size⟩ := matched.placed block member.1
    refine ⟨aligned, owner, ?_, address, size⟩
    rcases List.mem_cons.mp (removed.mem_iff.mp listed) with same | kept
    · rw [same] at address
      exact absurd address.symm member.2
    · exact kept

theorem resize {request : Nat} (matched : Matches live used)
    (removed : used.Perm (chunk :: rest)) (added : used'.Perm (fresh :: rest))
    (same : payload fresh = payload chunk) (room : request + headerSize ≤ fresh.size) :
    Matches (Session.resizeBlock live (payload chunk) request) used' := by
  refine ⟨?_, ?_⟩
  · have unchanged : (Session.resizeBlock live (payload chunk) request).map Block.pointer =
        live.map Block.pointer := by
      simp only [Session.resizeBlock, List.map_map]
      refine List.map_congr_left fun block _ => ?_
      simp only [Function.comp_apply]
      split <;> rfl
    rw [unchanged]
    refine matched.pointers.trans ((removed.map payload).trans ?_)
    rw [List.map_cons, ← same]
    exact (added.map payload).symm
  · intro block member
    simp only [Session.resizeBlock, List.mem_map] at member
    obtain ⟨old, oldMember, rfl⟩ := member
    obtain ⟨aligned, owner, listed, address, size⟩ := matched.placed old oldMember
    by_cases hit : old.pointer = payload chunk
    · simp only [hit, ↓reduceIte]
      exact ⟨by rw [← hit]; exact aligned, fresh, added.mem_iff.mpr List.mem_cons_self, same, room⟩
    · simp only [hit, ↓reduceIte]
      refine ⟨aligned, owner, added.mem_iff.mpr ?_, address, size⟩
      rcases List.mem_cons.mp (removed.mem_iff.mp listed) with rfl | kept
      · exact absurd address.symm hit
      · exact List.mem_cons_of_mem _ kept

end Matches

structure Consistent (heapStart : Nat) (session : Session) (chunks : List Chunk) : Prop where
  tiled : Tiled session.allocator chunks
  nonempty : chunks ≠ []
  start : session.allocator.heapStart = heapStart
  matched : Matches session.live (usedChunks chunks)

structure Effect (session after : Session) (operation : Operation) (chunks chunks' : List Chunk) :
    Prop where
  kept : ∀ chunk ∈ usedChunks chunks, operation.released ≠ some (payload chunk) →
    chunk ∈ usedChunks chunks'
  bytes : ∀ chunk ∈ usedChunks chunks, operation.given ≠ some (payload chunk) →
    AgreeOn session.allocator.memory after.allocator.memory chunk.start chunk.stop

theorem Effect.refl (session : Session) (operation : Operation) (chunks : List Chunk) :
    Effect session session operation chunks chunks :=
  ⟨fun _ member _ => member, fun _ _ _ => AgreeOn.refl _ _ _⟩

theorem payload_injective {state : Allocator} {chunks : List Chunk} (tiled : Tiled state chunks)
    {left right : Chunk} (leftMember : left ∈ chunks) (rightMember : right ∈ chunks)
    (same : payload left = payload right) : left = right := by
  have leftPositive := (tiled.tiles.bounds leftMember).2.1
  have rightPositive := (tiled.tiles.bounds rightMember).2.1
  simp only [payload, headerSize] at same
  exact tiled.tiles.eq_of_overlap leftMember rightMember left.start
    (by simp only [Segment.stop]; omega) (by simp only [Segment.stop]; omega)

namespace Consistent

variable {sbrk : SbrkFunc} {heapStart : Nat} {session : Session} {chunks chunks' : List Chunk}

theorem distinct (consistent : Consistent heapStart session chunks) :
    ((usedChunks chunks).map payload).Nodup := by
  refine List.Nodup.map_on ?_ (consistent.tiled.tiles.nodup.filter _)
  intro left leftMember right rightMember same
  exact payload_injective consistent.tiled (mem_usedChunks.mp leftMember).1
    (mem_usedChunks.mp rightMember).1 same

theorem owner (consistent : Consistent heapStart session chunks) {pointer : Nat}
    (isLive : pointer ∈ session.pointers) :
    ∃ before chunk after, chunks = before ++ chunk :: after ∧ chunk.tag = true ∧
      payload chunk = pointer := by
  have listed := consistent.matched.pointers.mem_iff.mp isLive
  obtain ⟨chunk, member, address⟩ := List.mem_map.mp listed
  obtain ⟨inChunks, inUse⟩ := mem_usedChunks.mp member
  obtain ⟨before, after, split⟩ := List.mem_iff_append.mp inChunks
  exact ⟨before, chunk, after, split, inUse, address⟩

theorem allocate (consistent : Consistent heapStart session chunks) {bytes alignment pointer : Nat}
    {new : Allocator} {block : Chunk} {operation : Operation}
    (allocated : Allocated session.allocator chunks bytes alignment new pointer chunks' block) :
    Consistent heapStart ⟨new, Session.addBlock session.live pointer alignment bytes⟩ chunks' ∧
      Effect session ⟨new, Session.addBlock session.live pointer alignment bytes⟩ operation
        chunks chunks' := by
  have address : pointer = payload block := allocated.address
  have padded := paddedSize_ge bytes alignment
  have alignmentPositive : 0 < alignment := by
    rcases Nat.eq_zero_or_pos alignment with zero | positive
    · have aligned := allocated.aligned
      rw [zero, zero_dvd_iff, address, payload, headerSize] at aligned
      omega
    · exact positive
  have room : bytes + headerSize ≤ block.size := by
    have large := padded alignmentPositive
    rw [allocated.size]
    omega
  have nonzero : pointer ≠ 0 := by
    rw [address, payload, headerSize]
    omega
  rw [Session.addBlock, if_neg nonzero, address]
  refine ⟨⟨allocated.tiled, List.ne_nil_of_mem allocated.block_mem,
    allocated.heapStart.trans consistent.start, ?_⟩, ?_, ?_⟩
  · exact consistent.matched.add allocated.added (by rw [← address]; exact allocated.aligned) room
  · intro chunk member _
    exact allocated.added.mem_iff.mpr (List.mem_cons_of_mem _ member)
  · intro chunk member _
    exact allocated.kept chunk member

theorem malloc_step (contract : SbrkContract sbrk heapStart)
    (consistent : Consistent heapStart session chunks) {bytes alignment : Nat} {after : Session}
    (permitted : session.Permitted (.malloc bytes alignment))
    (performed : session.perform sbrk (.malloc bytes alignment) = .ok after) :
    ∃ chunks', Consistent heapStart after chunks' ∧
      Effect session after (.malloc bytes alignment) chunks chunks' := by
  simp only [Session.perform, bind_eq_ok, pure_eq_ok] at performed
  obtain ⟨⟨new, pointer⟩, run, rfl⟩ := performed
  by_cases empty : bytes = 0
  · subst empty
    obtain ⟨rfl, rfl⟩ := malloc_zero run
    exact ⟨chunks, consistent, Effect.refl _ _ _⟩
  · have spec := malloc_spec (by rw [consistent.start]; exact contract) consistent.tiled
      consistent.nonempty empty permitted.1 permitted.2
    obtain ⟨chunks', block, allocated⟩ := spec.of_ok run
    exact ⟨chunks', consistent.allocate allocated⟩

theorem calloc_step (contract : SbrkContract sbrk heapStart)
    (consistent : Consistent heapStart session chunks) {count bytes : Nat} {after : Session}
    (permitted : session.Permitted (.calloc count bytes))
    (performed : session.perform sbrk (.calloc count bytes) = .ok after) :
    ∃ chunks', Consistent heapStart after chunks' ∧
      Effect session after (.calloc count bytes) chunks chunks' := by
  simp only [Session.perform, bind_eq_ok, pure_eq_ok] at performed
  obtain ⟨⟨new, pointer⟩, run, rfl⟩ := performed
  by_cases empty : count * bytes = 0
  · simp only [calloc, empty, wrap32, Nat.zero_mod, malloc, bind_eq_ok, ↓reduceIte, pure_eq_ok,
      Prod.mk.injEq] at run
    obtain ⟨⟨_, _⟩, ⟨_, _, ⟨rfl, rfl⟩⟩, rfl, rfl⟩ := run
    exact ⟨chunks, consistent, Effect.refl _ _ _⟩
  · have spec := calloc_spec (by rw [consistent.start]; exact contract) consistent.tiled
      consistent.nonempty empty permitted
    obtain ⟨chunks', block, allocated⟩ := spec.of_ok run
    exact ⟨chunks', consistent.allocate allocated⟩

theorem free_step (consistent : Consistent heapStart session chunks) {pointer : Nat} {after : Session}
    (permitted : session.Permitted (.free pointer))
    (performed : session.perform sbrk (.free pointer) = .ok after) :
    ∃ chunks', Consistent heapStart after chunks' ∧
      Effect session after (.free pointer) chunks chunks' := by
  obtain ⟨before, chunk, rest, rfl, inUse, rfl⟩ := consistent.owner permitted
  obtain ⟨new, chunks', run, newTiled, newUsed, newStart, newHeap, _, _, agree⟩ :=
    free_spec consistent.tiled inUse
  simp only [Session.perform, payload, run, ok_bind, pure_eq_ok] at performed
  subst performed
  have removed : (usedChunks (before ++ chunk :: rest)).Perm (chunk :: usedChunks chunks') := by
    rw [newUsed]
    simp only [usedChunks_append, usedChunks_cons_used inUse]
    exact List.perm_middle
  have others : ∀ other ∈ usedChunks (before ++ chunk :: rest), payload other ≠ payload chunk →
      other ∈ usedChunks chunks' := by
    intro other member different
    rcases List.mem_cons.mp (removed.mem_iff.mp member) with rfl | kept
    · exact absurd rfl different
    · exact kept
  refine ⟨chunks', ⟨newTiled, ?_, newStart.trans consistent.start,
    consistent.matched.remove consistent.distinct removed⟩, ?_, ?_⟩
  · rintro rfl
    have positive := (consistent.tiled.tiles.bounds (show chunk ∈ _ by simp)).2.1
    have lower := (consistent.tiled.tiles.bounds (show chunk ∈ _ by simp)).1
    have upper := (consistent.tiled.tiles.bounds (show chunk ∈ _ by simp)).2.2
    have emptyHeap := newTiled.tiles
    simp only [Tiles, newStart, newHeap] at emptyHeap
    simp only [Segment.stop] at upper
    omega
  · intro other member different
    exact others other member (fun same => different (by rw [same]; rfl))
  · intro other member different
    have apart : other ≠ chunk := by
      rintro rfl
      exact different rfl
    refine agree _ _ ?_
    rcases consistent.tiled.tiles.apart (mem_usedChunks.mp member).1 (by simp) apart with below | above
    · exact Or.inl below
    · have large := consistent.tiled.size_ge (show chunk ∈ _ by simp)
      simp only [Segment.stop, headerSize] at above ⊢
      omega

theorem realloc_step (contract : SbrkContract sbrk heapStart)
    (consistent : Consistent heapStart session chunks) {pointer bytes : Nat} {after : Session}
    (permitted : session.Permitted (.realloc pointer bytes))
    (performed : session.perform sbrk (.realloc pointer bytes) = .ok after) :
    ∃ chunks', Consistent heapStart after chunks' ∧
      Effect session after (.realloc pointer bytes) chunks chunks' := by
  obtain ⟨before, chunk, rest, rfl, inUse, rfl⟩ := consistent.owner permitted.1
  simp only [Session.perform, bind_eq_ok] at performed
  obtain ⟨⟨new, moved⟩, run, performed⟩ := performed
  by_cases empty : bytes = 0
  · subst empty
    simp only [realloc, bind_eq_ok, ↓reduceIte, pure_eq_ok, Prod.mk.injEq] at run
    obtain ⟨_, _, _, _, rfl, rfl⟩ := run
    simp only [↓reduceIte, pure_eq_ok] at performed
    subst performed
    exact ⟨_, consistent, Effect.refl _ _ _⟩
  · have spec := realloc_spec (by rw [consistent.start]; exact contract) consistent.tiled inUse empty
      permitted.2
    obtain ⟨chunks', block, allocated, _⟩ := spec.of_ok run
    have address : moved = payload block := allocated.address
    have padded := paddedSize_ge bytes kMaxAlignment (by decide)
    have size : block.size = paddedSize bytes kMaxAlignment := allocated.size
    have nonzero : moved ≠ 0 := by
      rw [address, payload, headerSize]
      omega
    have removed : (usedChunks (before ++ chunk :: rest)).Perm (chunk :: usedChunks (before ++ rest)) := by
      simp only [usedChunks_append, usedChunks_cons_used inUse]
      exact List.perm_middle
    have others : ∀ other ∈ usedChunks (before ++ chunk :: rest),
        some (payload chunk) ≠ some (payload other) → other ∈ usedChunks (before ++ rest) := by
      intro other member different
      rcases List.mem_cons.mp (removed.mem_iff.mp member) with rfl | kept
      · exact absurd rfl different
      · exact kept
    have effect : Effect session ⟨new, after.live⟩ (.realloc (payload chunk) bytes)
        (before ++ chunk :: rest) chunks' := by
      refine ⟨?_, ?_⟩
      · intro other member different
        exact allocated.added.mem_iff.mpr (List.mem_cons_of_mem _ (others other member different))
      · intro other member different
        exact allocated.kept other (others other member different)
    rw [if_neg nonzero] at performed
    by_cases inPlace : moved = payload chunk
    · rw [if_pos inPlace, pure_eq_ok] at performed
      subst performed
      refine ⟨chunks', ⟨allocated.tiled, List.ne_nil_of_mem allocated.block_mem,
        allocated.heapStart.trans consistent.start, ?_⟩, effect⟩
      exact consistent.matched.resize removed allocated.added (by rw [← address, inPlace]) (by omega)
    · rw [if_neg inPlace, pure_eq_ok] at performed
      subst performed
      refine ⟨chunks', ⟨allocated.tiled, List.ne_nil_of_mem allocated.block_mem,
        allocated.heapStart.trans consistent.start, ?_⟩, effect⟩
      have smaller := consistent.matched.remove consistent.distinct removed
      rw [address]
      exact smaller.add allocated.added (by rw [← address]; exact allocated.aligned) (by omega)

theorem write_step (consistent : Consistent heapStart session chunks) {pointer offset : Nat} {byte : UInt8}
    {after : Session} (permitted : session.Permitted (.write pointer offset byte))
    (performed : session.perform sbrk (.write pointer offset byte) = .ok after) :
    ∃ chunks', Consistent heapStart after chunks' ∧
      Effect session after (.write pointer offset byte) chunks chunks' := by
  obtain ⟨before, chunk, rest, rfl, inUse, rfl⟩ := consistent.owner permitted.1
  have member : chunk ∈ before ++ chunk :: rest := by simp
  have inside := permitted.2
  simp only [payloadSize, payload, fromPointer_eq (chunk_pointer_lt consistent.tiled member),
    (consistent.tiled.headers chunk member).size] at inside
  simp only [Session.perform, pure_eq_ok] at performed
  subst performed
  refine ⟨before ++ chunk :: rest, ⟨?_, consistent.nonempty, consistent.start, consistent.matched⟩,
    fun _ listed _ => listed, ?_⟩
  · refine consistent.tiled.writePayload member (store_agreeOn _ _ ?_) (store_agreeOn _ _ ?_)
    · simp only [payload]
      omega
    · simp only [payload, Segment.stop]
      omega
  · intro other listed different
    have apart : other ≠ chunk := by
      rintro rfl
      exact different rfl
    refine store_agreeOn _ _ ?_
    rcases consistent.tiled.tiles.apart (mem_usedChunks.mp listed).1 member apart with below | above
    · simp only [payload, headerSize] at inside ⊢
      omega
    · simp only [payload, headerSize, Segment.stop] at inside above ⊢
      omega

theorem step (contract : SbrkContract sbrk heapStart)
    (consistent : Consistent heapStart session chunks) {operation : Operation} {after : Session}
    (stepped : (Session.runs sbrk heapStart).step session operation after) :
    ∃ chunks', Consistent heapStart after chunks' ∧ Effect session after operation chunks chunks' := by
  obtain ⟨permitted, performed⟩ := stepped
  cases operation with
  | malloc bytes alignment => exact consistent.malloc_step contract permitted performed
  | calloc count bytes => exact consistent.calloc_step contract permitted performed
  | realloc pointer bytes => exact consistent.realloc_step contract permitted performed
  | free pointer => exact consistent.free_step permitted performed
  | write pointer offset byte => exact consistent.write_step permitted performed

end Consistent

theorem reachable_consistent {sbrk : SbrkFunc} {heapStart : Nat} (contract : SbrkContract sbrk heapStart)
    (aligned : 4 ∣ heapStart) (startBound : heapStart < 4294967296) {session : Session}
    (reachable : (Session.runs sbrk heapStart).Reachable session) :
    ∃ chunks, Consistent heapStart session chunks := by
  refine reachable.invariant (fun state => ∃ chunks, Consistent heapStart state chunks) ?_ ?_
  · rintro ⟨allocator, live⟩ ⟨rfl, memory, heapEnd, run⟩
    obtain ⟨start, first, tiled, isFree⟩ := (init_spec contract aligned startBound).of_ok run
    refine ⟨[first], tiled, by simp, start, ?_, by simp⟩
    rw [usedChunks_cons_free isFree]
    exact List.Perm.refl _
  · rintro state operation after ⟨chunks, consistent⟩ stepped
    obtain ⟨chunks', later, _⟩ := consistent.step contract stepped
    exact ⟨chunks', later⟩

theorem Consistent.chunk_of {heapStart : Nat} {session : Session} {chunks : List Chunk}
    (consistent : Consistent heapStart session chunks) {block : Block} (isLive : block ∈ session.live) :
    block.alignment ∣ block.pointer ∧ ∃ chunk ∈ usedChunks chunks, payload chunk = block.pointer ∧
      fromPointer block.pointer = chunk.start ∧
      MallocHeader.size session.allocator.memory chunk.start = chunk.size ∧
      block.request + headerSize ≤ chunk.size := by
  obtain ⟨aligned, chunk, member, address, room⟩ := consistent.matched.placed block isLive
  have inChunks := (mem_usedChunks.mp member).1
  refine ⟨aligned, chunk, member, address, ?_, (consistent.tiled.headers chunk inChunks).size, room⟩
  rw [← address]
  exact fromPointer_eq (chunk_pointer_lt consistent.tiled inChunks)

def Disjoint (memory : Memory) (left right : Block) : Prop :=
  fromPointer left.pointer + MallocHeader.size memory (fromPointer left.pointer) ≤
      fromPointer right.pointer ∨
    fromPointer right.pointer + MallocHeader.size memory (fromPointer right.pointer) ≤
      fromPointer left.pointer

def kChunkSize : Nat := 1024

/-- A failed assertion stops the program, as the answer 0 does in the allocator. -/
def usbrkChunk (heapTop chunks heap : Nat) : Nat :=
  let top := wrap32 (heap + wrap32 (chunks * kChunkSize))
  if top ≤ heapTop then top else 0

def usbrk (heapTop : Nat) : SbrkFunc := fun _ increment heap =>
  if increment = 0 then 0
  else if increment < kChunkSize then usbrkChunk heapTop 1 heap
  else if increment % kChunkSize = 0 then usbrkChunk heapTop (increment / kChunkSize) heap
  else usbrkChunk heapTop (increment / kChunkSize + 1) heap

/-- The smallest number of chunks that hold the increment. -/
theorem usbrk_rounds {increment : Nat} (heapTop call heap : Nat) (positive : 0 < increment) :
    ∃ chunks, increment ≤ chunks * 1024 ∧ chunks * 1024 < increment + 1024 ∧
      usbrk heapTop call increment heap = usbrkChunk heapTop chunks heap := by
  have chunk : kChunkSize = 1024 := rfl
  rw [usbrk, if_neg (by omega)]
  by_cases small : increment < kChunkSize
  · rw [if_pos small]
    exact ⟨1, by omega, by omega, rfl⟩
  · rw [if_neg small]
    by_cases whole : increment % kChunkSize = 0
    · rw [if_pos whole]
      exact ⟨_, by rw [chunk] at whole ⊢; omega, by rw [chunk]; omega, rfl⟩
    · rw [if_neg whole]
      exact ⟨_, by rw [chunk]; omega, by rw [chunk] at whole ⊢; omega, rfl⟩

theorem usbrk_contract {heapTop heapStart : Nat} (sizeBound : heapTop - heapStart < 2147483648) :
    SbrkContract (usbrk heapTop) heapStart := by
  constructor
  intro call increment heap positive bounded above heapBound heapSize
  obtain ⟨chunks, enough, least, same⟩ := usbrk_rounds heapTop call heap positive
  rw [same, usbrkChunk, kChunkSize]
  by_cases room : wrap32 (heap + wrap32 (chunks * 1024)) ≤ heapTop
  · rw [if_pos room]
    rw [wrap32_of_lt (show chunks * 1024 < 4294967296 by omega)] at room ⊢
    by_cases wraps : heap + chunks * 1024 < 4294967296
    · rw [wrap32_of_lt wraps] at room ⊢
      exact Or.inr ⟨by omega, by omega, by omega, by omega⟩
    · rw [wrap32]
      exact Or.inl (by omega)
  · rw [if_neg room]
    exact Or.inl (Nat.zero_le _)

def userHeap : Except Fault Session := do
  let allocator ← init (usbrk 8192) (fun _ => 0) 4096 8192
  let session ← Session.perform (usbrk 8192) ⟨allocator, []⟩ (.malloc 10 4)
  Session.perform (usbrk 8192) session (.malloc 20 1024)

theorem userHeap_run {session : Session} (run : userHeap = .ok session) :
    (Session.runs (usbrk 8192) 4096).Reachable session := by
  obtain ⟨allocator, initialized, rest⟩ := bind_eq_ok.mp run
  obtain ⟨middle, first, second⟩ := bind_eq_ok.mp rest
  have start : (Session.runs (usbrk 8192) 4096).Reachable ⟨allocator, []⟩ :=
    .start ⟨rfl, _, _, initialized⟩
  have small : (Session.runs (usbrk 8192) 4096).Reachable middle :=
    start.next ⟨show Session.Permitted _ (.malloc 10 4) from ⟨by decide, by decide⟩, first⟩
  exact small.next ⟨show Session.Permitted _ (.malloc 20 1024) from ⟨by decide, by decide⟩, second⟩

theorem userHeap_reachable : ∃ session : Session,
    (Session.runs (usbrk 8192) 4096).Reachable session ∧ session.pointers = [6144, 4100] := by
  have evaluated : userHeap.map Session.pointers = .ok [6144, 4100] := by decide +kernel
  obtain ⟨session, run, pointers⟩ := map_eq_ok.mp evaluated
  exact ⟨session, userHeap_run run, pointers⟩

theorem liveBlocks_safe {sbrk : SbrkFunc} {heapStart : Nat} (contract : SbrkContract sbrk heapStart)
    (aligned : 4 ∣ heapStart) (startBound : heapStart < 4294967296) {session : Session}
    (reachable : (Session.runs sbrk heapStart).Reachable session) :
    (∀ block ∈ session.live, block.alignment ∣ block.pointer ∧
      block.request ≤ payloadSize session.allocator.memory block.pointer ∧
      session.allocator.heapStart ≤ fromPointer block.pointer ∧
      fromPointer block.pointer +
        MallocHeader.size session.allocator.memory (fromPointer block.pointer) ≤
          session.allocator.heap) ∧
    session.live.Pairwise (Disjoint session.allocator.memory) ∧
    ∀ operation after, (Session.runs sbrk heapStart).step session operation after →
      ∀ block ∈ session.live, operation.given ≠ some block.pointer →
        ∀ offset < payloadSize session.allocator.memory block.pointer,
          after.allocator.memory (block.pointer + offset) =
            session.allocator.memory (block.pointer + offset) := by
  obtain ⟨chunks, consistent⟩ := reachable_consistent contract aligned startBound reachable
  have tiles := consistent.tiled.tiles
  refine ⟨?_, ?_, ?_⟩
  · intro block isLive
    obtain ⟨blockAligned, chunk, member, address, from_, size, room⟩ := consistent.chunk_of isLive
    obtain ⟨lower, _, upper⟩ := tiles.bounds (mem_usedChunks.mp member).1
    rw [payloadSize, from_, size]
    exact ⟨blockAligned, by omega, lower, upper⟩
  · have distinct : session.live.Pairwise fun left right => left.pointer ≠ right.pointer := by
      have pointers := consistent.matched.pointers.nodup_iff.mpr consistent.distinct
      rwa [List.Nodup, List.pairwise_map] at pointers
    refine distinct.imp_of_mem ?_
    intro left right leftLive rightLive different
    obtain ⟨_, leftChunk, leftMember, leftAddress, leftFrom, leftSize, _⟩ := consistent.chunk_of leftLive
    obtain ⟨_, rightChunk, rightMember, rightAddress, rightFrom, rightSize, _⟩ :=
      consistent.chunk_of rightLive
    have apart := tiles.apart (mem_usedChunks.mp leftMember).1 (mem_usedChunks.mp rightMember).1 (by
      rintro rfl
      exact different (leftAddress.symm.trans rightAddress))
    simp only [Disjoint, leftFrom, rightFrom, leftSize, rightSize]
    exact apart
  · intro operation after stepped block isLive notGiven offset inside
    obtain ⟨_, _, effect⟩ := consistent.step contract stepped
    obtain ⟨_, chunk, member, address, from_, size, _⟩ := consistent.chunk_of isLive
    rw [payloadSize, from_, size] at inside
    refine effect.bytes chunk member (by rw [address]; exact notGiven) _ ?_ ?_
    · rw [← address, payload]
      omega
    · rw [← address, payload, Segment.stop]
      omega

theorem liveBlocks_safe_userHeap :
    ∃ session : Session, (Session.runs (usbrk 8192) 4096).Reachable session ∧
      session.pointers = [6144, 4100] ∧
      (∀ block ∈ session.live, block.alignment ∣ block.pointer) ∧
      session.live.Pairwise (Disjoint session.allocator.memory) := by
  obtain ⟨session, reachable, pointers⟩ := userHeap_reachable
  have safe := liveBlocks_safe (usbrk_contract (by decide)) (by decide) (by decide)
    reachable
  exact ⟨session, reachable, pointers, fun block isLive => (safe.1 block isLive).1, safe.2.1⟩

def walk (memory : Memory) (heap : Nat) : Nat → Nat → Option (List Nat)
  | 0, _ => none
  | fuel + 1, chunk =>
      if chunk = heap then some []
      else (walk memory heap fuel (nextChunk memory chunk)).map (chunk :: ·)

theorem walk_tiles {memory : Memory} {heap : Nat} (chunks : List Chunk) {low : Nat}
    (tiles : Tiles low chunks heap)
    (next : ∀ chunk ∈ chunks, nextChunk memory chunk.start = chunk.stop) :
    walk memory heap (chunks.length + 1) low = some (chunks.map Segment.start) := by
  induction chunks generalizing low with
  | nil =>
      simp only [Tiles] at tiles
      simp [walk, tiles]
  | cons head rest ih =>
      obtain ⟨start, positive, tail⟩ := tiles
      have ordered := tail.le
      have step := next head (by simp)
      simp only [Segment.stop] at ordered
      rw [walk, if_neg (by omega), ← start, step, List.length_cons,
        ih tail (fun chunk member => next chunk (by simp [member]))]
      rfl

theorem filter_used {state : Allocator} {chunks : List Chunk} (tiled : Tiled state chunks) :
    (chunks.map Segment.start).filter (used state.memory) =
      (usedChunks chunks).map Segment.start := by
  rw [List.filter_map, usedChunks]
  congr 1
  refine List.filter_congr ?_
  intro chunk member
  rw [Function.comp_apply, (tiled.headers chunk member).used]

/-- A run that releases none of the blocks live at its start keeps their chunks. -/
theorem run_keeps {sbrk : SbrkFunc} {heapStart : Nat} (contract : SbrkContract sbrk heapStart)
    {session after : Session} {chunks : List Chunk} {operations : List Operation}
    (consistent : Consistent heapStart session chunks)
    (run : (Session.runs sbrk heapStart).Run session operations after)
    (untouched : ∀ operation ∈ operations, ∀ pointer ∈ session.pointers,
      operation.released ≠ some pointer) :
    ∃ chunks', Consistent heapStart after chunks' ∧ usedChunks chunks ⊆ usedChunks chunks' := by
  refine run.induction
    (fun state => ∃ current, Consistent heapStart state current ∧
      usedChunks chunks ⊆ usedChunks current)
    (fun operation => ∀ pointer ∈ session.pointers, operation.released ≠ some pointer)
    ?_ untouched ⟨chunks, consistent, List.Subset.refl _⟩
  rintro state operation next allowed ⟨current, currentConsistent, kept⟩ stepped
  obtain ⟨chunks', later, effect⟩ := currentConsistent.step contract stepped
  refine ⟨chunks', later, ?_⟩
  intro chunk member
  refine effect.kept chunk (kept member) (allowed (payload chunk) ?_)
  exact consistent.matched.pointers.mem_iff.mpr (List.mem_map_of_mem member)

theorem heapWalk_exact {sbrk : SbrkFunc} {heapStart : Nat} (contract : SbrkContract sbrk heapStart)
    (aligned : 4 ∣ heapStart) (startBound : heapStart < 4294967296) {session : Session}
    (reachable : (Session.runs sbrk heapStart).Reachable session) :
    (∃ fuel visited,
      walk session.allocator.memory session.allocator.heap fuel session.allocator.heapStart =
        some visited ∧
      (∀ chunk ∈ visited, MallocHeader.size session.allocator.memory chunk ≠ 0 ∧
        4 ∣ MallocHeader.size session.allocator.memory chunk) ∧
      (visited.filter (used session.allocator.memory)).Perm
        (session.live.map fun block => fromPointer block.pointer) ∧
      session.allocator.heapUsed = ((visited.filter (used session.allocator.memory)).map
        (MallocHeader.size session.allocator.memory)).sum) ∧
    (∀ operations after, (Session.runs sbrk heapStart).Run session operations after →
      (∀ operation ∈ operations, ∀ pointer ∈ session.pointers, operation.released ≠ some pointer) →
      after.pointers.Perm session.pointers →
      after.allocator.heapUsed = session.allocator.heapUsed) ∧
    ∀ pointer ∈ session.pointers, ∃ after, session.allocator.free pointer = .ok after := by
  obtain ⟨chunks, consistent⟩ := reachable_consistent contract aligned startBound reachable
  have tiled := consistent.tiled
  refine ⟨⟨chunks.length + 1, chunks.map Segment.start, ?_, ?_, ?_, ?_⟩, ?_, ?_⟩
  · exact walk_tiles chunks tiled.tiles fun chunk member => tiled.nextChunk_eq member
  · intro start visited
    obtain ⟨chunk, member, rfl⟩ := List.mem_map.mp visited
    rw [(tiled.headers chunk member).size]
    exact ⟨by have := (tiled.tiles.bounds member).2.1; omega, tiled.multiples chunk member⟩
  · rw [filter_used tiled]
    have starts := consistent.matched.pointers.symm.map fromPointer
    rw [List.map_map, List.map_map] at starts
    refine List.Perm.trans (List.Perm.of_eq ?_) starts
    refine List.map_congr_left ?_
    intro chunk member
    rw [Function.comp_apply, payload,
      fromPointer_eq (chunk_pointer_lt tiled (mem_usedChunks.mp member).1)]
  · rw [filter_used tiled, tiled.accounted, totalSize, List.map_map]
    congr 1
    refine List.map_congr_left ?_
    intro chunk member
    rw [Function.comp_apply, (tiled.headers chunk (mem_usedChunks.mp member).1).size]
  · intro operations after run untouched balanced
    obtain ⟨chunks', later, kept⟩ := run_keeps contract consistent run untouched
    have sameLength : (usedChunks chunks').length = (usedChunks chunks).length := by
      have lengths := (later.matched.pointers.symm.trans (balanced.trans consistent.matched.pointers)).length_eq
      simpa using lengths
    have distinct : (usedChunks chunks).Nodup := tiled.tiles.nodup.filter _
    have same := (distinct.subperm kept).perm_of_length_le (by omega)
    rw [later.tiled.accounted, tiled.accounted, totalSize_perm same]
  · intro pointer isLive
    obtain ⟨before, chunk, rest, rfl, inUse, rfl⟩ := consistent.owner isLive
    obtain ⟨new, _, run, _⟩ := free_spec tiled inUse
    exact ⟨new, run⟩

theorem heapWalk_exact_userHeap :
    ∃ session : Session, (Session.runs (usbrk 8192) 4096).Reachable session ∧
      session.pointers = [6144, 4100] ∧
      ∀ pointer ∈ session.pointers, ∃ after, session.allocator.free pointer = .ok after := by
  obtain ⟨session, reachable, pointers⟩ := userHeap_reachable
  have exact_ := heapWalk_exact (usbrk_contract (by decide)) (by decide) (by decide)
    reachable
  exact ⟨session, reachable, pointers, exact_.2.2⟩

namespace Session

instance (session : Session) : (operation : Operation) → Decidable (session.Permitted operation)
  | .malloc _ _ => inferInstanceAs (Decidable (_ ∧ _))
  | .calloc _ _ => inferInstanceAs (Decidable (_ < _))
  | .realloc _ _ => inferInstanceAs (Decidable (_ ∧ _))
  | .free _ => inferInstanceAs (Decidable (_ ∈ _))
  | .write _ _ _ => inferInstanceAs (Decidable (_ ∧ _))

def tryOperation (sbrk : SbrkFunc) (session : Session) (operation : Operation) : Option Session :=
  if session.Permitted operation then (session.perform sbrk operation).toOption else none

def replayTest (sbrk : SbrkFunc) (heapStart : Nat) (operations : List Operation) (test : Session → Bool) : Bool :=
  System.replayTest (tryOperation sbrk)
    ((init sbrk (fun _ => 0) heapStart 0).toOption.map fun allocator => ⟨allocator, []⟩) operations test

theorem replayTest_reachable {sbrk : SbrkFunc} {heapStart : Nat} {operations : List Operation} {test : Session → Bool}
    (passed : replayTest sbrk heapStart operations test = true) :
    ∃ session, (Session.runs sbrk heapStart).Reachable session ∧ test session = true := by
  refine System.replayTest_reachable ?_ ?_ passed
  · intro session started
    obtain ⟨allocator, initialized, rfl⟩ := Option.map_eq_some_iff.mp started
    exact ⟨rfl, _, _, toOption_eq_some.mp initialized⟩
  · intro session operation after tried
    unfold tryOperation at tried
    split at tried
    · rename_i permitted
      exact ⟨permitted, toOption_eq_some.mp tried⟩
    · simp at tried

end Session

/-- Nothing is found behind a chunk from which the walk does not go on. -/
theorem walk_passes {memory : Memory} {heap chunk : Nat} (below : chunk ≠ heap)
    (endless : ∀ fuel, walk memory heap fuel (nextChunk memory chunk) = none) (fuel : Nat) :
    walk memory heap fuel chunk = none := by
  cases fuel with
  | zero => rfl
  | succ fuel => rw [walk, if_neg below, endless fuel, Option.map_none]

/-- A chunk of size zero is its own successor. -/
theorem walk_sticks {memory : Memory} {heap chunk : Nat} (below : chunk ≠ heap)
    (own : nextChunk memory chunk = chunk) (fuel : Nat) : walk memory heap fuel chunk = none := by
  induction fuel with
  | zero => rfl
  | succ fuel ih => rw [walk, if_neg below, own, ih, Option.map_none]

def generousSbrk : SbrkFunc := fun _ increment heap => heap + (increment + 4095) / 4096 * 4096

theorem heapWalk_wraps :
    (∀ call increment heap, heap + increment ≤ generousSbrk call increment heap ∧
      4 ∣ generousSbrk call increment heap - heap) ∧
    (∃ session : Session, (Session.runs generousSbrk 4096).Reachable session ∧
      ∀ fuel, walk session.allocator.memory session.allocator.heap fuel session.allocator.heapStart = none) ∧
    ∃ session : Session, (Session.runs generousSbrk 4101).Reachable session ∧
      MallocHeader.size session.allocator.memory session.allocator.heapStart = 7 := by
  refine ⟨?_, ?_, ?_⟩
  · intro call increment heap
    simp only [generousSbrk]
    omega
  -- The two blocks come to 252518400 bytes and 2^31, where the client wrote what looks like a used chunk.
  · have passed : Session.replayTest generousSbrk 4096
        [.malloc 1200000000 4, .malloc 1200000000 4, .write 8196 252518399 128, .free 1200009220, .free 8196]
        (fun session => decide (session.allocator.heapStart = 4096 ∧ session.allocator.heap = 2400010240 ∧
          nextChunk session.allocator.memory 4096 = 8192 ∧
          nextChunk session.allocator.memory 8192 = 252526592 ∧
          nextChunk session.allocator.memory 252526592 = 252526592)) = true := by decide +kernel
    obtain ⟨session, reachable, tested⟩ := Session.replayTest_reachable passed
    obtain ⟨start, top, first, second, third⟩ := of_decide_eq_true tested
    refine ⟨session, reachable, ?_⟩
    rw [start, top]
    refine walk_passes (by decide) ?_
    rw [first]
    refine walk_passes (by decide) ?_
    rw [second]
    exact walk_sticks (by decide) third
  · have passed : Session.replayTest generousSbrk 4101 [.malloc 4 8] (fun session => decide
        (MallocHeader.size session.allocator.memory session.allocator.heapStart = 7)) = true := by decide +kernel
    obtain ⟨session, reachable, tested⟩ := Session.replayTest_reachable passed
    exact ⟨session, reachable, of_decide_eq_true tested⟩

end Allocator

end ToyKernel
