import ToyKernel.Allocator.UserHeap

/-!
`memmove` of `libc/string.cpp`. It copies through a block that it takes from the heap and hands back,
so it is right for ranges that overlap as long as the heap has room for the block; `erase` of the
strings and of the vectors moves the rest of its buffer with it.
-/

namespace ToyKernel.Libc

open Library Allocator

def memmove (sbrk : SbrkFunc) (dest src size : Nat) (heap : Allocator) :
    Except Allocator.Fault (Allocator × Nat) := do
  if size = 0 then return (heap, dest)
  let (heap, temp) ← heap.malloc sbrk size kMaxAlignment
  let memory := memcpy heap.memory temp src size
  let memory := memcpy memory dest temp size
  let heap ← Allocator.free temp { heap with memory }
  return (heap, dest)

structure Owned (session : Session) (pointer address size : Nat) : Prop where
  isLive : pointer ∈ session.pointers
  lower : pointer ≤ address
  upper : address + size ≤ pointer + payloadSize session.allocator.memory pointer

structure Moved (session : Session) (dest src size : Nat) (memory : Memory) : Prop where
  sizes : ∀ pointer ∈ session.pointers,
    payloadSize memory pointer = payloadSize session.allocator.memory pointer
  bytes : ∀ pointer ∈ session.pointers, ∀ offset < payloadSize session.allocator.memory pointer,
    memory (pointer + offset) =
      if dest ≤ pointer + offset ∧ pointer + offset < dest + size then
        session.allocator.memory (src + (pointer + offset - dest))
      else session.allocator.memory (pointer + offset)

/-- A copy through a third place, which is apart from both ranges. -/
theorem memcpy_through (memory : Memory) {dest src temp size address : Nat}
    (source : temp + size ≤ src ∨ src + size ≤ temp) (target : temp + size ≤ dest ∨ dest + size ≤ temp)
    (outside : address < temp ∨ temp + size ≤ address) :
    memcpy (memcpy memory temp src size) dest temp size address =
      if dest ≤ address ∧ address < dest + size then memory (src + (address - dest)) else memory address := by
  by_cases inside : dest ≤ address ∧ address < dest + size
  · rw [if_pos inside]
    have second := memcpy_copies (memcpy memory temp src size) dest temp size (address - dest) target.symm
      (by omega)
    have first := memcpy_copies memory temp src size (address - dest) source (by omega)
    rw [Nat.add_sub_cancel' inside.1] at second
    rw [second, first]
  · rw [if_neg inside]
    have second := memcpy_agreeOn (memcpy memory temp src size) dest temp address (address + 1) size (by omega)
    have first := memcpy_agreeOn memory temp src address (address + 1) size (by omega)
    rw [second address (Nat.le_refl _) (Nat.lt_succ_self _), first address (Nat.le_refl _) (Nat.lt_succ_self _)]

section Heap

variable {sbrk : SbrkFunc} {heapStart : Nat} {session middle : Session} {chunks : List Chunk}
  {dest src size temp owner pointer : Nat}

theorem memcpy_confined {memory : Memory} {start count : Nat} (lower : start ≤ dest) (upper : dest + size ≤ start + count) :
    Confined memory (memcpy memory dest src size) start count := by
  intro address outside
  exact memcpy_agreeOn memory dest src address (address + 1) size (by omega) address (Nat.le_refl _)
    (Nat.lt_succ_self _)

theorem Owned.keeps (owned : Owned session owner dest size) (keeps : Keeps session middle owner) :
    Owned middle owner dest size :=
  ⟨keeps.isLive, owned.lower, by rw [keeps.size]; exact owned.upper⟩

/-- The source is read where it was before the block was allocated. -/
theorem Owned.reads (owned : Owned session owner src size) (keeps : Keeps session middle owner) {offset : Nat}
    (inside : offset < size) :
    middle.allocator.memory (src + offset) = session.allocator.memory (src + offset) := by
  have lower := owned.lower
  have upper := owned.upper
  have same := keeps.bytes (src - owner + offset) (by omega)
  rwa [show owner + (src - owner + offset) = src + offset by omega] at same

/-- The range of a live block and the payload of a new one share no byte. -/
theorem Owned.apart (owned : Owned middle owner dest size) (consistent : Consistent heapStart middle chunks)
    (isLive : temp ∈ middle.pointers) (other : owner ≠ temp)
    (room : size ≤ payloadSize middle.allocator.memory temp) : temp + size ≤ dest ∨ dest + size ≤ temp := by
  have apart := consistent.payloads_apart owned.isLive isLive other
  have lower := owned.lower
  have upper := owned.upper
  omega

/-- Both copies and the return of the block, after it was allocated. -/
theorem bounce (contract : SbrkContract sbrk heapStart) (aligned : 4 ∣ heapStart)
    (startBound : heapStart < 4294967296) (reachable : (Session.runs sbrk heapStart).Reachable session)
    (isLive : temp ∈ session.pointers) (room : size ≤ payloadSize session.allocator.memory temp)
    (target : Owned session owner dest size) :
    ∃ new, Allocator.free temp { session.allocator with
        memory := memcpy (memcpy session.allocator.memory temp src size) dest temp size } = .ok new ∧
      (Session.runs sbrk heapStart).Within (Among [temp, owner]) session
        ⟨new, Session.removeBlock session.live temp⟩ ∧
      ∀ pointer ∈ session.pointers, pointer ≠ temp →
        payloadSize new.memory pointer = payloadSize session.allocator.memory pointer ∧
        ∀ offset < payloadSize session.allocator.memory pointer, new.memory (pointer + offset) =
          memcpy (memcpy session.allocator.memory temp src size) dest temp size (pointer + offset) := by
  obtain ⟨chunks, consistent⟩ := reachable_consistent contract aligned startBound reachable
  have first : Confined session.allocator.memory (memcpy session.allocator.memory temp src size) temp
      (payloadSize session.allocator.memory temp) := memcpy_confined (Nat.le_refl _) (by omega)
  have firstRun := withMemory_within contract aligned startBound reachable isLive first
  have firstReached := within_reachable firstRun reachable
  have middle := consistent.withMemory isLive first
  have sizes : ∀ pointer ∈ session.pointers, payloadSize (memcpy session.allocator.memory temp src size) pointer =
      payloadSize session.allocator.memory pointer := fun pointer listed =>
    payloadSize_withMemory consistent middle listed
  have second : Confined (memcpy session.allocator.memory temp src size)
      (memcpy (memcpy session.allocator.memory temp src size) dest temp size) owner
      (payloadSize (memcpy session.allocator.memory temp src size) owner) := by
    refine memcpy_confined target.lower ?_
    rw [sizes owner target.isLive]
    exact target.upper
  have secondRun := withMemory_within contract aligned startBound firstReached target.isLive second
  have secondReached := within_reachable secondRun firstReached
  have last := middle.withMemory target.isLive second
  obtain ⟨new, freed, freeRun, _⟩ := free_removes contract aligned startBound secondReached isLive
  refine ⟨new, freed, ?_, ?_⟩
  · have wide : ∀ given : List Nat, given ⊆ [temp, owner] → ∀ operation, Among given operation →
        Among [temp, owner] operation := fun given inside operation among pointer found => inside (among pointer found)
    refine ((firstRun.mono (wide _ (by simp))).trans (secondRun.mono (wide _ (by simp)))).trans
      (freeRun.mono (wide _ (by simp)))
  · intro pointer listed different
    have kept := within_keeps contract aligned startBound secondReached freeRun listed (by simpa using different)
    have size := (payloadSize_withMemory middle last listed).trans (sizes pointer listed)
    refine ⟨kept.size.trans size, fun offset inside => kept.bytes offset ?_⟩
    exact Nat.lt_of_lt_of_eq inside size.symm

theorem memmove_empty (dest src : Nat) (heap : Allocator) : memmove sbrk dest src 0 heap = .ok (heap, dest) := rfl

/-- `memmove` on ranges of live payloads, which may overlap: it is right, takes no memory for good, and
fails only if the heap has no room for its block. -/
theorem memmove_run {sourceBlock targetBlock : Nat} (contract : SbrkContract sbrk heapStart) (aligned : 4 ∣ heapStart)
    (startBound : heapStart < 4294967296) (reachable : (Session.runs sbrk heapStart).Reachable session)
    (small : paddedSize size kMaxAlignment < 2147483648)
    (source : Owned session sourceBlock src size)
    (target : Owned session targetBlock dest size) :
    Returns (memmove sbrk dest src size session.allocator) NoSpace fun result =>
      result.2 = dest ∧
        (∃ temp, temp ∉ session.pointers ∧
          (Session.runs sbrk heapStart).Within (Among [temp, targetBlock]) session ⟨result.1, session.live⟩) ∧
        Moved session dest src size result.1.memory := by
  by_cases empty : size = 0
  · subst empty
    rw [memmove_empty]
    refine returns_ok.mpr ⟨rfl, ⟨0, ?_, .refl session⟩, fun _ _ => rfl, fun _ _ _ _ => ?_⟩
    · intro listed
      obtain ⟨chunks, consistent⟩ := reachable_consistent contract aligned startBound reachable
      obtain ⟨chunk, _, address, _⟩ := consistent.placed listed
      simp only [payload, MallocHeader.headerSize] at address
      omega
    · rw [if_neg (by omega)]
  rw [memmove, if_neg empty]
  have spec := malloc_fresh contract aligned startBound reachable empty small
  refine Returns.then (spec.mono fun _ _ => trivial) ?_
  rintro ⟨heap, temp⟩ run
  obtain ⟨after, rfl, within, fresh⟩ := spec.of_ok run
  dsimp only at fresh ⊢
  obtain ⟨block, rfl, live⟩ := fresh.live
  have reached := within_reachable within reachable
  obtain ⟨chunks, consistent⟩ := reachable_consistent contract aligned startBound reached
  have isLive : block.pointer ∈ after.pointers := by
    rw [Session.pointers, live]
    exact List.mem_cons_self
  have differs : ∀ pointer ∈ session.pointers, pointer ≠ block.pointer := by
    rintro pointer listed rfl
    exact fresh.fresh listed
  have keeps : ∀ pointer ∈ session.pointers, Keeps session after pointer := fun pointer listed =>
    within_keeps contract aligned startBound reachable within listed List.not_mem_nil
  have target' := target.keeps (keeps targetBlock target.isLive)
  have source' := source.keeps (keeps sourceBlock source.isLive)
  obtain ⟨new, freed, bounced, bytes⟩ := bounce contract aligned startBound reached isLive fresh.room target'
  rw [freed, ok_bind]
  have removed : Session.removeBlock after.live block.pointer = session.live := by
    rw [live]
    exact removeBlock_cons fresh.fresh
  rw [removed] at bounced
  have sourceApart := source'.apart consistent isLive (differs sourceBlock source.isLive) fresh.room
  have targetApart := target'.apart consistent isLive (differs targetBlock target.isLive) fresh.room
  refine returns_pure.mpr ⟨rfl, ⟨block.pointer, fresh.fresh, ?_⟩, ?_, ?_⟩
  · exact (within.mono fun operation among pointer given => absurd (among pointer given) List.not_mem_nil).trans
      bounced
  · intro pointer listed
    exact (bytes pointer (keeps pointer listed).isLive (differs pointer listed)).1.trans (keeps pointer listed).size
  · intro pointer listed offset inside
    have there := keeps pointer listed
    have apart := consistent.payloads_apart there.isLive isLive (differs pointer listed)
    have room := fresh.room
    rw [there.size] at apart
    rw [(bytes pointer there.isLive (differs pointer listed)).2 offset (by rw [there.size]; exact inside),
      memcpy_through _ sourceApart targetApart (by omega)]
    refine ite_congr rfl (fun moved => ?_) fun _ => there.bytes offset inside
    exact source.reads (keeps sourceBlock source.isLive) (by omega)

/-- `memmove` between ranges of live blocks, which may overlap: the heap is the same afterwards but for
the bytes of the range, and the call fails only if there is no room for its own block. -/
theorem memmove_moves {sourceBlock targetBlock : Nat} (contract : SbrkContract sbrk heapStart) (aligned : 4 ∣ heapStart)
    (startBound : heapStart < 4294967296) (reachable : (Session.runs sbrk heapStart).Reachable session)
    (small : paddedSize size kMaxAlignment < 2147483648) (source : Owned session sourceBlock src size)
    (target : Owned session targetBlock dest size) :
    Returns (memmove sbrk dest src size session.allocator) NoSpace fun result =>
      result.2 = dest ∧ (Session.runs sbrk heapStart).Reachable ⟨result.1, session.live⟩ ∧
        result.1.heapUsed = session.allocator.heapUsed ∧ Moved session dest src size result.1.memory := by
  refine (memmove_run contract aligned startBound reachable small source target).mono ?_
  rintro ⟨heap, answer⟩ ⟨same, ⟨temp, _, within⟩, moved⟩
  have reached := within_reachable within reachable
  obtain ⟨_, before⟩ := reachable_consistent contract aligned startBound reachable
  obtain ⟨_, after⟩ := reachable_consistent contract aligned startBound reached
  refine ⟨same, reached, ?_, moved⟩
  rw [before.heapUsed_eq]
  refine after.heapUsed_eq.trans (congrArg List.sum (List.map_congr_left fun pointer isLive => ?_))
  exact congrArg (· + MallocHeader.headerSize) (moved.sizes pointer isLive)

/-- Six bytes, by two places within one block. -/
theorem memmove_moves_within : ∃ session result, (Session.runs (usbrk 8192) 4096).Reachable session ∧
    memmove (usbrk 8192) 4102 4100 6 session.allocator = .ok result ∧
    Moved session 4102 4100 6 result.1.memory := by
  have evaluated : userHeap.toOption.any (fun session =>
      decide (4100 ∈ session.pointers ∧ 8 ≤ payloadSize session.allocator.memory 4100) &&
        (memmove (usbrk 8192) 4102 4100 6 session.allocator).toOption.any fun _ => true) = true := by decide +kernel
  obtain ⟨session, run, both⟩ := toOption_any.mp evaluated
  obtain ⟨held, moves⟩ := Bool.and_eq_true_iff.mp both
  obtain ⟨isLive, room⟩ := of_decide_eq_true held
  obtain ⟨result, done, _⟩ := toOption_any.mp moves
  have moved := memmove_moves (usbrk_contract (by decide)) (by decide) (by decide) (userHeap_run run)
    (show paddedSize 6 kMaxAlignment < 2147483648 by decide)
    (⟨isLive, by decide, by omega⟩ : Owned session 4100 4100 6) (⟨isLive, by decide, by omega⟩ : Owned session 4100 4102 6)
  exact ⟨session, result, userHeap_run run, done, (moved.of_ok done).2.2.2⟩

end Heap

end ToyKernel.Libc
