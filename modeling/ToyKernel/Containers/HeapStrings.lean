import ToyKernel.Containers.StdString
import ToyKernel.Libc.Memmove

/-!
The strings of `libcxx/include/string` where they are: each object has its buffer on the user heap,
and every call goes through the allocator. A run of calls on many strings does what the strings of
lists do, keeps every other block of the heap as it is, and holds no memory but the buffers.
-/

namespace ToyKernel.Containers

open Library Allocator

inductive HeapFault
  | heap (fault : Allocator.Fault)
  | string (fault : StringFault)
  | noStorage
deriving DecidableEq, Repr

def onHeap {α : Type} (result : Except Allocator.Fault α) : Except HeapFault α := result.mapError .heap

def asString {α : Type} (result : Except StringFault α) : Except HeapFault α := result.mapError .string

structure StringObject where
  size : Nat
  capacity : Nat
  data : Nat
deriving DecidableEq, Repr

def contents (memory : Memory) (pointer length : Nat) : List UInt8 :=
  (List.range length).map fun offset => memory (pointer + offset)

/-- A copy from outside of the heap. -/
def writeBytes (memory : Memory) (pointer : Nat) : List UInt8 → Memory
  | [] => memory
  | byte :: rest => writeBytes (store memory pointer byte) (pointer + 1) rest

namespace StringObject

def allocate (sbrk : SbrkFunc) (size : Nat) (copyChars : Memory → Nat → Memory) (heap : Allocator) :
    Except HeapFault (Allocator × StringObject) := do
  let capacity := max StdString.kDefaultCapacity (size + 1)
  let (heap, data) ← onHeap (heap.calloc sbrk capacity 1)
  return ({ heap with memory := copyChars heap.memory data }, ⟨size, capacity, data⟩)

def ofCString (sbrk : SbrkFunc) (s : List UInt8) (heap : Allocator) :
    Except HeapFault (Allocator × StringObject) := do
  let length ← asString (strlen .outOfBounds s)
  allocate sbrk length (fun memory data => writeBytes memory data (s.take length)) heap

def copy (sbrk : SbrkFunc) (other : StringObject) (heap : Allocator) :
    Except HeapFault (Allocator × StringObject) := do
  let length ← asString (strlen .outOfBounds (contents heap.memory other.data other.capacity))
  allocate sbrk length (fun memory data => memcpy memory data other.data length) heap

def resize (sbrk : SbrkFunc) (size : Nat) (object : StringObject) (heap : Allocator) :
    Except HeapFault (Allocator × StringObject) := do
  let capacity := wrap32 (object.capacity * 2)
  require (size ≤ capacity) (.string .notEnoughCapacity)
  let (heap, data) ← onHeap (heap.realloc sbrk object.data capacity)
  require (data ≠ 0) .noStorage
  return ({ heap with memory := memset heap.memory (data + size) 0 (capacity - size) }, ⟨size, capacity, data⟩)

def pushBack (sbrk : SbrkFunc) (c : UInt8) (object : StringObject) (heap : Allocator) :
    Except HeapFault (Allocator × StringObject) := do
  let size := object.size + 1
  let (heap, object) ←
    if object.capacity ≤ size then resize sbrk size object heap else pure (heap, { object with size })
  return ({ heap with memory := store heap.memory (object.data + (size - 1)) c }, object)

def append (sbrk : SbrkFunc) (object other : StringObject) (heap : Allocator) :
    Except HeapFault (Allocator × StringObject) :=
  (List.range other.size).foldlM
    (fun state i => state.2.pushBack sbrk (state.1.memory (other.data + i)) state.1) (heap, object)

def erase (sbrk : SbrkFunc) (first last : Nat) (object : StringObject) (heap : Allocator) :
    Except HeapFault (Allocator × StringObject) := do
  require (first < object.size) (.string .eraseFirst)
  require (0 < last) (.string .eraseLast)
  require (first < last) (.string .eraseOrder)
  let last := if object.size < last then object.size else last
  let remaining := object.size - last
  let (heap, _) ← onHeap (Libc.memmove sbrk (object.data + first) (object.data + last) remaining heap)
  return ({ heap with memory := store heap.memory (object.data + (first + remaining)) 0 },
    { object with size := object.size - (last - first) })

def destroy (object : StringObject) (heap : Allocator) : Except HeapFault Allocator :=
  onHeap (Allocator.free object.data heap)

end StringObject

structure StringHeap where
  heap : Allocator
  objects : List StringObject

inductive StringCall
  | construct (text : List UInt8)
  | copy (source : Nat)
  | pushBack (target : Nat) (c : UInt8)
  | append (target source : Nat)
  | erase (target first last : Nat)
  | destroy (target : Nat)
deriving DecidableEq, Repr

namespace StringHeap

def add (world : StringHeap) (made : Allocator × StringObject) : StringHeap := ⟨made.1, world.objects ++ [made.2]⟩

def change (world : StringHeap) (target : Nat) (made : Allocator × StringObject) : StringHeap :=
  ⟨made.1, world.objects.set target made.2⟩

def object (world : StringHeap) (target : Nat) : Except HeapFault StringObject :=
  asString (peek .noSuchString world.objects target)

def perform (sbrk : SbrkFunc) (world : StringHeap) : StringCall → Except HeapFault StringHeap
  | .construct text => do
      let made ← StringObject.ofCString sbrk (text ++ [0]) world.heap
      return world.add made
  | .copy source => do
      let other ← world.object source
      let made ← other.copy sbrk world.heap
      return world.add made
  | .pushBack target c => do
      let object ← world.object target
      let made ← object.pushBack sbrk c world.heap
      return world.change target made
  | .append target source => do
      let object ← world.object target
      let other ← world.object source
      let made ← object.append sbrk other world.heap
      return world.change target made
  | .erase target first last => do
      let object ← world.object target
      let made ← object.erase sbrk first last world.heap
      return world.change target made
  | .destroy target => do
      let object ← world.object target
      let heap ← object.destroy world.heap
      return ⟨heap, world.objects.eraseIdx target⟩

end StringHeap

/-- The same calls on strings that are lists. What a longer block holds behind the old one does not
matter, because it is set to zero. -/
def performCall (strings : List StdString) : StringCall → Except StringFault (List StdString)
  | .construct text => performString strings (.construct text)
  | .copy source => performString strings (.copy source)
  | .pushBack target c => performString strings (.pushBack target c fun _ => 0)
  | .append target source => performString strings (.append target source fun _ => 0)
  | .erase target first last => performString strings (.erase target first last)
  | .destroy target => do
      let _ ← peek .noSuchString strings target
      return strings.eraseIdx target

/-- A text fits the numbers of the allocator, and a string is not appended to itself, which never
ends. -/
def StringCall.Permitted : StringCall → Prop
  | .construct text => text.length < 1073741824
  | .append target source => target ≠ source
  | _ => True

instance : DecidablePred StringCall.Permitted
  | .construct text => inferInstanceAs (Decidable (text.length < 1073741824))
  | .append target source => inferInstanceAs (Decidable (target ≠ source))
  | .copy _ | .pushBack _ _ | .erase _ _ _ | .destroy _ => inferInstanceAs (Decidable True)

structure Stored (session : Session) (object : StringObject) (string : StdString) : Prop where
  size : object.size = string.size
  capacity : object.capacity = string.capacity
  length : string.data.length = string.capacity
  room : string.size < string.capacity
  isLive : object.data ∈ session.pointers
  fits : string.capacity ≤ payloadSize session.allocator.memory object.data
  bytes : ∀ i < string.capacity, string.data[i]? = some (session.allocator.memory (object.data + i))

structure Backs (heapBottom heapTop : Nat) (start session : Session) (world : StringHeap)
    (strings : List StdString) : Prop where
  allocator : session.allocator = world.heap
  reachable : (userRuns heapBottom heapTop).Reachable session
  stored : List.Forall₂ (Stored session) world.objects strings
  owned : session.pointers.Perm (world.objects.map StringObject.data ++ start.pointers)
  kept : ∀ pointer ∈ start.pointers, Keeps start session pointer

section Worlds

variable {heapBottom heapTop : Nat} {start session after : Session} {world : StringHeap}
  {strings : List StdString} {object made : StringObject} {string changed : StdString} {target : Nat}

theorem Stored.keeps (stored : Stored session object string) (keeps : Keeps session after object.data) :
    Stored after object string := by
  refine ⟨stored.size, stored.capacity, stored.length, stored.room, keeps.isLive, ?_, fun i below => ?_⟩
  · rw [keeps.size]
    exact stored.fits
  · rw [stored.bytes i below, keeps.bytes i (Nat.lt_of_lt_of_le below stored.fits)]

theorem Backs.distinct (space : UserSpace heapBottom heapTop)
    (backs : Backs heapBottom heapTop start session world strings) :
    (world.objects.map StringObject.data ++ start.pointers).Nodup := by
  obtain ⟨chunks, consistent⟩ := space.consistent backs.reachable
  exact backs.owned.nodup_iff.mp consistent.pointers_nodup

theorem Backs.isLive (backs : Backs heapBottom heapTop start session world strings)
    (here : world.objects[target]? = some object) : object.data ∈ session.pointers :=
  backs.owned.mem_iff.mpr (List.mem_append_left _ (List.mem_map_of_mem (List.mem_of_getElem? here)))

/-- The buffers of two strings are two blocks. -/
theorem Backs.apart (space : UserSpace heapBottom heapTop)
    (backs : Backs heapBottom heapTop start session world strings) {other : StringObject} {j : Nat}
    (here : world.objects[target]? = some object) (there : world.objects[j]? = some other) (different : j ≠ target) :
    other.data ≠ object.data := by
  intro same
  have distinct := (List.nodup_append.mp (backs.distinct space)).1
  have inside : j < (world.objects.map StringObject.data).length := by
    rw [List.length_map]
    exact (List.getElem?_eq_some_iff.mp there).1
  refine different ((List.getElem?_inj inside distinct).mp ?_)
  rw [List.getElem?_map, List.getElem?_map, here, there]
  exact congrArg some same

/-- A block from before the run is not the buffer of a string. -/
theorem Backs.foreign (space : UserSpace heapBottom heapTop)
    (backs : Backs heapBottom heapTop start session world strings) {pointer : Nat}
    (here : world.objects[target]? = some object) (old : pointer ∈ start.pointers) : pointer ≠ object.data := by
  rintro rfl
  exact (List.nodup_append.mp (backs.distinct space)).2.2 _
    (List.mem_map_of_mem (List.mem_of_getElem? here)) _ old rfl

/-- Without the buffer of a string there are those of the others. -/
theorem Backs.buffers (backs : Backs heapBottom heapTop start session world strings)
    (here : world.objects[target]? = some object) : (session.pointers.erase object.data).Perm
      ((world.objects.map StringObject.data).eraseIdx target ++ start.pointers) := by
  have listed : object.data ∈ world.objects.map StringObject.data :=
    List.mem_map_of_mem (List.mem_of_getElem? here)
  have old := backs.owned.erase object.data
  rw [List.erase_append_left _ listed] at old
  refine old.trans ((erase_perm_eraseIdx ?_).append_right _)
  rw [List.getElem?_map, here]
  rfl

structure Rehoused (heapBottom heapTop : Nat) (session after : Session) (old new : Nat) : Prop where
  within : ∃ pointers, (∀ pointer ∈ pointers, pointer = old ∨ pointer ∉ session.pointers) ∧
    (Session.runs (usbrk heapTop) heapBottom).Within (Among pointers) session after
  pointers : after.pointers.Perm (new :: session.pointers.erase old)

theorem Rehoused.keeps (space : UserSpace heapBottom heapTop)
    (reachable : (userRuns heapBottom heapTop).Reachable session) {old new pointer : Nat}
    (rehoused : Rehoused heapBottom heapTop session after old new) (isLive : pointer ∈ session.pointers)
    (other : pointer ≠ old) : Keeps session after pointer := by
  obtain ⟨pointers, among, within⟩ := rehoused.within
  refine space.keeps reachable within isLive fun listed => ?_
  rcases among pointer listed with same | absent
  · exact other same
  · exact absent isLive

theorem Backs.change (space : UserSpace heapBottom heapTop)
    (backs : Backs heapBottom heapTop start session world strings) (here : world.objects[target]? = some object)
    (rehoused : Rehoused heapBottom heapTop session after object.data made.data) (stored : Stored after made changed) :
    Backs heapBottom heapTop start after (world.change target (after.allocator, made))
      (strings.set target changed) := by
  obtain ⟨_, _, within⟩ := rehoused.within
  have inside := (List.getElem?_eq_some_iff.mp here).1
  refine ⟨rfl, within_userRuns within backs.reachable, ?_, ?_, ?_⟩
  · refine forall₂_set_of backs.stored (fun j other second different there old => ?_) stored
    exact old.keeps (rehoused.keeps space backs.reachable old.isLive (backs.apart space here there different))
  · have bound : target < (world.objects.map StringObject.data).length := by simpa using inside
    refine rehoused.pointers.trans (((backs.buffers here).cons _).trans ?_)
    rw [StringHeap.change, List.map_set, ← List.cons_append]
    exact (List.set_perm_cons_eraseIdx bound made.data).symm.append_right _
  · intro pointer old
    exact (backs.kept pointer old).trans (rehoused.keeps space backs.reachable (backs.kept pointer old).isLive
      (backs.foreign space here old))

theorem Backs.add (backs : Backs heapBottom heapTop start session world strings)
    (keeps : ∀ pointer ∈ session.pointers, Keeps session after pointer)
    (reachable : (userRuns heapBottom heapTop).Reachable after)
    (pointers : after.pointers = made.data :: session.pointers) (stored : Stored after made changed) :
    Backs heapBottom heapTop start after (world.add (after.allocator, made)) (strings ++ [changed]) := by
  refine ⟨rfl, reachable, ?_, ?_, ?_⟩
  · exact forall₂_concat (backs.stored.imp fun _ _ old => old.keeps (keeps _ old.isLive)) stored
  · rw [pointers, StringHeap.add, List.map_append, List.map_singleton, List.append_assoc, List.singleton_append]
    exact (backs.owned.cons _).trans List.perm_middle.symm
  · intro pointer old
    exact (backs.kept pointer old).trans (keeps pointer (backs.kept pointer old).isLive)

theorem Backs.remove (space : UserSpace heapBottom heapTop)
    (backs : Backs heapBottom heapTop start session world strings) (here : world.objects[target]? = some object)
    (within : (Session.runs (usbrk heapTop) heapBottom).Within (Among [object.data]) session after)
    (pointers : after.pointers = session.pointers.erase object.data) :
    Backs heapBottom heapTop start after ⟨after.allocator, world.objects.eraseIdx target⟩
      (strings.eraseIdx target) := by
  have keeps : ∀ pointer ∈ session.pointers, pointer ≠ object.data → Keeps session after pointer :=
    fun pointer isLive other => space.keeps backs.reachable within isLive (by simpa using other)
  refine ⟨rfl, within_userRuns within backs.reachable, ?_, ?_, ?_⟩
  · refine forall₂_eraseIdx_of backs.stored fun j other second different there old => ?_
    exact old.keeps (keeps _ old.isLive (backs.apart space here there different))
  · rw [pointers, ← List.eraseIdx_map]
    exact backs.buffers here
  · intro pointer old
    exact (backs.kept pointer old).trans (keeps pointer (backs.kept pointer old).isLive
      (backs.foreign space here old))

end Worlds

end ToyKernel.Containers
