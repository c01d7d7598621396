import ToyKernel.Library.Buffer
import ToyKernel.Library.Refinement

/-!
The vector of `libcxx/include/vector` against a list. Vectors own blocks of an abstract heap.
The copy and the move constructor are declared for `vector<T>`, which is the vector with the
default initial capacity; for any other capacity they are conversions, and the compiler provides
a copy that shares the block.
-/

namespace ToyKernel.Containers

open Library

inductive VectorFault
  | notEnoughCapacity | outOfBounds | uninitialised | freedBlock | noSuchVector
deriving DecidableEq, Repr

structure StdVector where
  size : Nat
  capacity : Nat
  data : Nat
deriving DecidableEq, Repr

/-- All vectors, and the blocks they point to; a slot without a value is not initialised. -/
structure VectorWorld (α : Type) where
  vectors : List StdVector
  blocks : List (Option (List (Option α)))

namespace VectorWorld

variable {α : Type}

def kDefaultInitCapacity : Nat := 8

def block (world : VectorWorld α) (data : Nat) : Except VectorFault (List (Option α)) :=
  match world.blocks[data]? with
  | some (some slots) => .ok slots
  | _ => .error .freedBlock

def setBlock (world : VectorWorld α) (data : Nat) (slots : List (Option α)) : VectorWorld α :=
  { world with blocks := world.blocks.set data (some slots) }

def malloc (world : VectorWorld α) (capacity : Nat) : VectorWorld α × Nat :=
  ({ world with blocks := world.blocks ++ [some (List.replicate capacity none)] }, world.blocks.length)

def realloc (world : VectorWorld α) (data capacity : Nat) : Except VectorFault (VectorWorld α × Nat) := do
  let slots ← world.block data
  let longer := slots ++ List.replicate (capacity - slots.length) none
  return ({ world with blocks := world.blocks.set data none ++ [some longer] }, world.blocks.length)

def read (slots : List (Option α)) (index : Nat) : Except VectorFault α := do
  let slot ← peek .outOfBounds slots index
  match slot with
  | some value => return value
  | none => .error .uninitialised

def placeAll (slots : List (Option α)) : Nat → List α → Except VectorFault (List (Option α))
  | _, [] => return slots
  | index, item :: rest => do
      let next ← poke .outOfBounds slots index (some item)
      placeAll next (index + 1) rest

def placeFrom (source slots : List (Option α)) : Nat → Nat → Except VectorFault (List (Option α))
  | _, 0 => return slots
  | index, count + 1 => do
      let item ← read source index
      let next ← poke .outOfBounds slots index (some item)
      placeFrom source next (index + 1) count

def add (world : VectorWorld α) (vector : StdVector) : VectorWorld α :=
  { world with vectors := world.vectors ++ [vector] }

section Constructors

variable (initCapacity : Nat)

def construct (world : VectorWorld α) : VectorWorld α :=
  let (world, data) := world.malloc initCapacity
  world.add { size := 0, capacity := initCapacity, data }

def constructFrom (world : VectorWorld α) (items : List α) : Except VectorFault (VectorWorld α) := do
  let capacity := max initCapacity items.length
  let (world, data) := world.malloc capacity
  let slots ← world.block data
  let slots ← placeAll slots 0 items
  return (world.setBlock data slots).add { size := items.length, capacity, data }

def constructRange (world : VectorWorld α) (range : List α) : Except VectorFault (VectorWorld α) :=
  world.constructFrom initCapacity range

def constructList (world : VectorWorld α) (list : List α) : Except VectorFault (VectorWorld α) :=
  world.constructFrom initCapacity list

def implicitCopy (world : VectorWorld α) (other : StdVector) : VectorWorld α := world.add other

def copy (world : VectorWorld α) (source : Nat) : Except VectorFault (VectorWorld α) := do
  let other ← peek .noSuchVector world.vectors source
  if initCapacity = kDefaultInitCapacity then
    let capacity := max initCapacity other.size
    let (world, data) := world.malloc capacity
    let slots ← world.block data
    let items ← world.block other.data
    let slots ← placeFrom items slots 0 other.size
    return (world.setBlock data slots).add { size := other.size, capacity, data }
  else
    return world.implicitCopy other

/-- The source keeps its block but not the values that were moved out of it. The destructor of
the class leaves no implicit move constructor. -/
def moveFrom (world : VectorWorld α) (source : Nat) : Except VectorFault (VectorWorld α) := do
  let other ← peek .noSuchVector world.vectors source
  if initCapacity = kDefaultInitCapacity then
    let (world, data) := world.malloc other.capacity
    let slots ← world.block data
    let items ← world.block other.data
    let slots ← placeFrom items slots 0 other.size
    let emptied := List.replicate other.size none ++ items.drop other.size
    let world := (world.setBlock data slots).setBlock other.data emptied
    let world := { world with vectors := world.vectors.set source { other with size := 0 } }
    return world.add { size := other.size, capacity := other.capacity, data }
  else
    return world.implicitCopy other

end Constructors

/-- Allocations succeed; the allocator serves no request of 2^31 bytes, so the doubled capacity
does not wrap. -/
def incrementSize (world : VectorWorld α) (vector : StdVector) :
    Except VectorFault (VectorWorld α × StdVector) := do
  let size := vector.size + 1
  if vector.capacity < size then
    let capacity := vector.capacity * 2
    require (size ≤ capacity) .notEnoughCapacity
    let (world, data) ← world.realloc vector.data capacity
    return (world, { size, capacity, data })
  else
    return (world, { vector with size })

def pushBack (world : VectorWorld α) (target : Nat) (item : α) : Except VectorFault (VectorWorld α) := do
  let vector ← peek .noSuchVector world.vectors target
  let (world, vector) ← world.incrementSize vector
  let slots ← world.block vector.data
  let slots ← poke .outOfBounds slots (vector.size - 1) (some item)
  let world := world.setBlock vector.data slots
  return { world with vectors := world.vectors.set target vector }

def erase (world : VectorWorld α) (target iter : Nat) : Except VectorFault (VectorWorld α) := do
  let vector ← peek .noSuchVector world.vectors target
  match (List.range vector.size).find? (· == iter) with
  | none => return world
  | some pos =>
      let remaining := vector.size - (pos + 1)
      let slots ← world.block vector.data
      let slots ← move .outOfBounds slots pos (pos + 1) remaining
      let world := world.setBlock vector.data slots
      return { world with vectors := world.vectors.set target { vector with size := vector.size - 1 } }

def get (world : VectorWorld α) (vector : StdVector) (index : Nat) : Except VectorFault α := do
  let slots ← world.block vector.data
  read slots index

def back (world : VectorWorld α) (vector : StdVector) : Except VectorFault α :=
  world.get vector (vector.size - 1)

section Search

variable [DecidableEq α]

def findFrom (slots : List (Option α)) (ref : α) : Nat → Nat → Except VectorFault Nat
  | index, 0 => return index
  | index, count + 1 => do
      let item ← read slots index
      if item = ref then return index else findFrom slots ref (index + 1) count

def find (world : VectorWorld α) (vector : StdVector) (ref : α) : Except VectorFault Nat := do
  let slots ← world.block vector.data
  findFrom slots ref 0 vector.size

def contains (world : VectorWorld α) (vector : StdVector) (ref : α) : Except VectorFault Bool := do
  let found ← world.find vector ref
  return decide (found ≠ vector.size)

end Search

end VectorWorld

section Slots

open VectorWorld

variable {α : Type}

def Starts (slots : List (Option α)) (list : List α) : Prop := slots.take list.length = list.map some

variable {slots source : List (Option α)} {list : List α}

theorem Starts.getElem? (starts : Starts slots list) {index : Nat} (inside : index < list.length) :
    slots[index]? = some (some list[index]) := by
  have taken := congrArg (·[index]?) starts
  simp only [List.getElem?_take, if_pos inside, List.getElem?_map, List.getElem?_eq_getElem inside] at taken
  exact taken

theorem Starts.read (starts : Starts slots list) {index : Nat} (inside : index < list.length) :
    read slots index = .ok list[index] := by
  rw [VectorWorld.read, peek_some _ (starts.getElem? inside), ok_bind]
  rfl

theorem Starts.place (starts : Starts slots list) (room : list.length < slots.length) (item : α) :
    Starts (slots.set list.length (some item)) (list ++ [item]) := by
  have mapped : (list.map some).length = list.length := List.length_map some
  have front : slots.take (list.map some).length = list.map some := by
    rw [mapped]
    exact starts
  have next := take_set_concat front (by omega) (some item)
  rw [mapped, List.length_append, mapped] at next
  rw [Starts, List.length_append, List.map_append]
  exact next

theorem placeAll_eq (starts : Starts slots list) (items : List α)
    (room : list.length + items.length ≤ slots.length) :
    ∃ placed, placeAll slots list.length items = .ok placed ∧ placed.length = slots.length ∧
      Starts placed (list ++ items) := by
  induction items generalizing slots list with
  | nil => exact ⟨slots, rfl, rfl, by simpa using starts⟩
  | cons item rest ih =>
      rw [List.length_cons] at room
      have longer : (list ++ [item]).length = list.length + 1 := by simp
      obtain ⟨placed, done, length, still⟩ := ih (starts.place (by omega) item) (by simp; omega)
      rw [longer] at done
      refine ⟨placed, ?_, by simpa using length, by simpa using still⟩
      rw [placeAll, poke_eq _ (by omega), ok_bind, done]

/-- Copying the elements one by one, with the first ones already there. -/
theorem placeFrom_eq (holds : Starts source list) {index count : Nat} (total : index + count = list.length)
    (starts : Starts slots (list.take index)) (room : list.length ≤ slots.length) :
    ∃ placed, placeFrom source slots index count = .ok placed ∧ placed.length = slots.length ∧
      Starts placed list := by
  induction count generalizing slots index with
  | zero =>
      have whole : list.take index = list := List.take_of_length_le (by omega)
      rw [whole] at starts
      exact ⟨slots, rfl, rfl, starts⟩
  | succ count ih =>
      have inside : index < list.length := by omega
      have short : (list.take index).length = index := by
        rw [List.length_take]
        omega
      have placed := starts.place (by omega) list[index]
      rw [short, List.take_append_getElem inside] at placed
      obtain ⟨result, done, length, still⟩ := ih (by omega) placed (by simpa using room)
      refine ⟨result, ?_, by simpa using length, still⟩
      rw [placeFrom, holds.read inside, ok_bind, poke_eq _ (by omega), ok_bind, done]

theorem Starts.erase (starts : Starts slots list) {index : Nat} (inside : index < list.length)
    (room : list.length ≤ slots.length) :
    ∃ moved, move VectorFault.outOfBounds slots index (index + 1) (list.length - (index + 1)) = .ok moved ∧
      moved.length = slots.length ∧ Starts moved (list.eraseIdx index) := by
  have front : slots.take index = (list.take index).map some := by
    have taken := congrArg (List.take index) starts
    rwa [List.take_take, Nat.min_eq_left (by omega), ← List.map_take] at taken
  have back : (slots.drop (index + 1)).take (list.length - (index + 1)) = (list.drop (index + 1)).map some := by
    have dropped := congrArg (List.drop (index + 1)) starts
    rwa [List.drop_take, ← List.map_drop] at dropped
  have shorter : (list.eraseIdx index).length = list.length - 1 := List.length_eraseIdx_of_lt inside
  refine ⟨_, move_eq _ (by omega) (by omega), ?_, ?_⟩
  · simp only [List.length_append, List.length_take, List.length_drop]
    omega
  · rw [front, back, ← List.map_append, ← List.eraseIdx_eq_take_drop_succ, Starts]
    exact List.take_left' (by simp)

theorem findFrom_eq [DecidableEq α] (starts : Starts slots list) (ref : α) {index count : Nat}
    (total : index + count = list.length) :
    findFrom slots ref index count = .ok (index + (list.drop index).idxOf ref) := by
  induction count generalizing index with
  | zero =>
      rw [findFrom, List.drop_eq_nil_of_le (by omega)]
      rfl
  | succ count ih =>
      have inside : index < list.length := by omega
      rw [findFrom, starts.read inside, ok_bind, List.drop_eq_getElem_cons inside, List.idxOf_cons]
      by_cases same : list[index] = ref
      · have found : (list[index] == ref) = true := by simpa using same
        rw [if_pos same, found]
        rfl
      · have other : (list[index] == ref) = false := by simpa using same
        rw [if_neg same, other, ih (by omega), cond_false, Nat.add_right_comm, Nat.add_assoc]

end Slots

section Worlds

open VectorWorld

variable {α : Type} {world : VectorWorld α} {vector : StdVector} {list : List α} {lists : List (List α)}

structure VectorRep (blocks : List (Option (List (Option α)))) (vector : StdVector) (list : List α) : Prop where
  size : vector.size = list.length
  positive : 0 < vector.capacity
  room : vector.size ≤ vector.capacity
  slots : ∃ slots, blocks[vector.data]? = some (some slots) ∧ slots.length = vector.capacity ∧
    Starts slots list

structure Owned (world : VectorWorld α) (lists : List (List α)) : Prop where
  length : world.vectors.length = lists.length
  rep : ∀ {index : Nat} {vector : StdVector} {list : List α}, world.vectors[index]? = some vector → lists[index]? = some list →
    VectorRep world.blocks vector list
  apart : ∀ {first second : Nat} {one other : StdVector}, world.vectors[first]? = some one →
    world.vectors[second]? = some other → one.data = other.data → first = second

theorem VectorRep.inside {blocks : List (Option (List (Option α)))} (rep : VectorRep blocks vector list) :
    vector.data < blocks.length := by
  obtain ⟨slots, found, _⟩ := rep.slots
  exact (List.getElem?_eq_some_iff.mp found).1

theorem VectorRep.keep {blocks after : List (Option (List (Option α)))} (rep : VectorRep blocks vector list)
    (same : after[vector.data]? = blocks[vector.data]?) : VectorRep after vector list where
  size := rep.size
  positive := rep.positive
  room := rep.room
  slots := by
    obtain ⟨slots, found, facts⟩ := rep.slots
    exact ⟨slots, same.trans found, facts⟩

theorem Owned.found (owned : Owned world lists) {index : Nat} (here : lists[index]? = some list) :
    ∃ vector, world.vectors[index]? = some vector ∧ VectorRep world.blocks vector list := by
  have inside := (List.getElem?_eq_some_iff.mp here).1
  rw [← owned.length] at inside
  exact ⟨_, List.getElem?_eq_getElem inside, owned.rep (List.getElem?_eq_getElem inside) here⟩

theorem Owned.inside (owned : Owned world lists) {index : Nat}
    (here : world.vectors[index]? = some vector) : vector.data < world.blocks.length := by
  have inside := (List.getElem?_eq_some_iff.mp here).1
  rw [owned.length] at inside
  exact (owned.rep here (List.getElem?_eq_getElem inside)).inside

/-- One vector changes and may move to a new block; no other block changes. -/
theorem Owned.replace (owned : Owned world lists) {index : Nat} {changed : StdVector} {new : List α}
    {blocks : List (Option (List (Option α)))} (here : world.vectors[index]? = some vector)
    (place : changed.data = vector.data ∨ world.blocks.length ≤ changed.data)
    (others : ∀ data < world.blocks.length, data ≠ vector.data → blocks[data]? = world.blocks[data]?)
    (rep : VectorRep blocks changed new) :
    Owned ⟨world.vectors.set index changed, blocks⟩ (lists.set index new) where
  length := by
    simp [owned.length]
  rep := by
    intro query found list there model
    by_cases same : index = query
    · subst same
      have bound := (List.getElem?_eq_some_iff.mp here).1
      rw [List.getElem?_set_self bound] at there
      rw [List.getElem?_set_self (by rw [← owned.length]; exact bound)] at model
      cases there
      cases model
      exact rep
    · rw [List.getElem?_set_ne same] at there model
      refine (owned.rep there model).keep (others _ (owned.inside there) ?_)
      intro shared
      exact same (owned.apart here there shared.symm)
  apart := by
    have clash : ∀ {query : Nat} {other : StdVector}, world.vectors[query]? = some other →
        changed.data = other.data → index = query := by
      intro query other there shared
      rcases place with same | new
      · exact owned.apart here there (same.symm.trans shared)
      · have bound := owned.inside there
        omega
    have bound := (List.getElem?_eq_some_iff.mp here).1
    intro first second one other atFirst atSecond shared
    by_cases isFirst : index = first
    · subst isFirst
      rw [List.getElem?_set_self bound] at atFirst
      cases atFirst
      by_cases isSecond : index = second
      · exact isSecond
      · rw [List.getElem?_set_ne isSecond] at atSecond
        exact clash atSecond shared
    · rw [List.getElem?_set_ne isFirst] at atFirst
      by_cases isSecond : index = second
      · subst isSecond
        rw [List.getElem?_set_self bound] at atSecond
        cases atSecond
        exact (clash atFirst shared.symm).symm
      · rw [List.getElem?_set_ne isSecond] at atSecond
        exact owned.apart atFirst atSecond shared

theorem Owned.rewrite (owned : Owned world lists) {index : Nat} {new : List α} {slots : List (Option α)}
    (here : world.vectors[index]? = some vector) (found : lists[index]? = some list)
    (length : slots.length = vector.capacity) (starts : Starts slots new) (room : new.length ≤ vector.capacity) :
    Owned ⟨world.vectors.set index { vector with size := new.length },
      world.blocks.set vector.data (some slots)⟩ (lists.set index new) := by
  have old := owned.rep here found
  have rep : VectorRep (world.blocks.set vector.data (some slots)) { vector with size := new.length } new :=
    ⟨rfl, old.positive, room, slots, List.getElem?_set_self old.inside, length, starts⟩
  exact owned.replace here (.inl rfl) (fun data _ different => List.getElem?_set_ne (Ne.symm different)) rep

theorem Owned.add (owned : Owned world lists) {made : StdVector} {new : List α}
    {blocks : List (Option (List (Option α)))} (place : made.data = world.blocks.length)
    (others : ∀ data < world.blocks.length, blocks[data]? = world.blocks[data]?)
    (rep : VectorRep blocks made new) : Owned ⟨world.vectors ++ [made], blocks⟩ (lists ++ [new]) where
  length := by
    simp [owned.length]
  rep := by
    intro query found list there model
    rcases getElem?_concat_cases there with old | ⟨rfl, rfl⟩
    · have bound := (List.getElem?_eq_some_iff.mp old).1
      rw [List.getElem?_append_left (by rw [← owned.length]; exact bound)] at model
      exact (owned.rep old model).keep (others _ (owned.inside old))
    · rw [owned.length, List.getElem?_concat_length] at model
      cases model
      exact rep
  apart := by
    have fresh : ∀ {query : Nat} {other : StdVector}, world.vectors[query]? = some other →
        other.data ≠ made.data := by
      intro query other there shared
      have bound := owned.inside there
      omega
    intro first second one other atFirst atSecond shared
    rcases getElem?_concat_cases atFirst with oldFirst | ⟨rfl, rfl⟩
    · rcases getElem?_concat_cases atSecond with oldSecond | ⟨rfl, rfl⟩
      · exact owned.apart oldFirst oldSecond shared
      · exact absurd shared (fresh oldFirst)
    · rcases getElem?_concat_cases atSecond with oldSecond | ⟨rfl, rfl⟩
      · exact absurd shared.symm (fresh oldSecond)
      · rfl

end Worlds

section Calls

open VectorWorld

variable {α : Type} {world : VectorWorld α} {vector : StdVector} {list : List α} {lists : List (List α)}

theorem block_eq {data : Nat} {slots : List (Option α)} (found : world.blocks[data]? = some (some slots)) :
    world.block data = .ok slots := by
  rw [VectorWorld.block, found]

theorem starts_nil (slots : List (Option α)) : Starts slots [] := rfl

theorem construct_owned (owned : Owned world lists) {initCapacity : Nat} (positive : 0 < initCapacity) :
    Owned (world.construct initCapacity) (lists ++ [[]]) := by
  refine owned.add rfl (fun data inside => List.getElem?_append_left inside) ?_
  exact ⟨rfl, positive, Nat.zero_le _, _, List.getElem?_concat_length, List.length_replicate, starts_nil _⟩

/-- The end of a constructor: the new block is filled and the vector appears. -/
theorem Owned.filled (owned : Owned world lists) {capacity : Nat} {slots : List (Option α)}
    (positive : 0 < capacity) (length : slots.length = capacity) (starts : Starts slots list)
    (room : list.length ≤ capacity) :
    Owned (((world.malloc capacity).1.setBlock world.blocks.length slots).add
      { size := list.length, capacity, data := world.blocks.length }) (lists ++ [list]) := by
  refine owned.add rfl (fun data inside => ?_) ⟨rfl, positive, room, slots, ?_, length, starts⟩
  · rw [VectorWorld.setBlock, VectorWorld.malloc, List.getElem?_set_ne (by omega),
      List.getElem?_append_left inside]
  · exact List.getElem?_set_self (by simp [VectorWorld.malloc])

theorem constructFrom_owned (owned : Owned world lists) {initCapacity : Nat} (positive : 0 < initCapacity)
    (items : List α) :
    ∃ after, world.constructFrom initCapacity items = .ok after ∧ Owned after (lists ++ [items]) := by
  have block : (world.malloc (max initCapacity items.length)).1.block world.blocks.length =
      .ok (List.replicate (max initCapacity items.length) none) :=
    block_eq List.getElem?_concat_length
  obtain ⟨slots, placed, length, starts⟩ :=
    placeAll_eq (starts_nil (List.replicate (max initCapacity items.length) none)) items (by simp)
  refine ⟨_, ?_, owned.filled (by omega) (length.trans List.length_replicate) starts (by omega)⟩
  have filled : placeAll (List.replicate (max initCapacity items.length) none) 0 items = .ok slots := placed
  unfold VectorWorld.constructFrom
  dsimp only [VectorWorld.malloc] at block ⊢
  rw [block, ok_bind, filled, ok_bind]
  rfl

theorem placeFrom_owned (owned : Owned world lists) {capacity source : Nat} (found : lists[source]? = some list)
    (room : list.length ≤ capacity) :
    ∃ other items slots, world.vectors[source]? = some other ∧ VectorRep world.blocks other list ∧
      (world.malloc capacity).1.block world.blocks.length = .ok (List.replicate capacity none) ∧
      (world.malloc capacity).1.block other.data = .ok items ∧ items.length = other.capacity ∧
      placeFrom items (List.replicate capacity none) 0 other.size = .ok slots ∧
      slots.length = capacity ∧ Starts slots list := by
  obtain ⟨other, here, rep⟩ := owned.found found
  obtain ⟨items, place, length, starts⟩ := rep.slots
  obtain ⟨slots, placed, slotsLength, filled⟩ :=
    placeFrom_eq starts (Nat.zero_add list.length) (starts_nil (List.replicate capacity none)) (by simpa using room)
  rw [← rep.size] at placed
  refine ⟨other, items, slots, here, rep, block_eq List.getElem?_concat_length, block_eq ?_, length, placed,
    slotsLength.trans List.length_replicate, filled⟩
  exact (List.getElem?_append_left rep.inside).trans place

theorem copy_owned (owned : Owned world lists) {source : Nat} (found : lists[source]? = some list) :
    ∃ after, world.copy kDefaultInitCapacity source = .ok after ∧ Owned after (lists ++ [list]) := by
  obtain ⟨other, items, slots, here, rep, block, old, _, placed, length, starts⟩ :=
    placeFrom_owned owned found (show list.length ≤ max kDefaultInitCapacity list.length by omega)
  rw [← rep.size] at block old placed length
  have positive : 0 < max kDefaultInitCapacity list.length := by
    rw [kDefaultInitCapacity]
    omega
  refine ⟨_, ?_, owned.filled positive (by rw [length, rep.size]) starts (by omega)⟩
  unfold VectorWorld.copy
  dsimp only [VectorWorld.malloc] at block old ⊢
  rw [peek_some _ here, ok_bind, if_pos rfl, block, ok_bind, old, ok_bind, placed, ok_bind, rep.size]
  rfl

theorem move_owned (owned : Owned world lists) {source : Nat} (found : lists[source]? = some list) :
    ∃ after, world.moveFrom kDefaultInitCapacity source = .ok after ∧
      Owned after (lists.set source [] ++ [list]) := by
  obtain ⟨other, here, rep⟩ := owned.found found
  obtain ⟨_, items, slots, there, _, block, old, itemsLength, placed, length, starts⟩ :=
    placeFrom_owned owned found (show list.length ≤ other.capacity from rep.size ▸ rep.room)
  cases here.symm.trans there
  have size := rep.size
  have room := rep.room
  have bound := rep.inside
  have emptied : Owned ⟨world.vectors.set source { other with size := 0 },
      world.blocks.set other.data (some (List.replicate other.size none ++ items.drop other.size))⟩
      (lists.set source []) := by
    refine owned.rewrite here found ?_ (starts_nil _) (Nat.zero_le _)
    rw [List.length_append, List.length_replicate, List.length_drop]
    omega
  have moved := emptied.filled rep.positive length starts (by omega)
  refine ⟨_, ?_, moved⟩
  have apart : other.data ≠ world.blocks.length := by omega
  unfold VectorWorld.moveFrom
  dsimp only [VectorWorld.malloc] at block old ⊢
  rw [peek_some _ here, ok_bind, if_pos rfl, block, ok_bind, old, ok_bind, placed, ok_bind]
  simp only [VectorWorld.setBlock, VectorWorld.add, List.length_set, size,
    List.set_comm _ _ apart.symm, List.set_append_left _ _ bound]
  rfl

theorem pushBack_owned (owned : Owned world lists) {target : Nat} (found : lists[target]? = some list) (item : α) :
    ∃ after, world.pushBack target item = .ok after ∧ Owned after (lists.set target (list ++ [item])) := by
  obtain ⟨vector, here, rep⟩ := owned.found found
  obtain ⟨slots, place, length, starts⟩ := rep.slots
  have size := rep.size
  have room := rep.room
  have bound := rep.inside
  have positive := rep.positive
  have longer : (list ++ [item]).length = list.length + 1 := by simp
  by_cases full : vector.capacity < vector.size + 1
  · have enough : vector.size + 1 ≤ vector.capacity * 2 := by omega
    have more : Starts (slots ++ List.replicate (vector.capacity * 2 - slots.length) none) list := by
      rw [Starts, List.take_append_of_le_length (by omega)]
      exact starts
    have total : (slots ++ List.replicate (vector.capacity * 2 - slots.length) (none : Option α)).length =
        vector.capacity * 2 := by
      simp
      omega
    have placed := more.place (by omega) item
    have block : VectorWorld.block ⟨world.vectors, world.blocks.set vector.data none ++
        [some (slots ++ List.replicate (vector.capacity * 2 - slots.length) none)]⟩ world.blocks.length =
          .ok (slots ++ List.replicate (vector.capacity * 2 - slots.length) none) := by
      refine block_eq ?_
      rw [List.getElem?_append_right (by simp), List.length_set, Nat.sub_self]
      rfl
    have kept : ∀ data < world.blocks.length, data ≠ vector.data →
        ((world.blocks.set vector.data none ++ [some (slots ++
          List.replicate (vector.capacity * 2 - slots.length) none)]).set world.blocks.length
            (some ((slots ++ List.replicate (vector.capacity * 2 - slots.length) none).set list.length
              (some item))))[data]? = world.blocks[data]? := by
      intro data inside different
      rw [List.getElem?_set_ne (by omega), List.getElem?_append_left (by simpa using inside),
        List.getElem?_set_ne (Ne.symm different)]
    have moved : VectorRep ((world.blocks.set vector.data none ++ [some (slots ++
          List.replicate (vector.capacity * 2 - slots.length) none)]).set world.blocks.length
            (some ((slots ++ List.replicate (vector.capacity * 2 - slots.length) none).set list.length
              (some item))))
        { size := vector.size + 1, capacity := vector.capacity * 2, data := world.blocks.length }
        (list ++ [item]) := by
      refine ⟨?_, ?_, enough, _, List.getElem?_set_self (by simp), ?_, placed⟩
      · dsimp only
        omega
      · dsimp only
        omega
      · rw [List.length_set]
        exact total
    refine ⟨_, ?_, owned.replace here (.inr (Nat.le_refl _)) kept moved⟩
    rw [VectorWorld.pushBack, peek_some _ here, ok_bind, VectorWorld.incrementSize]
    dsimp only
    rw [if_pos full, require_of enough, ok_bind, VectorWorld.realloc, block_eq place, ok_bind]
    simp only [pure_bind]
    rw [block, ok_bind, poke_eq _ (by omega), ok_bind, Nat.add_sub_cancel, size]
    rfl
  · have placed := starts.place (by omega) item
    refine ⟨_, ?_, owned.rewrite here found (List.length_set.trans length) placed (by omega)⟩
    rw [VectorWorld.pushBack, peek_some _ here, ok_bind, VectorWorld.incrementSize]
    dsimp only
    rw [if_neg full]
    simp only [pure_bind]
    rw [block_eq place, ok_bind, poke_eq _ (by omega), ok_bind, size, Nat.add_sub_cancel, longer]
    rfl

theorem find?_range_eq {iter count : Nat} (inside : iter < count) :
    (List.range count).find? (· == iter) = some iter := by
  rw [List.find?_eq_some_iff_getElem]
  refine ⟨by simp, iter, by simpa using inside, by simp, ?_⟩
  intro earlier below
  simp
  omega

theorem set_getElem?_self {index : Nat} (found : lists[index]? = some list) : lists.set index list = lists := by
  obtain ⟨inside, rfl⟩ := List.getElem?_eq_some_iff.mp found
  exact List.set_getElem_self inside

theorem erase_owned (owned : Owned world lists) {target iter : Nat} (found : lists[target]? = some list) :
    ∃ after, world.erase target iter = .ok after ∧ Owned after (lists.set target (list.eraseIdx iter)) := by
  obtain ⟨vector, here, rep⟩ := owned.found found
  obtain ⟨slots, place, length, starts⟩ := rep.slots
  have size := rep.size
  have room := rep.room
  by_cases inside : iter < list.length
  · obtain ⟨moved, shifted, movedLength, still⟩ := starts.erase inside (by omega)
    have shorter : (list.eraseIdx iter).length = list.length - 1 := List.length_eraseIdx_of_lt inside
    have reached : (List.range vector.size).find? (· == iter) = some iter := by
      rw [size]
      exact find?_range_eq inside
    refine ⟨_, ?_, owned.rewrite here found (movedLength.trans length) still (by omega)⟩
    rw [VectorWorld.erase, peek_some _ here, ok_bind, reached]
    dsimp only
    rw [block_eq place, ok_bind, size, shifted, ok_bind, shorter]
    rfl
  · have missed : (List.range vector.size).find? (· == iter) = none := by
      rw [List.find?_eq_none]
      intro index member
      rw [List.mem_range] at member
      simp
      omega
    refine ⟨world, ?_, ?_⟩
    · rw [VectorWorld.erase, peek_some _ here, ok_bind, missed]
      rfl
    · rw [List.eraseIdx_of_length_le (by omega), set_getElem?_self found]
      exact owned

end Calls

section Refinement

open VectorWorld

inductive VectorOp (α : Type)
  | construct
  | range (items : List α)
  | list (items : List α)
  | copy (source : Nat)
  | move (source : Nat)
  | pushBack (target : Nat) (item : α)
  | erase (target iter : Nat)

variable {α : Type}

def performVector (initCapacity : Nat) (world : VectorWorld α) :
    VectorOp α → Except VectorFault (VectorWorld α)
  | .construct => .ok (world.construct initCapacity)
  | .range items => world.constructRange initCapacity items
  | .list items => world.constructList initCapacity items
  | .copy source => world.copy initCapacity source
  | .move source => world.moveFrom initCapacity source
  | .pushBack target item => world.pushBack target item
  | .erase target iter => world.erase target iter

/-- The reference lists. A valid iterator may be the end, where nothing is erased. -/
def applyVector (lists : List (List α)) : VectorOp α → Option (List (List α))
  | .construct => some (lists ++ [[]])
  | .range items => some (lists ++ [items])
  | .list items => some (lists ++ [items])
  | .copy source => lists[source]?.map fun list => lists ++ [list]
  | .move source => lists[source]?.map fun list => lists.set source [] ++ [list]
  | .pushBack target item => lists[target]?.map fun list => lists.set target (list ++ [item])
  | .erase target iter => lists[target]?.bind fun list =>
      if iter ≤ list.length then some (lists.set target (list.eraseIdx iter)) else none

def VectorOp.duplicates : VectorOp α → Bool
  | .copy _ => true
  | .move _ => true
  | _ => false

theorem owned_empty : Owned (⟨[], []⟩ : VectorWorld α) [] where
  length := rfl
  rep := by
    intro index vector list found
    cases found
  apart := by
    intro first second one other found
    cases found

theorem vector_step {world : VectorWorld α} {lists : List (List α)} {initCapacity : Nat} (positive : 0 < initCapacity)
    {op : VectorOp α} {after : List (List α)} (owned : Owned world lists) (valid : applyVector lists op = some after)
    (clean : initCapacity = kDefaultInitCapacity ∨ op.duplicates = false) :
    ∃ next, performVector initCapacity world op = .ok next ∧ Owned next after := by
  cases op with
  | construct =>
      cases valid
      exact ⟨_, rfl, construct_owned owned positive⟩
  | range items =>
      cases valid
      exact constructFrom_owned owned positive items
  | list items =>
      cases valid
      exact constructFrom_owned owned positive items
  | copy source =>
      obtain ⟨list, found, rfl⟩ := Option.map_eq_some_iff.mp valid
      rcases clean with rfl | wrong
      · exact copy_owned owned found
      · cases wrong
  | move source =>
      obtain ⟨list, found, rfl⟩ := Option.map_eq_some_iff.mp valid
      rcases clean with rfl | wrong
      · exact move_owned owned found
      · cases wrong
  | pushBack target item =>
      obtain ⟨list, found, rfl⟩ := Option.map_eq_some_iff.mp valid
      exact pushBack_owned owned found item
  | erase target iter =>
      obtain ⟨list, found, onward⟩ := Option.bind_eq_some_iff.mp valid
      split at onward
      · cases onward
        exact erase_owned owned found
      · cases onward

variable [DecidableEq α]

structure ShowsList (world : VectorWorld α) (vector : StdVector) (list : List α) : Prop where
  size : vector.size = list.length
  room : vector.size ≤ vector.capacity
  get : ∀ index (inside : index < list.length), world.get vector index = .ok list[index]
  back : ∀ last, list.getLast? = some last → world.back vector = .ok last
  find : ∀ ref, world.find vector ref = .ok (list.idxOf ref)
  contains : ∀ ref, world.contains vector ref = .ok (decide (ref ∈ list))

def ShowsLists (world : VectorWorld α) (lists : List (List α)) : Prop :=
  List.Forall₂ (ShowsList world) world.vectors lists

variable {world : VectorWorld α} {vector : StdVector} {list : List α} {lists : List (List α)}

theorem VectorRep.shows (rep : VectorRep world.blocks vector list) : ShowsList world vector list := by
  obtain ⟨slots, place, length, starts⟩ := rep.slots
  have size := rep.size
  have get : ∀ index (inside : index < list.length), world.get vector index = .ok list[index] := by
    intro index inside
    rw [VectorWorld.get, block_eq place, ok_bind, starts.read inside]
  have find : ∀ ref, world.find vector ref = .ok (list.idxOf ref) := by
    intro ref
    rw [VectorWorld.find, block_eq place, ok_bind, findFrom_eq starts ref (by omega), Nat.zero_add, List.drop_zero]
  refine ⟨size, rep.room, get, ?_, find, ?_⟩
  · intro last isLast
    rw [List.getLast?_eq_getElem?] at isLast
    obtain ⟨inside, rfl⟩ := List.getElem?_eq_some_iff.mp isLast
    rw [VectorWorld.back, size]
    exact get _ inside
  · intro ref
    rw [VectorWorld.contains, find, ok_bind, size]
    have present : list.idxOf ref ≠ list.length ↔ ref ∈ list := by
      rw [ne_eq, List.idxOf_eq_length_iff, not_not]
    simp only [present]
    rfl

theorem Owned.shows (owned : Owned world lists) : ShowsLists world lists := by
  refine List.forall₂_iff_get.mpr ⟨owned.length, fun index inside there => ?_⟩
  exact (owned.rep (List.getElem?_eq_getElem inside) (List.getElem?_eq_getElem there)).shows

theorem vector_simulation {initCapacity : Nat} (positive : 0 < initCapacity) :
    Simulation (performVector (α := α) initCapacity) applyVector Owned ShowsLists
      fun _ _ op => initCapacity = kDefaultInitCapacity ∨ op.duplicates = false where
  shows_of_rel := Owned.shows
  clean := vector_step positive

/-- With the default initial capacity, or without copies and moves, all vectors show their lists
after every call. -/
theorem vectors_show_lists {initCapacity : Nat} (positive : 0 < initCapacity) (ops : List (VectorOp α))
    (clean : initCapacity = kDefaultInitCapacity ∨ ∀ op ∈ ops, op.duplicates = false) :
    ShowsAll (performVector initCapacity) applyVector ShowsLists ⟨[], []⟩ [] ops := by
  refine (vector_simulation positive).showsAll owned_empty ?_
  intro before op reached middle inside _ _
  refine clean.imp id fun all => all op ?_
  exact inside.subset (by simp)

/-- Moving a vector of initial capacity 1 leaves the source as it was. -/
theorem move_other_capacity_shared : ∃ world : VectorWorld Nat,
    performAll (performVector 1) ⟨[], []⟩ [.list [7], .move 0] = .ok world ∧
      applyAll applyVector [] [VectorOp.list [7], .move 0] = some [[], [7]] ∧
      world.vectors = [⟨1, 1, 0⟩, ⟨1, 1, 0⟩] :=
  ⟨_, rfl, rfl, rfl⟩

/-- Three elements, one of which is erased and another appended, with a capacity of 1. -/
theorem vectors_show_lists_small : ShowsAll (performVector 1) applyVector ShowsLists ⟨[], []⟩ []
    [.list [5, 6, 7], .erase 0 1, .pushBack 0 8] := by
  refine vectors_show_lists (by decide) _ (.inr ?_)
  intro op member
  fin_cases member <;> rfl

end Refinement

end ToyKernel.Containers
