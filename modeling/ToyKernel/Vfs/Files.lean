import ToyKernel.Containers.StdVector
import ToyKernel.Vfs.Model

/-!
What `File::Write` of `utils/include/vfs.h` leaves in a file. The contents are a vector among the
vectors of the program, named by its position.
-/

namespace ToyKernel.Vfs

open Library Containers

section Writing

variable {α : Type}

/-- The loop of `resize`: each turn adds one element, so the number of turns is the difference. -/
def incrementSizes : Nat → VectorWorld α → StdVector → Except VectorFault (VectorWorld α × StdVector)
  | 0, world, vector => return (world, vector)
  | count + 1, world, vector => do
      let (world, vector) ← world.incrementSize vector
      incrementSizes count world vector

def resize (world : VectorWorld α) (target size : Nat) : Except VectorFault (VectorWorld α) := do
  let vector ← peek .noSuchVector world.vectors target
  let (world, vector) ← incrementSizes (size - vector.size) world vector
  return { world with vectors := world.vectors.set target vector }

def assign (world : VectorWorld α) (target index : Nat) (item : α) : Except VectorFault (VectorWorld α) := do
  let vector ← peek .noSuchVector world.vectors target
  let slots ← world.block vector.data
  let slots ← poke .outOfBounds slots index (some item)
  return world.setBlock vector.data slots

def assignAll (target : Nat) (world : VectorWorld α) : Nat → List α → Except VectorFault (VectorWorld α)
  | _, [] => return world
  | index, item :: rest => do
      let world ← assign world target index item
      assignAll target world (index + 1) rest

def writeFile (contents : Nat) (world : VectorWorld UInt8) (data : List UInt8) :
    Except VectorFault (VectorWorld UInt8) := do
  let world ← resize world contents data.length
  assignAll contents world 0 data

def getSize (world : VectorWorld UInt8) (contents : Nat) : Except VectorFault Nat := do
  let vector ← peek .noSuchVector world.vectors contents
  return vector.size

def getContents (world : VectorWorld UInt8) (contents : Nat) : Except VectorFault (List UInt8) := do
  let vector ← peek .noSuchVector world.vectors contents
  (List.range vector.size).mapM (world.get vector)

end Writing

section Rows

variable {α : Type} {world : VectorWorld α} {vector : StdVector} {list : List α} {slots : List (Option α)}

structure Backs (world : VectorWorld α) (vector : StdVector) (list : List α) (slots : List (Option α)) : Prop where
  found : world.blocks[vector.data]? = some (some slots)
  length : slots.length = vector.capacity
  positive : 0 < vector.capacity
  room : vector.size ≤ vector.capacity
  within : list.length ≤ vector.size
  starts : Starts slots list

structure Reallocated (world after : VectorWorld α) (vector changed : StdVector) : Prop where
  vectors : after.vectors = world.vectors
  blocks : world.blocks.length ≤ after.blocks.length
  place : changed.data = vector.data ∨ world.blocks.length ≤ changed.data
  others : ∀ data < world.blocks.length, data ≠ vector.data → after.blocks[data]? = world.blocks[data]?

theorem Reallocated.refl (world : VectorWorld α) (vector : StdVector) (size : Nat) :
    Reallocated world world vector { vector with size } :=
  ⟨rfl, Nat.le_refl _, .inl rfl, fun _ _ _ => rfl⟩

theorem Reallocated.trans {middle after : VectorWorld α} {between changed : StdVector}
    (first : Reallocated world middle vector between) (second : Reallocated middle after between changed) :
    Reallocated world after vector changed where
  vectors := second.vectors.trans first.vectors
  blocks := first.blocks.trans second.blocks
  place := by
    rcases second.place with same | new
    · rw [same]
      exact first.place
    · exact .inr (first.blocks.trans new)
  others := by
    intro data inside different
    have bound := first.blocks
    have kept : data ≠ between.data := by
      rcases first.place with same | new
      · rwa [same]
      · omega
    rw [second.others data (by omega) kept, first.others data inside different]

theorem incrementSize_spec (backs : Backs world vector list slots) :
    ∃ after changed longer, world.incrementSize vector = .ok (after, changed) ∧
      changed.size = vector.size + 1 ∧ Backs after changed list longer ∧ Reallocated world after vector changed := by
  have room := backs.room
  have positive := backs.positive
  have within := backs.within
  have length := backs.length
  rw [VectorWorld.incrementSize]
  by_cases full : vector.capacity < vector.size + 1
  · have enough : vector.size + 1 ≤ vector.capacity * 2 := by omega
    dsimp only
    rw [if_pos full, require_of enough, ok_bind, VectorWorld.realloc, block_eq backs.found, ok_bind]
    have inside : vector.data < world.blocks.length := (List.getElem?_eq_some_iff.mp backs.found).1
    have more : Starts (slots ++ List.replicate (vector.capacity * 2 - slots.length) none) list := by
      rw [Starts, List.take_append_of_le_length (by omega)]
      exact backs.starts
    refine ⟨_, _, _, rfl, rfl, ⟨?_, ?_, ?_, enough, ?_, more⟩, ⟨rfl, ?_, .inr (Nat.le_refl _), ?_⟩⟩
    · dsimp only
      rw [List.getElem?_append_right (by simp), List.length_set, Nat.sub_self]
      rfl
    · dsimp only
      rw [List.length_append, List.length_replicate]
      omega
    · dsimp only
      omega
    · dsimp only
      omega
    · simp
    · intro data bound different
      dsimp only
      rw [List.getElem?_append_left (by simpa using bound), List.getElem?_set_ne (Ne.symm different)]
  · dsimp only
    rw [if_neg full]
    refine ⟨_, _, slots, rfl, rfl, ⟨backs.found, length, positive, ?_, ?_, backs.starts⟩, .refl world vector _⟩
    · dsimp only
      omega
    · dsimp only
      omega

theorem incrementSizes_spec (count : Nat) (backs : Backs world vector list slots) :
    ∃ after changed longer, incrementSizes count world vector = .ok (after, changed) ∧
      changed.size = vector.size + count ∧ Backs after changed list longer ∧
      Reallocated world after vector changed := by
  induction count generalizing world vector slots with
  | zero => exact ⟨world, vector, slots, rfl, rfl, backs, .refl world vector _⟩
  | succ count ih =>
      obtain ⟨middle, between, more, stepped, size, backed, moved⟩ := incrementSize_spec backs
      obtain ⟨after, changed, longer, done, total, still, later⟩ := ih backed
      refine ⟨after, changed, longer, ?_, by omega, still, moved.trans later⟩
      rw [incrementSizes, stepped, ok_bind]
      exact done

theorem assignAll_eq {target index : Nat} (here : world.vectors[target]? = some vector)
    (found : world.blocks[vector.data]? = some (some slots)) (items : List α)
    (inside : index + items.length ≤ slots.length) :
    assignAll target world index items = .ok (world.setBlock vector.data
      (slots.take index ++ items.map some ++ slots.drop (index + items.length))) := by
  induction items generalizing world slots index with
  | nil =>
      have same : world.setBlock vector.data slots = world := by
        obtain ⟨bound, value⟩ := List.getElem?_eq_some_iff.mp found
        rw [VectorWorld.setBlock, ← value, List.set_getElem_self]
      rw [assignAll, List.map_nil, List.append_nil, List.length_nil, Nat.add_zero, List.take_append_drop, same]
      rfl
  | cons item rest ih =>
      rw [List.length_cons] at inside
      have bound := (List.getElem?_eq_some_iff.mp found).1
      have stepped : assign world target index item =
          .ok (world.setBlock vector.data (slots.set index (some item))) := by
        rw [assign, peek_some _ here, ok_bind, block_eq found, ok_bind, poke_eq _ (by omega), ok_bind]
        rfl
      have next := @ih (world.setBlock vector.data (slots.set index (some item)))
        (slots.set index (some item)) (index + 1) here
        (List.getElem?_set_self bound) (by rw [List.length_set]; omega)
      rw [assignAll, stepped, ok_bind, next, VectorWorld.setBlock, VectorWorld.setBlock, VectorWorld.setBlock,
        List.set_set]
      have front : (slots.set index (some item)).take (index + 1) = slots.take index ++ [some item] := by
        have short : (slots.take index).length = index := by
          rw [List.length_take]
          omega
        have taken := take_set_concat (congrArg slots.take short) (by omega) (some item)
        rwa [List.length_append, short] at taken
      have back : (slots.set index (some item)).drop (index + 1 + rest.length) =
          slots.drop (index + (item :: rest).length) := by
        rw [List.drop_set_of_lt (by omega), List.length_cons, Nat.add_assoc, Nat.add_comm 1]
      rw [front, back]
      simp

end Rows

section Contents

variable {world : VectorWorld UInt8} {lists : List (List UInt8)} {target : Nat} {previous : List UInt8}

/-- The bytes behind the data stay when the file was longer. -/
theorem writeFile_owned (owned : Owned world lists) (found : lists[target]? = some previous) (data : List UInt8) :
    ∃ after, writeFile target world data = .ok after ∧
      Owned after (lists.set target (data ++ previous.drop data.length)) := by
  obtain ⟨vector, here, rep⟩ := owned.found found
  obtain ⟨slots, place, length, starts⟩ := rep.slots
  have backs : Backs world vector previous slots :=
    ⟨place, length, rep.positive, rep.room, by rw [rep.size], starts⟩
  obtain ⟨grown, changed, longer, stepped, size, backed, moved⟩ :=
    incrementSizes_spec (data.length - vector.size) backs
  have old := rep.size
  have capacity := backed.length
  have room := backed.room
  have fits : 0 + data.length ≤ longer.length := by omega
  have bound := (List.getElem?_eq_some_iff.mp here).1
  have inside := (List.getElem?_eq_some_iff.mp backed.found).1
  have assigned := @assignAll_eq _ { grown with vectors := world.vectors.set target changed } _ _ _ _
    (List.getElem?_set_self bound) backed.found data fits
  refine ⟨{
      vectors := world.vectors.set target changed
      blocks := grown.blocks.set changed.data (some (longer.take 0 ++ data.map some ++ longer.drop (0 + data.length))) },
    ?_, owned.replace here moved.place ?_ ?_⟩
  · rw [writeFile, resize, peek_some _ here, ok_bind, stepped, ok_bind]
    dsimp only
    rw [moved.vectors]
    exact assigned
  · intro other below different
    have apart : changed.data ≠ other := by
      rcases moved.place with same | new
      · exact same ▸ Ne.symm different
      · omega
    rw [List.getElem?_set_ne apart, moved.others other below different]
  · have total : (data ++ previous.drop data.length).length = changed.size := by
      rw [List.length_append, List.length_drop]
      omega
    refine ⟨total.symm, backed.positive, room, _, List.getElem?_set_self inside, ?_, ?_⟩
    · simp only [List.length_append, List.length_take, List.length_map, List.length_drop]
      omega
    · have back : (longer.drop data.length).take (previous.length - data.length) =
          (previous.drop data.length).map some := by
        rw [← List.drop_take, backed.starts, List.map_drop]
      have front : (data.map some).length = data.length := List.length_map some
      rw [Starts, List.take_zero, List.nil_append, Nat.zero_add, List.length_append, List.length_drop, ← front,
        List.take_length_add_append, front, back, List.map_append]

def writtenOver : List UInt8 → List (List UInt8) → List UInt8
  | contents, [] => contents
  | contents, data :: rest => writtenOver (data ++ contents.drop data.length) rest

theorem writes_owned (owned : Owned world lists) (found : lists[target]? = some previous)
    (writes : List (List UInt8)) : ∃ after, writes.foldlM (writeFile target) world = .ok after ∧
      Owned after (lists.set target (writtenOver previous writes)) := by
  induction writes generalizing world lists previous with
  | nil => exact ⟨world, rfl, by rwa [writtenOver, set_getElem?_self found]⟩
  | cons data rest ih =>
      obtain ⟨middle, stepped, still⟩ := writeFile_owned owned found data
      have bound := (List.getElem?_eq_some_iff.mp found).1
      obtain ⟨after, done, last⟩ := ih still (List.getElem?_set_self bound)
      rw [List.set_set] at last
      refine ⟨after, ?_, last⟩
      rw [List.foldlM_cons, stepped, ok_bind, done]

theorem writtenOver_append (contents : List UInt8) (earlier : List (List UInt8)) (data : List UInt8) :
    writtenOver contents (earlier ++ [data]) =
      data ++ (writtenOver contents earlier).drop data.length := by
  induction earlier generalizing contents with
  | nil => rfl
  | cons first rest ih => exact ih _

/-- A file is as long as the longest of what was ever in it. -/
theorem writtenOver_length_le (contents : List UInt8) (writes : List (List UInt8)) (bound : Nat) :
    (writtenOver contents writes).length ≤ bound ↔
      contents.length ≤ bound ∧ ∀ data ∈ writes, data.length ≤ bound := by
  induction writes generalizing contents with
  | nil => simp [writtenOver]
  | cons data rest ih =>
      rw [writtenOver, ih, List.forall_mem_cons, List.length_append, List.length_drop]
      constructor
      · rintro ⟨total, later⟩
        exact ⟨by omega, by omega, later⟩
      · rintro ⟨old, new, later⟩
        exact ⟨by omega, later⟩

theorem mapM_get_eq {vector : StdVector} {list : List UInt8} (rep : VectorRep world.blocks vector list) :
    (List.range vector.size).mapM (world.get vector) = .ok list := by
  have shows := rep.shows
  have every : ∀ count ≤ list.length, (List.range count).mapM (world.get vector) = .ok (list.take count) := by
    intro count
    induction count with
    | zero => exact fun _ => rfl
    | succ count ih =>
        intro inside
        rw [List.range_succ, List.mapM_append, ih (by omega), ok_bind, List.mapM_cons, shows.get count inside, ok_bind,
          ← List.take_append_getElem inside]
        rfl
  rw [rep.size, every _ (Nat.le_refl _), List.take_length]

/-- After a row of writes the size and the contents are those of the last one exactly when nothing
longer was ever in the file. -/
theorem writes_last_iff (owned : Owned world lists) (found : lists[target]? = some previous)
    (earlier : List (List UInt8)) (data : List UInt8) :
    ∃ after, (earlier ++ [data]).foldlM (writeFile target) world = .ok after ∧
      ((getSize after target = .ok data.length ∧ getContents after target = .ok data) ↔
        previous.length ≤ data.length ∧ ∀ one ∈ earlier, one.length ≤ data.length) := by
  obtain ⟨after, done, still⟩ := writes_owned owned found (earlier ++ [data])
  have bound := (List.getElem?_eq_some_iff.mp found).1
  obtain ⟨vector, here, rep⟩ := still.found (List.getElem?_set_self bound)
  have size : getSize after target = .ok vector.size := by
    rw [getSize, peek_some _ here, ok_bind]
    rfl
  have contents : getContents after target = .ok (writtenOver previous (earlier ++ [data])) := by
    rw [getContents, peek_some _ here, ok_bind, mapM_get_eq rep]
  refine ⟨after, done, ?_⟩
  rw [size, contents, Except.ok.injEq, Except.ok.injEq, rep.size, writtenOver_append,
    ← writtenOver_length_le previous earlier data.length, List.append_right_eq_self, List.drop_eq_nil_iff,
    List.length_append, List.length_drop]
  omega

theorem writeFile_node (owned : Owned world lists) (found : lists[target]? = some previous) (name : Text)
    (parent : Option Cursor) (data : List UInt8) : ∃ after contents,
      writeFile target world data = .ok after ∧
      Node.write data (.file name parent previous) = .file name parent contents ∧
      Owned after (lists.set target contents) := by
  obtain ⟨after, done, still⟩ := writeFile_owned owned found data
  exact ⟨after, _, done, rfl, still⟩

def threeBytes : VectorWorld UInt8 where
  vectors := [⟨3, VectorWorld.kDefaultInitCapacity, 0⟩]
  blocks := [some [some 97, some 98, some 99, none, none, none, none, none]]

theorem threeBytes_owned : Owned threeBytes [[97, 98, 99]] := by
  have positive : 0 < VectorWorld.kDefaultInitCapacity := by decide
  obtain ⟨after, made, owned⟩ := constructFrom_owned owned_empty positive ([97, 98, 99] : List UInt8)
  have same : VectorWorld.constructFrom VectorWorld.kDefaultInitCapacity ⟨[], []⟩ [97, 98, 99] = .ok threeBytes := rfl
  cases made.symm.trans same
  exact owned

/-- A longer text, then a text as long as that one. -/
theorem writes_last_iff_longer : ∃ after,
    ([[120, 121, 122, 119]] ++ [[49, 50, 51, 52]] : List (List UInt8)).foldlM (writeFile 0) threeBytes = .ok after ∧
      getSize after 0 = .ok 4 ∧ getContents after 0 = .ok [49, 50, 51, 52] := by
  obtain ⟨after, done, last⟩ := @writes_last_iff _ _ 0 _ threeBytes_owned rfl
    [[120, 121, 122, 119]] [49, 50, 51, 52]
  exact ⟨after, done, last.mpr (by decide)⟩

theorem shorter_write_keeps_tail : Owned threeBytes [[97, 98, 99]] ∧
    (writeFile 0 threeBytes [120]).map (·.blocks) =
      .ok [some [some 120, some 98, some 99, none, none, none, none, none]] ∧
    (writeFile 0 threeBytes [120] >>= fun after => getSize after 0) = .ok 3 ∧
    (writeFile 0 threeBytes [120] >>= fun after => getContents after 0) = .ok [120, 98, 99] ∧
    ¬∀ data : List UInt8, ∀ after, writeFile 0 threeBytes data = .ok after →
      getSize after 0 = .ok data.length ∧ getContents after 0 = .ok data := by
  refine ⟨threeBytes_owned, rfl, rfl, rfl, ?_⟩
  intro exact_contents
  have wrong := (exact_contents [120] _ rfl).1
  cases wrong

end Contents

end ToyKernel.Vfs
