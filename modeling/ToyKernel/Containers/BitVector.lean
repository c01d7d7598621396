import ToyKernel.Library.Bits
import ToyKernel.Library.Refinement
import ToyKernel.Library.Result

/-!
The bit vector of `utils/include/BitVector.h` against a list of booleans. Up to 32 bits live in
the buffer word itself; a longer vector keeps its bits in a block on the heap.
-/

namespace ToyKernel.Containers

open Library

inductive BitFault
  | bitOutOfRange | emptyVector | capacityTooSmall | offTheHeap
deriving DecidableEq, Repr

/-- The block is what the buffer points to when the capacity exceeds the word. -/
structure BitVector where
  bits : Nat
  capacity : Nat
  buffer : BitVec 32
  block : Nat → BitVec 8

namespace BitVector

def isPowerOf2 (x : Nat) : Bool := decide (x ≠ 0) && decide (x &&& (x - 1) = 0)

def shiftsTo1 : Nat → Nat → Nat
  | 0, _ => 0
  | fuel + 1, x => if x = 1 then 0 else shiftsTo1 fuel (x / 2) + 1

def nextPowOf2 (x : Nat) : Nat :=
  if x = 0 then 0
  else if isPowerOf2 x then x
  else 2 ^ (shiftsTo1 32 x + 1) % 4294967296

def bytesNeeded (bits : Nat) : Nat := if bits % 8 ≠ 0 then bits / 8 + 1 else bits / 8

def getCapacity (bits : Nat) : Nat :=
  let bytes := bytesNeeded bits
  if bytes ≤ 4 then 4 else nextPowOf2 bytes * 2 % 4294967296

/-- The constructor; `fresh` is what the allocator leaves in a new block. -/
def ofSize (bits : Nat) (fresh : Nat → BitVec 8) : BitVector :=
  { bits, capacity := getCapacity bits, buffer := 0, block := fresh }

def empty : BitVector := ofSize 0 fun _ => 0

def onHeap (vector : BitVector) : Bool := decide (4 < vector.capacity)

def size (vector : BitVector) : Nat := vector.bits

def get (vector : BitVector) (bit : Nat) : Except BitFault Bool := do
  require (bit < vector.bits) .bitOutOfRange
  if vector.onHeap then
    return decide (vector.block (bit / 8) &&& (1#8 <<< (bit % 8)) ≠ 0#8)
  else
    return decide (vector.buffer &&& (1#32 <<< bit) ≠ 0#32)

def lastIndex (vector : BitVector) : Nat := (vector.bits + 4294967295) % 4294967296

def getBack (vector : BitVector) : Except BitFault Bool := vector.get vector.lastIndex

def set (vector : BitVector) (bit : Nat) (val : Bool) : Except BitFault BitVector := do
  require (bit < vector.bits) .bitOutOfRange
  if vector.onHeap then
    let byte := vector.block (bit / 8)
    let changed := (byte &&& ~~~(1#8 <<< (bit % 8))) ||| (flag 8 val <<< (bit % 8))
    return { vector with block := fun index => if index = bit / 8 then changed else vector.block index }
  else
    return { vector with
      buffer := (vector.buffer &&& ~~~(flag 32 val <<< bit)) ||| (flag 32 val <<< bit) }

/-- Grow by one bit. A block that moves keeps its bytes, and the word is copied into a first one. -/
def incrementSize (vector : BitVector) (fresh : Nat → BitVec 8) : Except BitFault BitVector := do
  let bits := (vector.bits + 1) % 4294967296
  if vector.capacity < bytesNeeded bits then
    let capacity := vector.capacity * 2 % 4294967296
    require (bytesNeeded bits ≤ capacity) .capacityTooSmall
    if vector.onHeap then
      require (4 < capacity) .offTheHeap
      return { vector with
        bits, capacity
        block := fun index => if index < vector.capacity then vector.block index else fresh index }
    else if 4 < capacity then
      return { vector with
        bits, capacity
        block := fun index => if index < 4 then vector.buffer.extractLsb' (8 * index) 8 else fresh index }
    else
      return { vector with bits, capacity }
  else
    return { vector with bits }

def pushBack (vector : BitVector) (x : Bool) (fresh : Nat → BitVec 8) : Except BitFault BitVector := do
  let grown ← vector.incrementSize fresh
  grown.set grown.lastIndex x

def popBack (vector : BitVector) : Except BitFault BitVector := do
  require (vector.bits ≠ 0) .emptyVector
  return { vector with bits := vector.bits - 1 }

section Bits

def bitAt (vector : BitVector) (bit : Nat) : Bool :=
  if vector.onHeap then (vector.block (bit / 8)).getLsbD (bit % 8) else vector.buffer.getLsbD bit

theorem bitAt_heap {vector : BitVector} (heap : vector.onHeap = true) (bit : Nat) :
    vector.bitAt bit = (vector.block (bit / 8)).getLsbD (bit % 8) := by
  rw [bitAt, if_pos heap]

theorem bitAt_inline {vector : BitVector} (inline : vector.onHeap = false) (bit : Nat) :
    vector.bitAt bit = vector.buffer.getLsbD bit := by
  rw [bitAt, inline, if_neg Bool.false_ne_true]

structure Sized (vector : BitVector) : Prop where
  word : 4 ≤ vector.capacity
  room : bytesNeeded vector.bits ≤ vector.capacity
  small : vector.bits < 4294967296

variable {vector : BitVector}

theorem bytesNeeded_le {bits bytes : Nat} : bytesNeeded bits ≤ bytes ↔ bits ≤ 8 * bytes := by
  unfold bytesNeeded
  split <;> omega

theorem Sized.inline (sized : vector.Sized) (inline : vector.onHeap = false) : vector.capacity = 4 := by
  have word := sized.word
  have small : ¬4 < vector.capacity := of_decide_eq_false inline
  omega

theorem Sized.inline_bits (sized : vector.Sized) (inline : vector.onHeap = false) : vector.bits ≤ 32 := by
  have room := bytesNeeded_le.mp sized.room
  rw [sized.inline inline] at room
  omega

theorem get_eq (sized : vector.Sized) {bit : Nat} (inside : bit < vector.bits) :
    vector.get bit = .ok (vector.bitAt bit) := by
  rw [get, require_of inside, ok_bind]
  unfold bitAt
  cases heap : vector.onHeap with
  | true =>
      have shift : bit % 8 < 8 := Nat.mod_lt _ (by decide)
      have tested := and_twoPow_ne_zero (vector.block (bit / 8)) shift
      rw [BitVec.twoPow_eq] at tested
      simp only [if_true, tested, Bool.decide_eq_true]
      rfl
  | false =>
      have short := sized.inline_bits heap
      have tested := and_twoPow_ne_zero vector.buffer (show bit < 32 by omega)
      rw [BitVec.twoPow_eq] at tested
      simp only [Bool.false_eq_true, if_false, tested, Bool.decide_eq_true]
      rfl

/-- What is stored by a write: on the heap the value, in the word the value or the old bit. -/
def stored (vector : BitVector) (bit : Nat) (val : Bool) : Bool :=
  if vector.onHeap then val else val || vector.bitAt bit

theorem set_eq (sized : vector.Sized) {bit : Nat} (inside : bit < vector.bits) (val : Bool) :
    ∃ after, vector.set bit val = .ok after ∧ after.bits = vector.bits ∧
      after.capacity = vector.capacity ∧
      ∀ query, after.bitAt query = if query = bit then vector.stored bit val else vector.bitAt query := by
  rw [set, require_of inside, ok_bind]
  cases heap : vector.onHeap with
  | true =>
      have shift : bit % 8 < 8 := Nat.mod_lt _ (by decide)
      refine ⟨_, rfl, rfl, rfl, fun query => ?_⟩
      have still : decide (4 < vector.capacity) = true := heap
      simp only [bitAt, stored, onHeap, still, if_true]
      by_cases sameByte : query / 8 = bit / 8
      · rw [if_pos sameByte, getLsbD_overwrite _ val shift]
        by_cases same : query = bit
        · rw [if_pos (by rw [same]), if_pos same]
        · rw [if_neg (by omega), if_neg same, sameByte]
      · rw [if_neg sameByte, if_neg (by rintro rfl; exact sameByte rfl)]
  | false =>
      have short := sized.inline_bits heap
      refine ⟨_, rfl, rfl, rfl, fun query => ?_⟩
      have still : decide (4 < vector.capacity) = false := heap
      simp only [bitAt, stored, onHeap, still, Bool.false_eq_true, if_false]
      rw [getLsbD_raise _ val (by omega)]
      split
      · rename_i same
        rw [same]
      · rfl

theorem incrementSize_eq (sized : vector.Sized) (more : vector.bits + 1 < 4294967296)
    (fresh : Nat → BitVec 8) :
    ∃ after, vector.incrementSize fresh = .ok after ∧ after.Sized ∧ after.bits = vector.bits + 1 ∧
      after.onHeap = (vector.onHeap || decide (32 < vector.bits + 1)) ∧
      (∀ query < vector.bits, after.bitAt query = vector.bitAt query) ∧
      (after.onHeap = false → ∀ query, after.bitAt query = vector.bitAt query) := by
  have word := sized.word
  have room := bytesNeeded_le.mp sized.room
  rw [incrementSize, Nat.mod_eq_of_lt more]
  by_cases full : vector.capacity < bytesNeeded (vector.bits + 1)
  · have beyond : 8 * vector.capacity < vector.bits + 1 := by
      by_contra fits
      exact absurd (bytesNeeded_le.mpr (show vector.bits + 1 ≤ 8 * vector.capacity by omega)) (by omega)
    have double : vector.capacity * 2 % 4294967296 = vector.capacity * 2 := Nat.mod_eq_of_lt (by omega)
    have enough : bytesNeeded (vector.bits + 1) ≤ vector.capacity * 2 := bytesNeeded_le.mpr (by omega)
    have grown : decide (4 < vector.capacity * 2) = true := decide_eq_true (by omega)
    have long : decide (32 < vector.bits + 1) = true := decide_eq_true (by omega)
    simp only [if_pos full, double, require_of enough, ok_bind]
    cases heap : vector.onHeap with
    | true =>
        have far : 4 < vector.capacity := of_decide_eq_true heap
        rw [if_pos rfl, require_of (show 4 < vector.capacity * 2 by omega), ok_bind]
        refine ⟨_, rfl, ⟨by dsimp only; omega, enough, more⟩, rfl, ?_, ?_, ?_⟩
        · exact grown
        · intro query below
          refine (bitAt_heap (by exact grown) query).trans ?_
          rw [bitAt_heap heap]
          dsimp only
          rw [if_pos (by omega)]
        · intro inline
          exact absurd (grown.symm.trans inline) (by decide)
    | false =>
        have exact4 := sized.inline heap
        rw [if_neg Bool.false_ne_true, if_pos (by omega)]
        refine ⟨_, rfl, ⟨by dsimp only; omega, enough, more⟩, rfl, ?_, ?_, ?_⟩
        · rw [long]
          exact grown
        · intro query below
          have byte : query % 8 < 8 := Nat.mod_lt _ (by decide)
          refine (bitAt_heap (by exact grown) query).trans ?_
          rw [bitAt_inline heap]
          dsimp only
          rw [if_pos (by omega), BitVec.getLsbD_extractLsb', decide_eq_true byte, Bool.true_and,
            Nat.div_add_mod]
        · intro inline
          exact absurd (grown.symm.trans inline) (by decide)
  · rw [if_neg full]
    refine ⟨_, rfl, ⟨word, by dsimp only; omega, more⟩, rfl, ?_, fun _ _ => rfl, fun _ _ => rfl⟩
    cases heap : vector.onHeap with
    | true => exact heap
    | false =>
        have exact4 := sized.inline heap
        have fits := bytesNeeded_le.mp (show bytesNeeded (vector.bits + 1) ≤ vector.capacity by omega)
        have short : decide (32 < vector.bits + 1) = false := decide_eq_false (by omega)
        rw [short]
        exact heap

/-- Past the last size that the counter holds it wraps to zero, and `set` finds no bit to write. -/
theorem pushBack_full (full : vector.bits + 1 = 4294967296) (x : Bool) (fresh : Nat → BitVec 8) :
    vector.incrementSize fresh = .ok { vector with bits := 0 } ∧
      vector.pushBack x fresh = .error .bitOutOfRange := by
  have grew : vector.incrementSize fresh = .ok { vector with bits := 0 } := by
    rw [incrementSize, full]
    exact if_neg (Nat.not_lt_zero _)
  refine ⟨grew, ?_⟩
  rw [pushBack, grew, ok_bind, set, require, if_neg (Nat.not_lt_zero _)]
  rfl

theorem lastIndex_eq {count : Nat} (counted : vector.bits = count + 1) (small : count + 1 < 4294967296) :
    vector.lastIndex = count := by
  rw [lastIndex, counted]
  omega

theorem set_sized {after : BitVector} (sized : vector.Sized) (bits : after.bits = vector.bits)
    (capacity : after.capacity = vector.capacity) : after.Sized ∧ after.onHeap = vector.onHeap := by
  refine ⟨⟨?_, ?_, ?_⟩, ?_⟩
  · rw [capacity]
    exact sized.word
  · rw [capacity, bits]
    exact sized.room
  · rw [bits]
    exact sized.small
  · rw [onHeap, capacity, onHeap]

/-- The bits below the new one are kept, and in the word also those behind it. -/
theorem pushBack_eq (sized : vector.Sized) (more : vector.bits + 1 < 4294967296) (x : Bool)
    (fresh : Nat → BitVec 8) :
    ∃ after, vector.pushBack x fresh = .ok after ∧ after.Sized ∧ after.bits = vector.bits + 1 ∧
      after.onHeap = (vector.onHeap || decide (32 < vector.bits + 1)) ∧
      after.bitAt vector.bits = (if after.onHeap then x else x || vector.bitAt vector.bits) ∧
      ∀ query ≠ vector.bits, query < vector.bits ∨ after.onHeap = false →
        after.bitAt query = vector.bitAt query := by
  obtain ⟨grown, grew, grownSized, bits, heap, below, inline⟩ := incrementSize_eq sized more fresh
  have last : grown.lastIndex = vector.bits := lastIndex_eq bits more
  obtain ⟨after, done, same, capacity, reads⟩ := set_eq grownSized (show vector.bits < grown.bits by omega) x
  obtain ⟨still, place⟩ := set_sized grownSized same capacity
  refine ⟨after, ?_, still, same.trans bits, place.trans heap, ?_, ?_⟩
  · rw [pushBack, grew, ok_bind, last, done]
  · rw [reads, if_pos rfl, stored, place]
    cases short : grown.onHeap with
    | true => rfl
    | false => rw [inline short]
  · intro query other kept
    rw [reads, if_neg other]
    rcases kept with inside | short
    · exact below query inside
    · exact inline (place.symm.trans short) query

end Bits

end BitVector

section Refinement

inductive BitOp
  | pushBack (x : Bool) (fresh : Nat → BitVec 8)
  | popBack
  | set (bit : Nat) (val : Bool)

def performBit (vector : BitVector) : BitOp → Except BitFault BitVector
  | .pushBack x fresh => vector.pushBack x fresh
  | .popBack => vector.popBack
  | .set bit val => vector.set bit val

def applyBit (list : List Bool) : BitOp → Option (List Bool)
  | .pushBack x _ => some (list ++ [x])
  | .popBack => if list = [] then none else some list.dropLast
  | .set bit val => if bit < list.length then some (list.set bit val) else none

structure ShowsBits (vector : BitVector) (list : List Bool) : Prop where
  size : vector.size = list.length
  get : ∀ bit (inside : bit < list.length), vector.get bit = .ok list[bit]
  getBack : ∀ last, list.getLast? = some last → vector.getBack = .ok last

structure BitHistory where
  list : List Bool
  raised : List Nat
  grown : Bool

namespace BitHistory

def empty : BitHistory := ⟨[], [], false⟩

def write (history : BitHistory) : BitOp → Option (Nat × Bool)
  | .pushBack x _ => some (history.list.length, x)
  | .popBack => none
  | .set bit val => some (bit, val)

def raise (history : BitHistory) (op : BitOp) : List Nat :=
  match history.write op with
  | some (bit, true) => bit :: history.raised
  | _ => history.raised

def apply (history : BitHistory) (op : BitOp) : Option BitHistory :=
  (applyBit history.list op).map fun list =>
    { list, raised := history.raise op, grown := history.grown || decide (32 < list.length) }

/-- The call does not write false where true was ever written while the bits still fit in a
word, and does not count past 32 bits of size. -/
def Clean (history : BitHistory) (op : BitOp) : Prop :=
  (∀ bit, history.write op = some (bit, false) → bit ∈ history.raised → history.grown = true) ∧
  (∀ x fresh, op = .pushBack x fresh → history.list.length + 1 < 4294967296)

end BitHistory

structure Represents (vector : BitVector) (history : BitHistory) : Prop where
  sized : vector.Sized
  bits : vector.bits = history.list.length
  heap : vector.onHeap = history.grown
  agrees : ∀ bit (inside : bit < history.list.length), vector.bitAt bit = history.list[bit]
  stale : history.grown = false → ∀ bit, vector.bitAt bit = decide (bit ∈ history.raised)

theorem represents_empty : Represents .empty .empty where
  sized := ⟨by decide, by decide, by decide⟩
  bits := rfl
  heap := rfl
  agrees := by
    intro bit inside
    exact absurd inside (Nat.not_lt_zero bit)
  stale := by
    intro _ bit
    exact BitVec.getLsbD_zero

/-- What the calls leave behind whether or not every write arrives: the size, the place, and in the
word every bit that was ever raised. -/
structure Tracks (vector : BitVector) (history : BitHistory) : Prop where
  sized : vector.Sized
  bits : vector.bits = history.list.length
  heap : vector.onHeap = history.grown
  stale : history.grown = false → ∀ bit, vector.bitAt bit = decide (bit ∈ history.raised)

variable {vector : BitVector} {history : BitHistory}

theorem Represents.tracks (represents : Represents vector history) : Tracks vector history :=
  ⟨represents.sized, represents.bits, represents.heap, represents.stale⟩

theorem Represents.shows (represents : Represents vector history) : ShowsBits vector history.list where
  size := represents.bits
  get := by
    intro bit inside
    rw [BitVector.get_eq represents.sized (by rw [represents.bits]; exact inside), represents.agrees bit inside]
  getBack := by
    intro last isLast
    have nonempty : history.list ≠ [] := by
      rintro empty
      rw [empty] at isLast
      cases isLast
    have positive := List.length_pos_of_ne_nil nonempty
    have small := represents.sized.small
    have counted := represents.bits
    have index : vector.lastIndex = history.list.length - 1 :=
      BitVector.lastIndex_eq (by omega) (by omega)
    rw [List.getLast?_eq_getElem?, List.getElem?_eq_getElem (by omega)] at isLast
    rw [BitVector.getBack, index, BitVector.get_eq represents.sized (by omega),
      represents.agrees _ (by omega), Option.some.inj isLast]

section Steps

variable {op : BitOp} {after : BitHistory} {next : BitVector}

/-- As long as the vector is in its word, no list is longer than a word. -/
theorem Tracks.grown_same (tracks : Tracks vector history) {list : List Bool}
    (shorter : list.length ≤ history.list.length) :
    (history.grown || decide (32 < list.length)) = history.grown := by
  cases grown : history.grown with
  | true => rfl
  | false =>
      have bound := tracks.sized.inline_bits (tracks.heap.trans grown)
      have counted := tracks.bits
      rw [Bool.false_or, decide_eq_false_iff_not]
      omega

theorem Tracks.pushed_small (tracks : Tracks vector history) {x : Bool} {fresh : Nat → BitVec 8}
    (done : vector.pushBack x fresh = .ok next) : vector.bits + 1 < 4294967296 := by
  have small := tracks.sized.small
  by_contra full
  rw [(BitVector.pushBack_full (by omega) x fresh).2] at done
  cases done

theorem set_inside {bit : Nat} {val : Bool} (done : vector.set bit val = .ok next) : bit < vector.bits := by
  obtain ⟨_, asserted, _⟩ := bind_eq_ok.mp done
  exact require_eq_ok.mp asserted

theorem popBack_eq_ok (done : vector.popBack = .ok next) :
    vector.bits ≠ 0 ∧ next = { vector with bits := vector.bits - 1 } := by
  obtain ⟨_, asserted, same⟩ := bind_eq_ok.mp done
  cases same
  exact ⟨require_eq_ok.mp asserted, rfl⟩

theorem perform_ok_of_apply (tracks : Tracks vector history) (valid : history.apply op = some after)
    (small : ∀ x fresh, op = .pushBack x fresh → history.list.length + 1 < 4294967296) :
    ∃ next, performBit vector op = .ok next := by
  obtain ⟨list, applied, _⟩ := Option.map_eq_some_iff.mp valid
  have counted := tracks.bits
  cases op with
  | pushBack x fresh =>
      have more := small x fresh rfl
      obtain ⟨next, done, _⟩ := BitVector.pushBack_eq tracks.sized (by omega) x fresh
      exact ⟨next, done⟩
  | popBack =>
      have nonempty : history.list ≠ [] := by
        rintro empty
        rw [applyBit, if_pos empty] at applied
        cases applied
      have positive := List.length_pos_of_ne_nil nonempty
      refine ⟨{ vector with bits := vector.bits - 1 }, ?_⟩
      rw [performBit, BitVector.popBack, require_of (by omega), ok_bind]
      rfl
  | set bit val =>
      have inside : bit < history.list.length := by
        by_contra outside
        rw [applyBit, if_neg outside] at applied
        cases applied
      obtain ⟨next, done, _⟩ := BitVector.set_eq tracks.sized (show bit < vector.bits by omega) val
      exact ⟨next, done⟩

theorem step_sizes (tracks : Tracks vector history) (done : performBit vector op = .ok next) :
    ∃ after, history.apply op = some after ∧ after.raised = history.raise op ∧ next.Sized ∧
      next.bits = after.list.length ∧ next.onHeap = after.grown := by
  have counted := tracks.bits
  cases op with
  | pushBack x fresh =>
      obtain ⟨_, pushed, sized, bits, heap, _⟩ :=
        BitVector.pushBack_eq tracks.sized (tracks.pushed_small done) x fresh
      cases pushed.symm.trans done
      have length : (history.list ++ [x]).length = history.list.length + 1 := List.length_append
      rw [tracks.heap, counted, ← length] at heap
      exact ⟨_, rfl, rfl, sized, bits.trans ((congrArg (· + 1) counted).trans length.symm), heap⟩
  | popBack =>
      obtain ⟨nonzero, rfl⟩ := popBack_eq_ok done
      have nonempty : history.list ≠ [] := by
        intro empty
        exact nonzero (counted.trans (congrArg List.length empty))
      have length : history.list.dropLast.length = history.list.length - 1 := List.length_dropLast
      have still := tracks.grown_same (show history.list.dropLast.length ≤ history.list.length by omega)
      have room := BitVector.bytesNeeded_le.mp tracks.sized.room
      refine ⟨⟨history.list.dropLast, history.raised, history.grown⟩, ?_, rfl, ⟨tracks.sized.word, ?_, ?_⟩, ?_,
        tracks.heap⟩
      · rw [BitHistory.apply, applyBit, if_neg nonempty, Option.map_some, still]
        rfl
      · exact BitVector.bytesNeeded_le.mpr ((Nat.sub_le _ _).trans room)
      · exact (Nat.sub_le _ _).trans_lt tracks.sized.small
      · exact (congrArg (· - 1) counted).trans length.symm
  | set bit val =>
      have inside := set_inside done
      obtain ⟨_, written, bits, capacity, _⟩ := BitVector.set_eq tracks.sized inside val
      cases written.symm.trans done
      obtain ⟨sized, place⟩ := BitVector.set_sized tracks.sized bits capacity
      have length : (history.list.set bit val).length = history.list.length := List.length_set
      have still := tracks.grown_same (show (history.list.set bit val).length ≤ history.list.length by omega)
      refine ⟨⟨history.list.set bit val, history.raise (.set bit val), history.grown⟩, ?_, rfl, sized, ?_,
        place.trans tracks.heap⟩
      · rw [BitHistory.apply, applyBit, if_pos (by omega), Option.map_some, still]
      · rw [bits, counted]
        exact length.symm

/-- A call touches the one bit that it writes. A write to the word does not clear the old bit. -/
theorem step_reads (tracks : Tracks vector history) (done : performBit vector op = .ok next) :
    (∀ bit val, history.write op = some (bit, val) →
      next.bitAt bit = if next.onHeap then val else val || vector.bitAt bit) ∧
    ∀ query, (∀ val, history.write op ≠ some (query, val)) → query < next.bits ∨ next.onHeap = false →
      next.bitAt query = vector.bitAt query := by
  have counted := tracks.bits
  cases op with
  | pushBack x fresh =>
      obtain ⟨_, pushed, _, bits, _, last, others⟩ :=
        BitVector.pushBack_eq tracks.sized (tracks.pushed_small done) x fresh
      cases pushed.symm.trans done
      constructor
      · rintro _ _ ⟨⟩
        rw [← counted, last]
      · intro query unwritten kept
        have other : query ≠ vector.bits := by
          rintro rfl
          exact unwritten x (congrArg (fun bit => some (bit, x)) counted.symm)
        refine others query other (kept.imp_left fun below => ?_)
        omega
  | popBack =>
      obtain ⟨_, rfl⟩ := popBack_eq_ok done
      refine ⟨fun _ _ impossible => ?_, fun _ _ _ => rfl⟩
      cases impossible
  | set bit val =>
      obtain ⟨_, written, bits, capacity, reads⟩ := BitVector.set_eq tracks.sized (set_inside done) val
      cases written.symm.trans done
      obtain ⟨_, place⟩ := BitVector.set_sized tracks.sized bits capacity
      constructor
      · rintro _ _ ⟨⟩
        rw [reads, if_pos rfl, BitVector.stored, place]
      · intro query unwritten _
        have other : query ≠ bit := by
          rintro rfl
          exact unwritten val rfl
        rw [reads, if_neg other]

theorem apply_reads (valid : history.apply op = some after) :
    (∀ bit val, history.write op = some (bit, val) → after.list[bit]? = some val) ∧
    ∀ query < after.list.length, (∀ val, history.write op ≠ some (query, val)) →
      after.list[query]? = history.list[query]? := by
  obtain ⟨list, applied, rfl⟩ := Option.map_eq_some_iff.mp valid
  dsimp only
  cases op with
  | pushBack x fresh =>
      cases applied
      constructor
      · rintro _ _ ⟨⟩
        exact List.getElem?_concat_length
      · intro query inside unwritten
        have other : query ≠ history.list.length := by
          rintro rfl
          exact unwritten x rfl
        rw [List.length_append, List.length_singleton] at inside
        exact List.getElem?_append_left (by omega)
  | popBack =>
      rw [applyBit] at applied
      split at applied
      · cases applied
      · cases applied
        refine ⟨fun _ _ impossible => ?_, fun query inside _ => ?_⟩
        · cases impossible
        · rw [List.length_dropLast] at inside
          rw [List.getElem?_dropLast, if_pos inside]
  | set bit val =>
      rw [applyBit] at applied
      split at applied
      · rename_i inside
        cases applied
        constructor
        · rintro _ _ ⟨⟩
          exact List.getElem?_set_self inside
        · intro query _ unwritten
          have other : bit ≠ query := by
            rintro rfl
            exact unwritten val rfl
          exact List.getElem?_set_ne other
      · cases applied

theorem mem_raise {position bit : Nat} {val : Bool} (writes : history.write op = some (position, val)) :
    bit ∈ history.raise op ↔ (bit = position ∧ val = true) ∨ bit ∈ history.raised := by
  rw [BitHistory.raise, writes]
  cases val <;> simp

theorem raise_unwritten {bit : Nat} (unwritten : ∀ val, history.write op ≠ some (bit, val)) :
    bit ∈ history.raise op ↔ bit ∈ history.raised := by
  cases writes : history.write op with
  | none => rw [BitHistory.raise, writes]
  | some written =>
      rw [mem_raise writes, or_iff_right]
      rintro ⟨rfl, _⟩
      exact unwritten written.2 writes

theorem grown_before (valid : history.apply op = some after) (short : after.grown = false) :
    history.grown = false := by
  obtain ⟨_, _, rfl⟩ := Option.map_eq_some_iff.mp valid
  exact (Bool.or_eq_false_iff.mp short).1

theorem tracks_step (tracks : Tracks vector history) (done : performBit vector op = .ok next) :
    ∃ after, history.apply op = some after ∧ Tracks next after := by
  obtain ⟨after, valid, raised, sized, bits, heap⟩ := step_sizes tracks done
  obtain ⟨written, others⟩ := step_reads tracks done
  refine ⟨after, valid, sized, bits, heap, fun short query => ?_⟩
  have inline : next.onHeap = false := heap.trans short
  have before := tracks.stale (grown_before valid short) query
  rw [raised]
  by_cases writes : ∃ val, history.write op = some (query, val)
  · obtain ⟨val, writes⟩ := writes
    rw [written query val writes, inline, if_neg Bool.false_ne_true, before, eq_comm,
      Bool.decide_congr (mem_raise writes)]
    simp
  · push Not at writes
    rw [others query writes (.inr inline), before, Bool.decide_congr (raise_unwritten writes)]

theorem step_clean (represents : Represents vector history) (valid : history.apply op = some after)
    (clean : history.Clean op) : ∃ next, performBit vector op = .ok next ∧ Represents next after := by
  have tracks := represents.tracks
  obtain ⟨next, done⟩ := perform_ok_of_apply tracks valid clean.2
  obtain ⟨_, known, now⟩ := tracks_step tracks done
  cases valid.symm.trans known
  obtain ⟨written, others⟩ := step_reads tracks done
  obtain ⟨shown, kept⟩ := apply_reads valid
  refine ⟨next, done, now.sized, now.bits, now.heap, fun query inside => ?_, now.stale⟩
  have counted := now.bits
  by_cases writes : ∃ val, history.write op = some (query, val)
  · obtain ⟨val, writes⟩ := writes
    have value := shown query val writes
    rw [List.getElem?_eq_getElem inside, Option.some.injEq] at value
    rw [written query val writes, value]
    cases heap : next.onHeap with
    | true => rfl
    | false =>
        cases val with
        | true => rfl
        | false =>
            have short := grown_before valid (now.heap.symm.trans heap)
            rw [if_neg Bool.false_ne_true, Bool.false_or, tracks.stale short, decide_eq_false_iff_not]
            intro member
            exact Bool.false_ne_true (short.symm.trans (clean.1 query writes member))
  · push Not at writes
    have value := kept query inside writes
    rw [List.getElem?_eq_getElem inside] at value
    obtain ⟨before, same⟩ := List.getElem?_eq_some_iff.mp value.symm
    rw [others query writes (.inl (by omega)), represents.agrees query before, same]

theorem write_keeps_word (tracks : Tracks vector history) (valid : history.apply op = some after) {bit : Nat}
    {val : Bool} (writes : history.write op = some (bit, val)) (ungrown : history.grown = false)
    (old : vector.bitAt bit = true) : after.grown = false := by
  have inline : vector.onHeap = false := tracks.heap.trans ungrown
  have counted := tracks.bits
  have bound := tracks.sized.inline_bits inline
  have place : bit < 32 := by
    rw [BitVector.bitAt_inline inline] at old
    exact BitVec.lt_of_getLsbD old
  obtain ⟨list, applied, rfl⟩ := Option.map_eq_some_iff.mp valid
  have short : list.length ≤ 32 := by
    cases op with
    | pushBack x fresh =>
        cases applied
        cases writes
        rw [List.length_append, List.length_singleton]
        omega
    | popBack => cases writes
    | set position value =>
        rw [applyBit] at applied
        split at applied
        · cases applied
          rw [List.length_set]
          omega
        · cases applied
  dsimp only
  rw [ungrown, Bool.false_or, decide_eq_false_iff_not]
  omega

theorem step_dirty (represents : Represents vector history) (valid : history.apply op = some after)
    (unclean : ¬history.Clean op) (done : performBit vector op = .ok next) : ¬ShowsBits next after.list := by
  have tracks := represents.tracks
  obtain ⟨_, known, now⟩ := tracks_step tracks done
  cases valid.symm.trans known
  have small : ∀ x fresh, op = .pushBack x fresh → history.list.length + 1 < 4294967296 := by
    rintro x fresh rfl
    rw [← tracks.bits]
    exact tracks.pushed_small done
  have lost : ∃ bit, history.write op = some (bit, false) ∧ bit ∈ history.raised ∧ history.grown = false := by
    by_contra none
    refine unclean ⟨fun bit writes member => ?_, small⟩
    by_contra ungrown
    exact none ⟨bit, writes, member, Bool.eq_false_iff.mpr ungrown⟩
  obtain ⟨bit, writes, member, ungrown⟩ := lost
  have old : vector.bitAt bit = true := (tracks.stale ungrown bit).trans (decide_eq_true member)
  have value := (apply_reads valid).1 bit false writes
  obtain ⟨inside, isFalse⟩ := List.getElem?_eq_some_iff.mp value
  have inline : next.onHeap = false := by
    rw [now.heap]
    exact write_keeps_word tracks valid writes ungrown old
  intro shows
  have read := shows.get bit inside
  rw [BitVector.get_eq now.sized (by rw [now.bits]; exact inside), (step_reads tracks done).1 bit false writes,
    inline, if_neg Bool.false_ne_true, old, isFalse] at read
  cases read

end Steps

theorem bitVector_refinement : Refinement performBit BitHistory.apply Represents
    (fun vector history => ShowsBits vector history.list) (fun _ => BitHistory.Clean) where
  shows_of_rel := Represents.shows
  clean := step_clean
  dirty := step_dirty

/-- A valid sequence of calls shows the list after every call exactly if no call writes false at an
index where true was written before, unless the vector has left the word. -/
theorem bitVector_shows_list (ops : List BitOp)
    (valid : (applyAll BitHistory.apply .empty ops).isSome = true) :
    ShowsAll performBit BitHistory.apply (fun vector history => ShowsBits vector history.list)
      .empty .empty ops ↔
    AllClean performBit BitHistory.apply (fun _ => BitHistory.Clean) .empty .empty ops :=
  bitVector_refinement.showsAll_iff represents_empty valid

/-- `set(0, false)` right after `push_back(true)` leaves the bit set. -/
theorem set_false_inline_lost : ∃ vector,
    performAll performBit .empty [.pushBack true fun _ => 0, .set 0 false] = .ok vector ∧
      applyAll (fun list op => applyBit list op) [] [.pushBack true fun _ => 0, .set 0 false] = some [false] ∧
      vector.get 0 = .ok true :=
  ⟨_, rfl, rfl, rfl⟩

/-- Two pushes and a pop. -/
theorem bitVector_shows_list_push : ShowsAll performBit BitHistory.apply
    (fun vector history => ShowsBits vector history.list) .empty .empty
      [.pushBack false fun _ => 0, .pushBack true fun _ => 0, .popBack] := by
  refine (bitVector_shows_list _ rfl).mpr ?_
  refine .cons (by simp [BitHistory.Clean, BitHistory.write, BitHistory.empty]) ?_
  rintro _ _ _ ⟨⟩
  refine .cons (by simp [BitHistory.Clean, BitHistory.write, BitHistory.empty]) ?_
  rintro _ _ _ ⟨⟩
  refine .cons (by simp [BitHistory.Clean, BitHistory.write]) ?_
  intro _ _ _ _
  exact allClean_nil

end Refinement

end ToyKernel.Containers
