import ToyKernel.Allocator.Model
import ToyKernel.Library.Tiling

/-!
The heap seen as a tiling of `[heapStart, heap)` by chunks whose headers are in
memory. Every operation below is described by the chunks it replaces and by the
bytes it leaves alone.
-/

namespace ToyKernel

open Library

theorem wrap32_of_lt {value : Nat} (bound : value < 4294967296) : wrap32 value = value :=
  Nat.mod_eq_of_lt bound

theorem wrap32_lt (value : Nat) : wrap32 value < 4294967296 :=
  Nat.mod_lt _ (by decide)

theorem sub32_of_le {left right : Nat} (ordered : right ≤ left) (bound : left < 4294967296) :
    sub32 left right = left - right := by
  unfold sub32
  have small : wrap32 right = right := wrap32_of_lt (by omega)
  rw [small]
  unfold wrap32
  omega

theorem isPowerOf2_iff {value : Nat} : isPowerOf2 value = true ↔ ∃ exponent, value = 2 ^ exponent := by
  simp only [isPowerOf2, Bool.and_eq_true, decide_eq_true_eq, beq_iff_eq]
  exact Nat.ne_zero_and_sub_one_eq_zero_iff_isPowerOfTwo

theorem four_dvd_max_alignment {alignment : Nat} (power : isPowerOf2 alignment = true) :
    4 ∣ max alignment kMaxAlignment := by
  obtain ⟨exponent, rfl⟩ := isPowerOf2_iff.mp power
  unfold kMaxAlignment
  rcases exponent with _ | _ | exponent
  · decide
  · decide
  · have large : 4 ≤ 2 ^ (exponent + 2) := by
      have positive := Nat.one_le_two_pow (n := exponent)
      rw [pow_add]
      omega
    rw [max_eq_left large, pow_add]
    exact Dvd.intro_left _ rfl

namespace MallocHeader

variable (memory : Memory) (chunk : Nat)

theorem size_lt : size memory chunk < 2147483648 := Nat.mod_lt _ (by decide)

theorem size_write32 (value : Nat) (flag : Bool) (bound : value < 2147483648) :
    size (write32 memory chunk (value + 2147483648 * flag.toNat)) chunk = value := by
  have small := flag.toNat_le
  rw [size, read32_write32 memory (by omega)]
  omega

theorem used_write32 (value : Nat) (flag : Bool) (bound : value < 2147483648) :
    used (write32 memory chunk (value + 2147483648 * flag.toNat)) chunk = flag := by
  have small := flag.toNat_le
  rw [used, read32_write32 memory (by omega)]
  cases flag
  · simp only [Bool.toNat_false, beq_eq_false_iff_ne]
    omega
  · simp only [Bool.toNat_true, beq_iff_eq]
    omega

@[simp] theorem size_setSize (value : Nat) :
    size (setSize memory chunk value) chunk = value % 2147483648 :=
  size_write32 memory chunk _ _ (Nat.mod_lt _ (by decide))

@[simp] theorem used_setSize (value : Nat) :
    used (setSize memory chunk value) chunk = used memory chunk :=
  used_write32 memory chunk _ _ (Nat.mod_lt _ (by decide))

@[simp] theorem size_setUsed (flag : Bool) :
    size (setUsed memory chunk flag) chunk = size memory chunk :=
  size_write32 memory chunk _ _ (size_lt memory chunk)

@[simp] theorem used_setUsed (flag : Bool) :
    used (setUsed memory chunk flag) chunk = flag :=
  used_write32 memory chunk _ _ (size_lt memory chunk)

variable {memory chunk} {low high : Nat}

theorem setSize_agreeOn (value : Nat) (outside : high ≤ chunk ∨ chunk + 4 ≤ low) :
    AgreeOn memory (setSize memory chunk value) low high :=
  write32_agreeOn memory _ outside

theorem setUsed_agreeOn (flag : Bool) (outside : high ≤ chunk ∨ chunk + 4 ≤ low) :
    AgreeOn memory (setUsed memory chunk flag) low high :=
  write32_agreeOn memory _ outside

theorem size_of_agreeOn {other : Memory} (agree : AgreeOn memory other low high)
    (lower : low ≤ chunk) (upper : chunk + 4 ≤ high) : size other chunk = size memory chunk := by
  rw [size, size, agree.read32_eq lower upper]

theorem used_of_agreeOn {other : Memory} (agree : AgreeOn memory other low high)
    (lower : low ≤ chunk) (upper : chunk + 4 ≤ high) : used other chunk = used memory chunk := by
  rw [used, used, agree.read32_eq lower upper]

theorem setSize_agreeOn_header {other : Nat} (value : Nat)
    (apart : chunk + 4 ≤ other ∨ other + 4 ≤ chunk) :
    AgreeOn memory (setSize memory chunk value) other (other + 4) :=
  setSize_agreeOn value apart.symm

theorem setUsed_agreeOn_header {other : Nat} (flag : Bool)
    (apart : chunk + 4 ≤ other ∨ other + 4 ≤ chunk) :
    AgreeOn memory (setUsed memory chunk flag) other (other + 4) :=
  setUsed_agreeOn flag apart.symm

theorem size_setSize_other {other : Nat} (value : Nat)
    (apart : chunk + 4 ≤ other ∨ other + 4 ≤ chunk) :
    size (setSize memory chunk value) other = size memory other :=
  size_of_agreeOn (setSize_agreeOn_header value apart) (Nat.le_refl _) (Nat.le_refl _)

theorem used_setSize_other {other : Nat} (value : Nat)
    (apart : chunk + 4 ≤ other ∨ other + 4 ≤ chunk) :
    used (setSize memory chunk value) other = used memory other :=
  used_of_agreeOn (setSize_agreeOn_header value apart) (Nat.le_refl _) (Nat.le_refl _)

theorem size_setUsed_other {other : Nat} (flag : Bool)
    (apart : chunk + 4 ≤ other ∨ other + 4 ≤ chunk) :
    size (setUsed memory chunk flag) other = size memory other :=
  size_of_agreeOn (setUsed_agreeOn_header flag apart) (Nat.le_refl _) (Nat.le_refl _)

theorem used_setUsed_other {other : Nat} (flag : Bool)
    (apart : chunk + 4 ≤ other ∨ other + 4 ≤ chunk) :
    used (setUsed memory chunk flag) other = used memory other :=
  used_of_agreeOn (setUsed_agreeOn_header flag apart) (Nat.le_refl _) (Nat.le_refl _)

end MallocHeader

abbrev Chunk := Segment Bool

def usedChunks (chunks : List Chunk) : List Chunk := chunks.filter fun chunk => chunk.tag

@[simp] theorem usedChunks_append (first second : List Chunk) :
    usedChunks (first ++ second) = usedChunks first ++ usedChunks second :=
  List.filter_append first second

theorem usedChunks_cons_free {chunk : Chunk} (free : chunk.tag = false) (rest : List Chunk) :
    usedChunks (chunk :: rest) = usedChunks rest := by
  simp [usedChunks, free]

theorem usedChunks_cons_used {chunk : Chunk} (inUse : chunk.tag = true) (rest : List Chunk) :
    usedChunks (chunk :: rest) = chunk :: usedChunks rest := by
  simp [usedChunks, inUse]

theorem mem_usedChunks {chunk : Chunk} {chunks : List Chunk} :
    chunk ∈ usedChunks chunks ↔ chunk ∈ chunks ∧ chunk.tag = true := by
  simp [usedChunks]

def totalSize (chunks : List Chunk) : Nat := (chunks.map Segment.size).sum

@[simp] theorem totalSize_cons (chunk : Chunk) (rest : List Chunk) :
    totalSize (chunk :: rest) = chunk.size + totalSize rest := by
  simp [totalSize]

@[simp] theorem totalSize_append (first second : List Chunk) :
    totalSize (first ++ second) = totalSize first + totalSize second := by
  simp [totalSize]

theorem totalSize_perm {first second : List Chunk} (perm : first.Perm second) :
    totalSize first = totalSize second :=
  (perm.map Segment.size).sum_eq

structure HeaderAt (memory : Memory) (chunk : Chunk) : Prop where
  size : MallocHeader.size memory chunk.start = chunk.size
  used : MallocHeader.used memory chunk.start = chunk.tag

theorem HeaderAt.of_agreeOn {first second : Memory} {chunk : Chunk} {low high : Nat}
    (header : HeaderAt first chunk) (agree : AgreeOn first second low high)
    (lower : low ≤ chunk.start) (upper : chunk.start + 4 ≤ high) : HeaderAt second chunk :=
  ⟨(MallocHeader.size_of_agreeOn agree lower upper).trans header.size,
    (MallocHeader.used_of_agreeOn agree lower upper).trans header.used⟩

theorem HeaderAt.setSize_other {memory : Memory} {chunk : Chunk} {address : Nat}
    (header : HeaderAt memory chunk) (value : Nat)
    (apart : address + 4 ≤ chunk.start ∨ chunk.start + 4 ≤ address) :
    HeaderAt (MallocHeader.setSize memory address value) chunk :=
  header.of_agreeOn (MallocHeader.setSize_agreeOn_header value apart) (Nat.le_refl _) (Nat.le_refl _)

/-- The memory between the heap's ends is exactly the given list of chunks. -/
structure Tiled (state : Allocator) (chunks : List Chunk) : Prop where
  tiles : Tiles state.heapStart chunks state.heap
  headers : ∀ chunk ∈ chunks, HeaderAt state.memory chunk
  multiples : ∀ chunk ∈ chunks, 4 ∣ chunk.size
  alignedStart : 4 ∣ state.heapStart
  heapBound : state.heap < 4294967296
  heapSize : state.heap - state.heapStart < 2147483648
  accounted : state.heapUsed = totalSize (usedChunks chunks)

namespace Tiled

variable {state : Allocator} {chunks before after : List Chunk} {chunk : Chunk}

theorem start_dvd (tiled : Tiled state chunks) (member : chunk ∈ chunks) : 4 ∣ chunk.start :=
  tiled.tiles.start_dvd tiled.alignedStart tiled.multiples chunk member

theorem size_ge (tiled : Tiled state chunks) (member : chunk ∈ chunks) : 4 ≤ chunk.size :=
  Nat.le_of_dvd (tiled.tiles.bounds member).2.1 (tiled.multiples chunk member)

theorem size_lt (tiled : Tiled state chunks) (member : chunk ∈ chunks) :
    chunk.size < 2147483648 := by
  obtain ⟨lower, _, upper⟩ := tiled.tiles.bounds member
  have total := tiled.heapSize
  simp only [Segment.stop] at upper
  omega

theorem nextChunk_eq (tiled : Tiled state chunks) (member : chunk ∈ chunks) :
    MallocHeader.nextChunk state.memory chunk.start = chunk.stop := by
  have upper := (tiled.tiles.bounds member).2.2
  have bound := tiled.heapBound
  rw [MallocHeader.nextChunk, (tiled.headers chunk member).size, MallocHeader.offset]
  exact wrap32_of_lt (by simp only [Segment.stop] at upper; omega)

theorem heapUsed_le (tiled : Tiled state chunks) : state.heapUsed ≤ state.heap - state.heapStart := by
  have general : ∀ {low high : Nat} {list : List Chunk}, Tiles low list high →
      totalSize (usedChunks list) ≤ high - low := by
    intro low high list
    induction list generalizing low with
    | nil => simp [usedChunks, totalSize]
    | cons head rest ih =>
        rintro ⟨start, positive, tail⟩
        have bound := ih tail
        have ordered := tail.le
        simp only [Segment.stop] at bound ordered
        by_cases inUse : head.tag = true
        · rw [usedChunks_cons_used inUse, totalSize_cons]
          omega
        · rw [usedChunks_cons_free (by simpa using inUse)]
          omega
  rw [tiled.accounted]
  exact general tiled.tiles

theorem replace {memory : Memory} {heapUsed : Nat}
    (tiled : Tiled state (before ++ chunk :: after)) (pieces : List Chunk)
    (inner : Tiles chunk.start pieces chunk.stop)
    (headers : ∀ piece ∈ pieces, HeaderAt memory piece)
    (multiples : ∀ piece ∈ pieces, 4 ∣ piece.size)
    (below : AgreeOn state.memory memory state.heapStart chunk.start)
    (above : AgreeOn state.memory memory chunk.stop state.heap)
    (accounted : heapUsed = totalSize (usedChunks (before ++ (pieces ++ after)))) :
    Tiled { state with memory, heapUsed } (before ++ (pieces ++ after)) := by
  obtain ⟨middle, front, start, positive, back⟩ := tiles_append.mp tiled.tiles
  refine ⟨tiled.tiles.refine inner, ?_, ?_, tiled.alignedStart, tiled.heapBound, tiled.heapSize,
    accounted⟩
  · intro piece member
    simp only [List.mem_append] at member
    rcases member with old | new | old
    · have size := tiled.size_ge (show piece ∈ _ by simp [old])
      obtain ⟨lower, _, upper⟩ := front.bounds old
      simp only [Segment.stop] at upper
      exact (tiled.headers piece (by simp [old])).of_agreeOn below (by omega) (by omega)
    · exact headers piece new
    · have size := tiled.size_ge (show piece ∈ _ by simp [old])
      obtain ⟨lower, _, upper⟩ := back.bounds old
      simp only [Segment.stop] at upper
      exact (tiled.headers piece (by simp [old])).of_agreeOn above (by omega) (by omega)
  · intro piece member
    simp only [List.mem_append] at member
    rcases member with old | new | old
    · exact tiled.multiples piece (by simp [old])
    · exact multiples piece new
    · exact tiled.multiples piece (by simp [old])

theorem agreeOn_other {memory : Memory} {other : Chunk}
    (tiled : Tiled state (before ++ chunk :: after))
    (member : other ∈ before ++ after)
    (below : AgreeOn state.memory memory state.heapStart chunk.start)
    (above : AgreeOn state.memory memory chunk.stop state.heap) :
    AgreeOn state.memory memory other.start other.stop := by
  obtain ⟨middle, front, start, positive, back⟩ := tiles_append.mp tiled.tiles
  rcases List.mem_append.mp member with old | old
  · obtain ⟨lower, _, upper⟩ := front.bounds old
    exact below.mono (by omega) (by omega)
  · obtain ⟨lower, _, upper⟩ := back.bounds old
    exact above.mono (by omega) (by omega)

end Tiled

end ToyKernel
