import ToyKernel.Library.Refinement
import ToyKernel.Paging.Effects

/-!
The bit array of `kernel/include/bitarray.h` as the set of the indices of its ones. The allocators of
frames and of slots for page directories take the least index that the set leaves out.
-/

namespace ToyKernel

open Library

namespace BitArray

variable {numBits : Nat}

inductive Op
  | clear
  | setOne (bit : Nat)
  | setZero (bit : Nat)
  | reserve (first : Nat)
deriving DecidableEq, Repr

def perform (array : BitArray numBits) : Op → Except Fault (BitArray numBits)
  | .clear => .ok clear
  | .setOne bit => array.setOne bit
  | .setZero bit => array.setZero bit
  | .reserve first => array.reserve first

def apply (set : Finset (Fin numBits)) : Op → Option (Finset (Fin numBits))
  | .clear => some ∅
  | .setOne bit => if inside : bit < numBits then some (insert ⟨bit, inside⟩ set) else none
  | .setZero bit => if inside : bit < numBits then some (set.erase ⟨bit, inside⟩) else none
  | .reserve first =>
      if first ≤ numBits then some (set ∪ Finset.univ.filter fun index => first ≤ index.val) else none

def members (array : BitArray numBits) : Finset (Fin numBits) :=
  Finset.univ.filter fun bit => array.isSet bit = true

def free (array : BitArray numBits) (start : Nat) : Set (Fin numBits) :=
  {index | start ≤ index.val ∧ index ∉ array.members}

@[simp] theorem mem_members {array : BitArray numBits} {bit : Fin numBits} :
    bit ∈ array.members ↔ array.isSet bit = true := by
  simp [members]

theorem mem_free {array : BitArray numBits} {start : Nat} {bit : Fin numBits} :
    bit ∈ array.free start ↔ start ≤ bit.val ∧ array.isSet bit = false := by
  simp [free]

section Commutes

variable (array : BitArray numBits)

theorem setOne_members (bit : Nat) : (setOne bit array).toOption.map members = apply array.members (.setOne bit) := by
  rw [apply]
  by_cases inside : bit < numBits
  · obtain ⟨after, done, bits⟩ := setOne_eq array inside
    rw [dif_pos inside, done]
    refine congrArg some ?_
    ext query
    rw [mem_members, bits, Finset.mem_insert, mem_members, Fin.ext_iff]
  · rw [dif_neg inside, setOne, require, if_neg inside]
    rfl

theorem setZero_members (bit : Nat) :
    (setZero bit array).toOption.map members = apply array.members (.setZero bit) := by
  rw [apply]
  by_cases inside : bit < numBits
  · obtain ⟨after, done, bits⟩ := setZero_eq array inside
    rw [dif_pos inside, done]
    refine congrArg some ?_
    ext query
    rw [mem_members, bits, Finset.mem_erase, mem_members, ne_eq, ne_eq, Fin.ext_iff]
  · rw [dif_neg inside, setZero, require, if_neg inside]
    rfl

theorem reserve_members (first : Nat) :
    (reserve first array).toOption.map members = apply array.members (.reserve first) := by
  rw [apply]
  by_cases inside : first ≤ numBits
  · obtain ⟨after, done, bits⟩ := reserve_eq array inside
    rw [if_pos inside, done]
    refine congrArg some ?_
    ext query
    rw [mem_members, bits query query.isLt, Finset.mem_union, mem_members, Finset.mem_filter_univ, or_comm]
  · rw [if_neg inside, reserve, require, if_neg inside]
    rfl

theorem clear_members : (clear : BitArray numBits).members = ∅ := by
  ext query
  simp

theorem perform_members (op : Op) : (perform array op).toOption.map members = apply array.members op := by
  cases op with
  | clear => exact congrArg some clear_members
  | setOne bit => exact setOne_members array bit
  | setZero bit => exact setZero_members array bit
  | reserve first => exact reserve_members array first

end Commutes

section Search

variable {array : BitArray numBits} {start bit : Nat}

/-- The search stops at the first zero, with nothing but ones between the start and it. -/
theorem getFirstZero_isLeast : array.getFirstZero start = some bit ↔
    ∃ inside : bit < numBits, IsLeast (array.free start) ⟨bit, inside⟩ := by
  rw [getFirstZero, List.find?_range'_eq_some, List.mem_range'_1]
  constructor
  · rintro ⟨zero, ⟨above, below⟩, ones⟩
    have inside : bit < numBits := by omega
    refine ⟨inside, mem_free.mpr ⟨above, by simpa using zero⟩, fun other isFree => ?_⟩
    obtain ⟨otherAbove, otherZero⟩ := mem_free.mp isFree
    by_contra earlier
    have one := ones other.val otherAbove (Nat.lt_of_not_le earlier)
    rw [otherZero] at one
    cases one
  · rintro ⟨inside, isFree, least⟩
    obtain ⟨above, zero⟩ := mem_free.mp isFree
    dsimp only at above zero
    refine ⟨by simpa using zero, ⟨above, by omega⟩, fun other otherAbove earlier => ?_⟩
    rw [Bool.not_not]
    by_contra isZero
    have otherFree : ⟨other, earlier.trans inside⟩ ∈ array.free start :=
      mem_free.mpr ⟨otherAbove, Bool.eq_false_iff.mpr isZero⟩
    exact absurd earlier (Nat.not_lt_of_le (Fin.le_def.mp (least otherFree)))

theorem getFirstZero_none : array.getFirstZero start = none ↔ array.free start = ∅ := by
  rw [Set.eq_empty_iff_forall_notMem]
  constructor
  · intro full query isFree
    obtain ⟨above, zero⟩ := mem_free.mp isFree
    rw [getFirstZero_eq_none full above query.isLt] at zero
    cases zero
  · intro none
    cases found : array.getFirstZero start with
    | none => rfl
    | some bit =>
        obtain ⟨inside, isFree, _⟩ := getFirstZero_isLeast.mp found
        exact absurd isFree (none _)

end Search

end BitArray

section Allocation

def kPageDirSize : UInt32 := 4096

def getAndUseNextFreeRegion (region : BitArray kNumPageDirs) :
    Except Fault (BitArray kNumPageDirs × UInt32) := do
  let some bit := region.getFirstZero 0 | .error .pageDirRegionFull
  let region ← region.setOne bit
  return (region, pageDirectoryRegionStart + kPageDirSize * UInt32.ofNat bit)

theorem clone_region {state after : Paging} {pd : PageDirPtr} {slot : Nat}
    (run : state.clone pd = .ok (after, slot)) :
    getAndUseNextFreeRegion state.pageDirRegion =
      .ok (after.pageDirRegion, pageDirectoryRegionStart + kPageDirSize * UInt32.ofNat slot) := by
  rw [Paging.clone] at run
  rw [getAndUseNextFreeRegion]
  cases found : state.pageDirRegion.getFirstZero 0 with
  | none =>
      rw [found] at run
      cases run
  | some bit =>
      rw [found] at run
      obtain ⟨region, set, done⟩ := bind_eq_ok.mp run
      cases done
      dsimp only
      rw [set]
      rfl

theorem getAndUseNextFreeRegion_lowest {region : BitArray kNumPageDirs} {slot : Fin kNumPageDirs}
    (least : IsLeast (region.free 0) slot) :
    ∃ after, getAndUseNextFreeRegion region =
        .ok (after, pageDirectoryRegionStart + kPageDirSize * UInt32.ofNat slot.val) ∧
      after.members = insert slot region.members := by
  have found : region.getFirstZero 0 = some slot.val := BitArray.getFirstZero_isLeast.mpr ⟨slot.isLt, least⟩
  obtain ⟨after, set, bits⟩ := BitArray.setOne_eq region slot.isLt
  refine ⟨after, ?_, ?_⟩
  · rw [getAndUseNextFreeRegion, found]
    dsimp only
    rw [set]
    rfl
  · ext query
    rw [BitArray.mem_members, bits, Finset.mem_insert, BitArray.mem_members, Fin.ext_iff]

theorem getAndUseNextFreeRegion_full {region : BitArray kNumPageDirs} (full : region.free 0 = ∅) :
    getAndUseNextFreeRegion region = .error .pageDirRegionFull := by
  rw [getAndUseNextFreeRegion, BitArray.getFirstZero_none.mpr full]

theorem nextFreePhysicalPage_lowest {bitmap : PhysicalBitmap4M} {start : Nat} {frame : Fin kRamAs4MPages}
    (least : IsLeast (bitmap.bits.free start) frame) :
    bitmap.nextFreePhysicalPage start = .ok (UInt32.ofNat frame.val * kPageSize4M) := by
  rw [PhysicalBitmap4M.nextFreePhysicalPage, BitArray.getFirstZero_isLeast.mpr ⟨frame.isLt, least⟩]

theorem nextFreePhysicalPage_none {bitmap : PhysicalBitmap4M} {start : Nat} (full : bitmap.bits.free start = ∅) :
    bitmap.nextFreePhysicalPage start = .error .memoryFull := by
  rw [PhysicalBitmap4M.nextFreePhysicalPage, BitArray.getFirstZero_none.mpr full]

theorem slots_eq_members (state : Paging) :
    state.slots = state.pageDirRegion.members.map Fin.valEmbedding := by
  ext slot
  rw [Paging.mem_slots, Finset.mem_map]
  constructor
  · rintro ⟨below, listed⟩
    exact ⟨⟨slot, below⟩, BitArray.mem_members.mpr listed, rfl⟩
  · rintro ⟨index, member, rfl⟩
    exact ⟨index.isLt, BitArray.mem_members.mp member⟩

theorem clone_lowest {state after : Paging} {pd : PageDirPtr} {slot : Nat}
    (run : state.clone pd = .ok (after, slot)) :
    slot < kNumPageDirs ∧ IsLeast {index | index ∉ state.slots} slot := by
  rw [Paging.clone] at run
  cases found : state.pageDirRegion.getFirstZero 0 with
  | none =>
      rw [found] at run
      cases run
  | some bit =>
      rw [found] at run
      obtain ⟨_, _, done⟩ := bind_eq_ok.mp run
      cases done
      obtain ⟨inside, isFree, least⟩ := BitArray.getFirstZero_isLeast.mp found
      refine ⟨inside, ?_, fun other isOther => ?_⟩
      · rintro listed
        exact isFree.2 (BitArray.mem_members.mpr (Paging.mem_slots.mp listed).2)
      · by_contra earlier
        have below : other < kNumPageDirs := (Nat.lt_of_not_le earlier).trans inside
        have otherFree : (⟨other, below⟩ : Fin kNumPageDirs) ∈ state.pageDirRegion.free 0 := by
          refine ⟨Nat.zero_le _, fun listed => isOther ?_⟩
          exact Paging.mem_slots.mpr ⟨below, BitArray.mem_members.mp listed⟩
        exact earlier (Fin.le_def.mp (least otherFree))

end Allocation

/-- Whatever the array holds at first, along every sequence of calls. -/
theorem bitArray_refines_set {numBits : Nat} (array : BitArray numBits) (ops : List BitArray.Op) (start : Nat) :
    (performAll BitArray.perform array ops).toOption.map BitArray.members =
        applyAll BitArray.apply array.members ops ∧
      (∀ bit : Fin numBits, array.isSet bit = decide (bit ∈ array.members)) ∧
      (∀ bit, array.getFirstZero start = some bit ↔
        ∃ inside : bit < numBits, IsLeast (array.free start) ⟨bit, inside⟩) ∧
      (array.getFirstZero start = none ↔ array.free start = ∅) ∧
      (∀ bitmap : PhysicalBitmap4M, (∀ frame, IsLeast (bitmap.bits.free start) frame →
          bitmap.nextFreePhysicalPage start = .ok (UInt32.ofNat frame.val * kPageSize4M)) ∧
        (bitmap.bits.free start = ∅ → bitmap.nextFreePhysicalPage start = .error .memoryFull)) ∧
      ∀ region : BitArray kNumPageDirs, (∀ slot, IsLeast (region.free 0) slot →
          ∃ after, getAndUseNextFreeRegion region =
              .ok (after, pageDirectoryRegionStart + kPageDirSize * UInt32.ofNat slot.val) ∧
            after.members = insert slot region.members) ∧
        (region.free 0 = ∅ → getAndUseNextFreeRegion region = .error .pageDirRegionFull) := by
  refine ⟨performAll_commutes _ _ BitArray.perform_members array ops, fun bit => ?_,
    fun _ => BitArray.getFirstZero_isLeast, BitArray.getFirstZero_none,
    fun _ => ⟨fun _ => nextFreePhysicalPage_lowest, nextFreePhysicalPage_none⟩,
    fun _ => ⟨fun _ => getAndUseNextFreeRegion_lowest, getAndUseNextFreeRegion_full⟩⟩
  simp

end ToyKernel
