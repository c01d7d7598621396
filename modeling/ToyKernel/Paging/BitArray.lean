import ToyKernel.Library.Bits
import ToyKernel.Library.Result

/-!
The packed bit array of `kernel/include/bitarray.h`. Bit `b` lives in bit `b % 8`
of byte `b / 8`; the lemmas below let later proofs see it as a set of indices.
-/

namespace ToyKernel

open Library

inductive Fault
  | bitOutOfRange | reserveOutOfRange | unreferencedPage | memoryFull | pageDirRegionFull
  | kernelPageDirReclaimed | notEnoughMemory | unalignedPhysical | unalignedVirtual
  | frameAlreadyUsed | entryAlreadyAssigned | otherEntryUsed | otherEntryMissing
  | pageNotPresent | frameNotAllocated | pageFault | noMemory | noSuchTask | notUserTask
  | sameTask | noFreeVirtualPage | sharedSpaceReserved | wrongCodePage | childrenLeft
  | notAChild | initrdTooLarge
deriving DecidableEq, Repr

structure BitArray (numBits : Nat) where
  bytes : Nat → UInt8

namespace BitArray

variable {numBits : Nat}

def mask (bit : Nat) : UInt8 := 1 <<< UInt8.ofNat (bit % 8)

def clear : BitArray numBits := ⟨fun _ => 0⟩

def setByte (array : BitArray numBits) (index : Nat) (byte : UInt8) : BitArray numBits :=
  ⟨fun query => if query = index then byte else array.bytes query⟩

def setOne (bit : Nat) (array : BitArray numBits) : Except Fault (BitArray numBits) := do
  require (bit < numBits) .bitOutOfRange
  return array.setByte (bit / 8) (array.bytes (bit / 8) ||| mask bit)

def setZero (bit : Nat) (array : BitArray numBits) : Except Fault (BitArray numBits) := do
  require (bit < numBits) .bitOutOfRange
  return array.setByte (bit / 8) (array.bytes (bit / 8) &&& ~~~mask bit)

def isSet (array : BitArray numBits) (bit : Nat) : Bool :=
  array.bytes (bit / 8) &&& mask bit != 0

def setAll : List Nat → BitArray numBits → Except Fault (BitArray numBits)
  | [], array => pure array
  | bit :: rest, array => do
      let array ← setOne bit array
      setAll rest array

def reserve (first : Nat) (array : BitArray numBits) : Except Fault (BitArray numBits) := do
  require (first ≤ numBits) .reserveOutOfRange
  setAll (List.range' first (numBits - first)) array

def getFirstZero (array : BitArray numBits) (start : Nat) : Option Nat :=
  (List.range' start (numBits - start)).find? fun bit => !array.isSet bit

theorem mask_toBitVec (bit : Nat) : (mask bit).toBitVec = BitVec.twoPow 8 (bit % 8) := by
  have bound : bit % 8 < 8 := Nat.mod_lt _ (by decide)
  unfold mask
  generalize bit % 8 = shift at bound
  interval_cases shift <;> rfl

theorem isSet_eq (array : BitArray numBits) (bit : Nat) :
    array.isSet bit = (array.bytes (bit / 8)).toBitVec.getLsbD (bit % 8) := by
  unfold isSet
  rw [Bool.eq_iff_iff, bne_iff_ne, ne_eq, ← UInt8.toBitVec_inj, UInt8.toBitVec_and, mask_toBitVec]
  exact and_twoPow_ne_zero _ (Nat.mod_lt _ (by decide))

@[simp] theorem isSet_clear (bit : Nat) : (clear : BitArray numBits).isSet bit = false := by
  simp [isSet_eq, clear]

theorem isSet_setByte (array : BitArray numBits) (bit query : Nat) (byte : UInt8)
    (same : ∀ shift < 8, shift ≠ bit % 8 →
      byte.toBitVec.getLsbD shift = (array.bytes (bit / 8)).toBitVec.getLsbD shift) :
    (array.setByte (bit / 8) byte).isSet query =
      if query = bit then byte.toBitVec.getLsbD (bit % 8) else array.isSet query := by
  simp only [isSet_eq, setByte]
  by_cases sameByte : query / 8 = bit / 8
  · rw [if_pos sameByte]
    by_cases sameBit : query = bit
    · rw [if_pos sameBit, sameBit]
    · rw [if_neg sameBit, sameByte]
      exact same _ (Nat.mod_lt _ (by decide)) (by omega)
  · rw [if_neg sameByte, if_neg (by rintro rfl; exact sameByte rfl)]

theorem setOne_eq {bit : Nat} (array : BitArray numBits) (inRange : bit < numBits) :
    ∃ after, setOne bit array = .ok after ∧
      ∀ query, after.isSet query = true ↔ query = bit ∨ array.isSet query = true := by
  refine ⟨_, by simp only [setOne, require_of inRange, ok_bind]; rfl, ?_⟩
  intro query
  rw [isSet_setByte]
  · have bound : bit % 8 < 8 := Nat.mod_lt _ (by decide)
    by_cases same : query = bit
    · simp [same, mask_toBitVec, bound]
    · simp [same]
  · intro shift small different
    simp [mask_toBitVec, small, different]

theorem setZero_eq {bit : Nat} (array : BitArray numBits) (inRange : bit < numBits) :
    ∃ after, setZero bit array = .ok after ∧
      ∀ query, after.isSet query = true ↔ query ≠ bit ∧ array.isSet query = true := by
  refine ⟨_, by simp only [setZero, require_of inRange, ok_bind]; rfl, ?_⟩
  intro query
  rw [isSet_setByte]
  · have bound : bit % 8 < 8 := Nat.mod_lt _ (by decide)
    by_cases same : query = bit
    · simp [same, mask_toBitVec, bound]
    · simp [same]
  · intro shift small different
    simp [mask_toBitVec, small, different]

theorem setAll_eq (bits : List Nat) (inRange : ∀ bit ∈ bits, bit < numBits)
    (array : BitArray numBits) :
    ∃ after, setAll bits array = .ok after ∧
      ∀ query, after.isSet query = true ↔ query ∈ bits ∨ array.isSet query = true := by
  induction bits generalizing array with
  | nil => exact ⟨array, rfl, by simp⟩
  | cons bit rest ih =>
      obtain ⟨middle, first, middleBits⟩ := setOne_eq array (inRange bit (by simp))
      obtain ⟨after, others, afterBits⟩ :=
        ih (fun other member => inRange other (by simp [member])) middle
      refine ⟨after, by rw [setAll, first, ok_bind, others], ?_⟩
      intro query
      rw [afterBits, middleBits, List.mem_cons]
      tauto

theorem reserve_eq {first : Nat} (array : BitArray numBits) (inRange : first ≤ numBits) :
    ∃ after, reserve first array = .ok after ∧ ∀ query < numBits,
      after.isSet query = true ↔ first ≤ query ∨ array.isSet query = true := by
  obtain ⟨after, set, bits⟩ := setAll_eq (List.range' first (numBits - first))
    (by intro bit member; rw [List.mem_range'_1] at member; omega) array
  refine ⟨after, by rw [reserve, require_of inRange, ok_bind, set], ?_⟩
  intro query bounded
  rw [bits, List.mem_range'_1]
  have range : first ≤ query ∧ query < first + (numBits - first) ↔ first ≤ query := by omega
  rw [range]

theorem getFirstZero_eq_some {array : BitArray numBits} {start bit : Nat}
    (found : array.getFirstZero start = some bit) :
    start ≤ bit ∧ bit < numBits ∧ array.isSet bit = false := by
  have member := List.mem_of_find?_eq_some found
  have isZero := List.find?_some found
  rw [List.mem_range'_1] at member
  exact ⟨member.1, by omega, by simpa using isZero⟩

theorem getFirstZero_eq_none {array : BitArray numBits} {start : Nat}
    (full : array.getFirstZero start = none) {bit : Nat} (above : start ≤ bit)
    (inRange : bit < numBits) : array.isSet bit = true := by
  have allSet := List.find?_eq_none.mp full bit (by rw [List.mem_range'_1]; omega)
  simpa using allSet

end BitArray

end ToyKernel
