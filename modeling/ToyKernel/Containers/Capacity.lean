import Mathlib.Data.Nat.Log
import ToyKernel.Containers.BitVector

/-!
The rounding to powers of two of `utils/include/MathUtils.h`, and the capacity that the bit vector
takes for a number of bits.
-/

namespace ToyKernel.Containers.BitVector

section Powers

variable {x fuel : Nat}

theorem isPowerOf2_iff : isPowerOf2 x = true ↔ ∃ exponent, x = 2 ^ exponent := by
  simp only [isPowerOf2, Bool.and_eq_true, decide_eq_true_eq]
  exact Nat.ne_zero_and_sub_one_eq_zero_iff_isPowerOfTwo

theorem isLeast_pow_clog (x : Nat) :
    IsLeast {power | x ≤ power ∧ ∃ exponent, power = 2 ^ exponent} (2 ^ Nat.clog 2 x) := by
  refine ⟨⟨Nat.le_pow_clog (by decide) x, _, rfl⟩, ?_⟩
  rintro _ ⟨above, exponent, rfl⟩
  exact Nat.pow_le_pow_right (by decide) (Nat.clog_le_of_le_pow above)

/-- The loop counts the halvings down to one, and how many rounds it could have made does not show. -/
theorem shiftsTo1_eq (positive : 0 < x) (enough : Nat.log 2 x < fuel) : shiftsTo1 fuel x = Nat.log 2 x := by
  induction fuel generalizing x with
  | zero => exact absurd enough (Nat.not_lt_zero _)
  | succ fuel ih =>
      rw [shiftsTo1]
      by_cases one : x = 1
      · rw [if_pos one, one, Nat.log_one_right]
      · have halved := Nat.log_of_one_lt_of_le (b := 2) (by decide) (show 2 ≤ x by omega)
        rw [if_neg one, ih (by omega) (by omega), halved]

theorem clog_of_not_power (positive : 0 < x) (between : ¬∃ exponent, x = 2 ^ exponent) :
    Nat.clog 2 x = Nat.log 2 x + 1 := by
  have below : 2 ^ Nat.log 2 x < x :=
    lt_of_le_of_ne (Nat.pow_log_le_self 2 (by omega)) fun same => between ⟨_, same.symm⟩
  have upper : Nat.clog 2 x ≤ Nat.log 2 x + 1 :=
    Nat.clog_le_of_le_pow (Nat.lt_pow_succ_log_self (by decide) x).le
  have lower : Nat.log 2 x < Nat.clog 2 x := (Nat.lt_clog_iff_pow_lt (by decide)).mpr below
  omega

theorem log_lt_31 (positive : 0 < x) (bound : x ≤ 2147483648) (between : ¬∃ exponent, x = 2 ^ exponent) :
    Nat.log 2 x < 31 := by
  have different : x ≠ 2 ^ 31 := fun same => between ⟨31, same⟩
  exact Nat.log_lt_of_lt_pow (by omega) (by omega)

theorem nextPowOf2_eq (positive : 0 < x) (bound : x ≤ 2147483648) : nextPowOf2 x = 2 ^ Nat.clog 2 x := by
  rw [nextPowOf2, if_neg (by omega)]
  split
  · rename_i power
    obtain ⟨exponent, rfl⟩ := isPowerOf2_iff.mp power
    rw [Nat.clog_pow 2 exponent (by decide)]
  · rename_i other
    have between : ¬∃ exponent, x = 2 ^ exponent := fun power => other (isPowerOf2_iff.mpr power)
    have short := log_lt_31 positive bound between
    have small : 2 ^ (Nat.log 2 x + 1) < 4294967296 :=
      Nat.pow_lt_pow_right (by decide) (show Nat.log 2 x + 1 < 32 by omega)
    rw [shiftsTo1_eq positive (by omega), clog_of_not_power positive between, Nat.mod_eq_of_lt small]

theorem shiftsTo1_small (positive : 0 < x) (bound : x ≤ 2147483648) (other : isPowerOf2 x = false) :
    x / 2 ^ shiftsTo1 32 x = 1 ∧ shiftsTo1 32 x + 1 < 32 := by
  have between : ¬∃ exponent, x = 2 ^ exponent := by
    intro power
    rw [isPowerOf2_iff.mpr power] at other
    cases other
  have short := log_lt_31 positive bound between
  have above := Nat.pow_log_le_self 2 (show x ≠ 0 by omega)
  have below := Nat.lt_pow_succ_log_self (b := 2) (by decide) x
  rw [Nat.pow_succ] at below
  rw [shiftsTo1_eq positive (by omega)]
  refine ⟨?_, by omega⟩
  exact Nat.div_eq_of_lt_le (by omega) (by omega)

end Powers

section Capacity

variable {bits : Nat}

/-- Up to a word the capacity is the word's, from then on twice the rounded number of bytes. -/
theorem getCapacity_eq (small : bits < 4294967296) :
    getCapacity bits = if bits ≤ 32 then 4 else 2 ^ Nat.clog 2 (bytesNeeded bits) * 2 := by
  have word : bytesNeeded bits ≤ 4 ↔ bits ≤ 32 := bytesNeeded_le
  have bytes : bytesNeeded bits ≤ 2 ^ 29 := bytesNeeded_le.mpr (by omega)
  have rounded : 2 ^ Nat.clog 2 (bytesNeeded bits) ≤ 2 ^ 29 :=
    Nat.pow_le_pow_right (by decide) (Nat.clog_le_of_le_pow bytes)
  rw [getCapacity]
  by_cases short : bits ≤ 32
  · rw [if_pos (word.mpr short), if_pos short]
  · have long : ¬bytesNeeded bits ≤ 4 := fun fits => short (word.mp fits)
    rw [if_neg long, if_neg short, nextPowOf2_eq (by omega) (by omega), Nat.mod_eq_of_lt (by omega)]

theorem bytesNeeded_le_capacity (small : bits < 4294967296) : bytesNeeded bits ≤ getCapacity bits := by
  rw [getCapacity_eq small]
  split
  · rename_i short
    exact bytesNeeded_le.mpr short
  · have rounded := Nat.le_pow_clog (b := 2) (by decide) (bytesNeeded bits)
    omega

theorem four_lt_capacity_iff (small : bits < 4294967296) : 4 < getCapacity bits ↔ 32 < bits := by
  have word : bytesNeeded bits ≤ 4 ↔ bits ≤ 32 := bytesNeeded_le
  have rounded := Nat.le_pow_clog (b := 2) (by decide) (bytesNeeded bits)
  rw [getCapacity_eq small]
  split <;> omega

/-- The constructor leaves room for its bits, and places them by their number alone. -/
theorem ofSize_sized (small : bits < 4294967296) (fresh : Nat → BitVec 8) :
    (ofSize bits fresh).Sized ∧ (ofSize bits fresh).onHeap = decide (32 < bits) := by
  refine ⟨⟨?_, bytesNeeded_le_capacity small, small⟩, ?_⟩
  · have either := getCapacity_eq small
    have rounded := Nat.le_pow_clog (b := 2) (by decide) (bytesNeeded bits)
    have word : bytesNeeded bits ≤ 4 ↔ bits ≤ 32 := bytesNeeded_le
    change 4 ≤ getCapacity bits
    rw [either]
    split <;> omega
  · exact decide_eq_decide.mpr (four_lt_capacity_iff small)

end Capacity

/-- For every 32-bit number that has a power of two above it, and every number of bits. -/
theorem nextPowOf2_capacity (x bits : UInt32) (positive : 0 < x) (bound : x ≤ 2147483648) :
    IsLeast {power | x.toNat ≤ power ∧ ∃ exponent, power = 2 ^ exponent} (nextPowOf2 x.toNat) ∧
      (isPowerOf2 x.toNat = false → x.toNat / 2 ^ shiftsTo1 32 x.toNat = 1 ∧ shiftsTo1 32 x.toNat + 1 < 32) ∧
      bytesNeeded bits.toNat ≤ getCapacity bits.toNat ∧ (4 < getCapacity bits.toNat ↔ 32 < bits) := by
  have above : 0 < x.toNat := UInt32.lt_iff_toNat_lt.mp positive
  have below : x.toNat ≤ 2147483648 := UInt32.le_iff_toNat_le.mp bound
  refine ⟨?_, shiftsTo1_small above below, bytesNeeded_le_capacity bits.toNat_lt, ?_⟩
  · rw [nextPowOf2_eq above below]
    exact isLeast_pow_clog x.toNat
  · rw [four_lt_capacity_iff bits.toNat_lt, UInt32.lt_iff_toNat_lt]
    rfl

/-- The number below the last power of two, and one bit more than a word. -/
theorem nextPowOf2_capacity_top : nextPowOf2 2147483647 = 2147483648 ∧ shiftsTo1 32 2147483647 + 1 < 32 ∧
    bytesNeeded 33 ≤ getCapacity 33 ∧ 4 < getCapacity 33 := by
  obtain ⟨_, shifts, room, long⟩ := nextPowOf2_capacity 2147483647 33 (by decide) (by decide)
  exact ⟨by decide, (shifts (by decide)).2, room, long.mpr (by decide)⟩

end ToyKernel.Containers.BitVector
