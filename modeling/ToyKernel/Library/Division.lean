import Mathlib.Tactic

/-!
Long division in base two, as an invariant of the remainder and the quotient of a leading part of the
dividend, and the word operations of its branch-less form.
-/

namespace ToyKernel.Library

/-- The dividend without its last bits has this quotient and this remainder. -/
structure Divided (dividend divisor bits quotient remainder : Nat) : Prop where
  leading : dividend / 2 ^ bits = quotient * divisor + remainder
  small : remainder < divisor

section LongDivision

variable {dividend divisor bits quotient remainder : Nat}

theorem Divided.start (small : dividend / 2 ^ bits < divisor) :
    Divided dividend divisor bits 0 (dividend / 2 ^ bits) :=
  ⟨by rw [Nat.zero_mul, Nat.zero_add], small⟩

theorem leading_succ (dividend bits : Nat) :
    dividend / 2 ^ bits = 2 * (dividend / 2 ^ (bits + 1)) + dividend / 2 ^ bits % 2 := by
  rw [Nat.pow_succ, ← Nat.div_div_eq_div_mul]
  omega

theorem Divided.keep (divided : Divided dividend divisor (bits + 1) quotient remainder)
    (less : 2 * remainder + dividend / 2 ^ bits % 2 < divisor) :
    Divided dividend divisor bits (2 * quotient) (2 * remainder + dividend / 2 ^ bits % 2) := by
  refine ⟨?_, less⟩
  calc dividend / 2 ^ bits
      = 2 * (quotient * divisor + remainder) + dividend / 2 ^ bits % 2 := by
        rw [← divided.leading]
        exact leading_succ dividend bits
    _ = 2 * quotient * divisor + (2 * remainder + dividend / 2 ^ bits % 2) := by ring

theorem Divided.subtract (divided : Divided dividend divisor (bits + 1) quotient remainder)
    (reached : divisor ≤ 2 * remainder + dividend / 2 ^ bits % 2) :
    Divided dividend divisor bits (2 * quotient + 1) (2 * remainder + dividend / 2 ^ bits % 2 - divisor) := by
  have small := divided.small
  refine ⟨?_, by omega⟩
  calc dividend / 2 ^ bits
      = 2 * (quotient * divisor + remainder) + dividend / 2 ^ bits % 2 := by
        rw [← divided.leading]
        exact leading_succ dividend bits
    _ = 2 * quotient * divisor + (2 * remainder + dividend / 2 ^ bits % 2) := by ring
    _ = (2 * quotient + 1) * divisor + (2 * remainder + dividend / 2 ^ bits % 2 - divisor) := by
        rw [Nat.add_mul, Nat.one_mul]
        omega

theorem Divided.quotient_le (divided : Divided dividend divisor bits quotient remainder) :
    quotient ≤ dividend / 2 ^ bits := by
  have positive : 1 ≤ divisor := by have := divided.small; omega
  calc quotient ≤ quotient * divisor := Nat.le_mul_of_pos_right quotient positive
    _ ≤ dividend / 2 ^ bits := by rw [divided.leading]; exact Nat.le_add_right _ _

theorem Divided.done (divided : Divided dividend divisor 0 quotient remainder) :
    quotient = dividend / divisor ∧ remainder = dividend % divisor := by
  have leading := divided.leading
  rw [Nat.pow_zero, Nat.div_one] at leading
  have recombined : remainder + divisor * quotient = dividend := by
    rw [leading]
    ring
  have unique := (Nat.div_mod_unique (Nat.zero_lt_of_lt divided.small)).mpr ⟨recombined, divided.small⟩
  exact ⟨unique.1.symm, unique.2.symm⟩

end LongDivision

section Words

/-- Shifting a bit in from below loses the sign bit. -/
theorem toNat_shiftIn (high bit : UInt64) (isBit : bit.toNat < 2) :
    (high <<< 1 ||| bit).toNat = 2 * high.toNat % 2 ^ 64 + bit.toNat := by
  have shifted : (high <<< 1).toNat = 2 * (high.toNat % 2 ^ 63) := by
    rw [UInt64.toNat_shiftLeft]
    show high.toNat <<< 1 % 2 ^ 64 = _
    rw [Nat.shiftLeft_eq]
    omega
  rw [UInt64.toNat_or, shifted, show 2 * high.toNat % 2 ^ 64 = 2 * (high.toNat % 2 ^ 63) by omega]
  exact (Nat.two_pow_add_eq_or_of_lt (show bit.toNat < 2 ^ 1 from isBit) _).symm

/-- A word shifted down arithmetically to its sign is all ones or zero. -/
theorem signMask (word : UInt64) :
    (word.toInt64 >>> 63).toUInt64 = if 2 ^ 63 ≤ word.toNat then -1 else 0 := by
  have bits : (word.toInt64 >>> 63).toUInt64.toBitVec = word.toBitVec.sshiftRight 63 := rfl
  have msb : word.toBitVec.msb = decide (2 ^ 63 ≤ word.toNat) := BitVec.msb_eq_decide _
  have bound := word.toBitVec.isLt
  have same : word.toBitVec.toNat = word.toNat := rfl
  apply UInt64.toBitVec_inj.mp
  rw [bits]
  apply BitVec.eq_of_toNat_eq
  rw [BitVec.toNat_sshiftRight, msb, Nat.shiftRight_eq_div_pow, Nat.shiftRight_eq_div_pow]
  by_cases negative : 2 ^ 63 ≤ word.toNat
  · rw [if_pos (decide_eq_true negative), if_pos negative]
    show _ = 2 ^ 64 - 1
    omega
  · rw [if_neg (by simpa using negative), if_neg negative]
    show _ = 0
    omega

end Words

end ToyKernel.Library
