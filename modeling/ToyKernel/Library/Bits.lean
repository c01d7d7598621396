import Mathlib.Tactic

/-!
Single bits of a machine word: testing one with a mask, and overwriting one.
-/

namespace ToyKernel.Library

theorem and_twoPow_ne_zero {width shift : Nat} (word : BitVec width) (inRange : shift < width) :
    word &&& BitVec.twoPow width shift ≠ BitVec.ofNat width 0 ↔ word.getLsbD shift = true := by
  rw [BitVec.and_twoPow]
  by_cases isOne : word.getLsbD shift = true
  · simp only [isOne, ↓reduceIte, iff_true]
    intro zero
    have bits := congrArg (BitVec.getLsbD · shift) zero
    simp [inRange] at bits
  · simp [isOne]

def flag (width : Nat) (val : Bool) : BitVec width := (BitVec.ofBool val).setWidth width

theorem getLsbD_flag_shift {width shift query : Nat} (val : Bool) (inRange : shift < width) :
    (flag width val <<< shift).getLsbD query = (decide (query = shift) && val) := by
  rw [BitVec.getLsbD_shiftLeft, flag, BitVec.getLsbD_setWidth, BitVec.getLsbD_ofBool]
  by_cases same : query = shift
  · subst same
    simp [inRange]
    omega
  · have apart : ¬query - shift = 0 ∨ query < shift := by omega
    rcases apart with above | below
    · simp [same, above]
    · simp [same, below]

theorem getLsbD_overwrite {width shift query : Nat} (word : BitVec width) (val : Bool)
    (inRange : shift < width) :
    ((word &&& ~~~(BitVec.ofNat width 1 <<< shift)) ||| (flag width val <<< shift)).getLsbD query =
      if query = shift then val else word.getLsbD query := by
  rw [BitVec.getLsbD_or, getLsbD_flag_shift val inRange, BitVec.getLsbD_and, BitVec.getLsbD_not,
    ← BitVec.twoPow_eq, BitVec.getLsbD_twoPow]
  by_cases same : query = shift
  · subst same
    simp [inRange]
  · have other : ¬shift = query := fun equal => same equal.symm
    by_cases inside : query < width
    · simp [same, other, inside]
    · simp [same, BitVec.getLsbD_of_ge word query (by omega)]

/-- Masking out the value that is about to be written clears nothing when that value is false. -/
theorem getLsbD_raise {width shift query : Nat} (word : BitVec width) (val : Bool)
    (inRange : shift < width) :
    ((word &&& ~~~(flag width val <<< shift)) ||| (flag width val <<< shift)).getLsbD query =
      if query = shift then val || word.getLsbD query else word.getLsbD query := by
  rw [BitVec.getLsbD_or, BitVec.getLsbD_and, BitVec.getLsbD_not, getLsbD_flag_shift val inRange]
  by_cases same : query = shift
  · subst same
    cases val
    · simp [inRange]
    · simp
  · by_cases inside : query < width
    · simp [same, inside]
    · simp [same, BitVec.getLsbD_of_ge word query (by omega)]

theorem getLsbD_transfer {width shift query : Nat} (word other : BitVec width) (inRange : shift < width) :
    ((word &&& ~~~(BitVec.ofNat width 1 <<< shift)) ||| (other &&& BitVec.ofNat width 1 <<< shift)).getLsbD
      query = if query = shift then other.getLsbD query else word.getLsbD query := by
  rw [BitVec.getLsbD_or, BitVec.getLsbD_and, BitVec.getLsbD_and, BitVec.getLsbD_not, ← BitVec.twoPow_eq,
    BitVec.getLsbD_twoPow]
  by_cases same : query = shift
  · subst same
    simp [inRange]
  · have distinct : ¬shift = query := fun equal => same equal.symm
    by_cases inside : query < width
    · simp [same, distinct, inside]
    · simp [same, distinct, BitVec.getLsbD_of_ge word query (by omega)]

section Values

def bitSum (bits : Nat → Bool) (count : Nat) : Nat :=
  ∑ bit ∈ Finset.range count, (bits bit).toNat * 2 ^ bit

def littleEndian (bytes : Nat → BitVec 8) (count : Nat) : Nat :=
  ∑ index ∈ Finset.range count, (bytes index).toNat * 2 ^ (8 * index)

theorem bitSum_succ (bits : Nat → Bool) (count : Nat) :
    bitSum bits (count + 1) = 2 ^ count * (bits count).toNat + bitSum bits count := by
  rw [bitSum, Finset.sum_range_succ, Nat.add_comm, Nat.mul_comm]
  rfl

theorem littleEndian_succ (bytes : Nat → BitVec 8) (count : Nat) :
    littleEndian bytes (count + 1) = 2 ^ (8 * count) * (bytes count).toNat + littleEndian bytes count := by
  rw [littleEndian, Finset.sum_range_succ, Nat.add_comm, Nat.mul_comm]
  rfl

theorem lt_two_pow_add {high low width more : Nat} (short : low < 2 ^ width) (digit : high < 2 ^ more) :
    2 ^ width * high + low < 2 ^ (width + more) := by
  calc 2 ^ width * high + low < 2 ^ width * high + 2 ^ width := Nat.add_lt_add_left short _
    _ = 2 ^ width * (high + 1) := (Nat.mul_succ _ _).symm
    _ ≤ 2 ^ width * 2 ^ more := Nat.mul_le_mul_left _ digit
    _ = 2 ^ (width + more) := (Nat.pow_add 2 width more).symm

theorem bitSum_lt (bits : Nat → Bool) (count : Nat) : bitSum bits count < 2 ^ count := by
  induction count with
  | zero => exact Nat.one_pos
  | succ count ih =>
      rw [bitSum_succ]
      exact lt_two_pow_add ih (Bool.toNat_lt (bits count))

theorem littleEndian_lt (bytes : Nat → BitVec 8) (count : Nat) : littleEndian bytes count < 2 ^ (8 * count) := by
  induction count with
  | zero => exact Nat.one_pos
  | succ count ih =>
      rw [littleEndian_succ, Nat.mul_succ]
      exact lt_two_pow_add ih (bytes count).isLt

theorem testBit_bitSum (bits : Nat → Bool) (count query : Nat) :
    (bitSum bits count).testBit query = (decide (query < count) && bits query) := by
  induction count with
  | zero => simp [bitSum]
  | succ count ih =>
      rw [bitSum_succ, Nat.testBit_two_pow_mul_add _ (bitSum_lt bits count), ih]
      rcases Nat.lt_trichotomy query count with below | rfl | above
      · simp [below, Nat.lt_succ_of_lt below]
      · cases bits query <;> simp
      · rw [if_neg (by omega), decide_eq_false (show ¬query < count + 1 by omega), Bool.false_and]
        have digit : 2 ^ 1 ≤ 2 ^ (query - count) :=
          Nat.pow_le_pow_right Nat.two_pos (show 1 ≤ query - count by omega)
        exact Nat.testBit_lt_two_pow ((Bool.toNat_lt _).trans_le digit)

theorem testBit_littleEndian (bytes : Nat → BitVec 8) (count query : Nat) :
    (littleEndian bytes count).testBit query =
      (decide (query < 8 * count) && (bytes (query / 8)).getLsbD (query % 8)) := by
  induction count with
  | zero => simp [littleEndian]
  | succ count ih =>
      rw [littleEndian_succ, Nat.testBit_two_pow_mul_add _ (littleEndian_lt bytes count), ih]
      by_cases below : query < 8 * count
      · rw [if_pos below, decide_eq_true below, decide_eq_true (by omega)]
      · rw [if_neg below]
        by_cases last : query < 8 * (count + 1)
        · rw [decide_eq_true last, Bool.true_and, show query / 8 = count by omega,
            show query - 8 * count = query % 8 by omega, BitVec.testBit_toNat]
        · rw [decide_eq_false last, Bool.false_and, BitVec.testBit_toNat]
          exact BitVec.getLsbD_of_ge _ _ (by omega)

end Values

end ToyKernel.Library
