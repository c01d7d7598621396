import ToyKernel.Library.Division
import ToyKernel.Print.Numbers

/-!
The 64-bit division builtins of `utils/builtins.cpp`, which the compiler calls for `PrintDecimal` of a
`uint64_t` on the 32-bit target.
-/

namespace ToyKernel.Print

open Library

def clz (a : UInt64) : UInt32 := UInt32.ofNat (63 - a.toNat.log2)

structure DivisionState where
  r : UInt64
  n : UInt64
  carry : UInt64

def divisionStep (d : UInt64) (state : DivisionState) : DivisionState :=
  let r := state.r <<< 1 ||| state.n >>> 63
  let n := state.n <<< 1 ||| state.carry
  let s := (d - r - 1).toInt64 >>> 63
  { r := r - (d &&& s.toUInt64), n, carry := (s &&& 1).toUInt64 }

def divisionLoop (d : UInt64) : Nat → DivisionState → DivisionState
  | 0, state => state
  | sr + 1, state => divisionLoop d sr (divisionStep d state)

def shiftDistance (n d : UInt64) : UInt32 :=
  (if d ≠ 0 then clz d else 64) - (if n ≠ 0 then clz n else 64)

/-- The part that the two builtins share: what they return for a smaller dividend, for the divisor one
and behind the loop. -/
def divide (n d smaller ofOne : UInt64) (result : DivisionState → UInt64) : UInt64 :=
  let sr := shiftDistance n d
  if sr > 63 then smaller
  else if sr = 63 then ofOne
  else
    let sr := sr + 1
    result (divisionLoop d sr.toNat { r := n >>> sr.toUInt64, n := n <<< (64 - sr).toUInt64, carry := 0 })

def udivdi3 (n d : UInt64) : UInt64 := divide n d 0 n fun state => state.n <<< 1 ||| state.carry

def umoddi3 (n d : UInt64) : UInt64 := divide n d n 0 fun state => state.r

section Loop

variable {dividend d : UInt64} {sr : Nat} {state : DivisionState}

/-- The word `n` holds the bits of the dividend that are still to come above the bits of the quotient
but for the last one, which is the carry. -/
structure Dividing (dividend d : UInt64) (sr : Nat) (state : DivisionState) (quotient : Nat) : Prop where
  divided : Divided dividend.toNat d.toNat sr quotient state.r.toNat
  packed : state.n.toNat = dividend.toNat % 2 ^ sr * 2 ^ (64 - sr) + quotient / 2
  pending : state.carry.toNat = quotient % 2

/-- A divisor above the middle of the range is met in the last round only, by a dividend that is above
the middle too, so that the sign of the difference decides the comparison. -/
def Comparable (dividend d : UInt64) (sr : Nat) : Prop :=
  d.toNat ≤ 2 ^ 63 ∨ sr ≤ 1 ∧ 2 ^ 63 ≤ dividend.toNat

theorem mod_two_pow_succ (value bits : Nat) :
    value % 2 ^ (bits + 1) = value / 2 ^ bits % 2 * 2 ^ bits + value % 2 ^ bits := by
  rw [Nat.pow_succ, Nat.mod_mul, Nat.mul_comm]
  omega

/-- What a round finds in the words: the next bit of the dividend on top of `n`, and below it room for
another bit of the quotient. -/
theorem Dividing.next {quotient : Nat} (dividing : Dividing dividend d (sr + 1) state quotient)
    (bits : sr + 1 ≤ 64) : (state.n >>> 63).toNat = dividend.toNat / 2 ^ sr % 2 ∧
      (state.n <<< 1 ||| state.carry).toNat = dividend.toNat % 2 ^ sr * 2 ^ (64 - sr) + quotient := by
  have short : quotient < 2 ^ (63 - sr) := by
    refine dividing.divided.quotient_le.trans_lt (Nat.div_lt_of_lt_mul ?_)
    rw [← Nat.pow_add, show sr + 1 + (63 - sr) = 64 by omega]
    exact dividend.toNat_lt
  have packed := dividing.packed
  rw [mod_two_pow_succ, Nat.add_mul, Nat.mul_assoc, ← Nat.pow_add, show 64 - (sr + 1) = 63 - sr by omega,
    show sr + (63 - sr) = 63 by omega] at packed
  have below : dividend.toNat % 2 ^ sr * 2 ^ (63 - sr) + 2 ^ (63 - sr) ≤ 2 ^ 63 := by
    calc dividend.toNat % 2 ^ sr * 2 ^ (63 - sr) + 2 ^ (63 - sr)
        = (dividend.toNat % 2 ^ sr + 1) * 2 ^ (63 - sr) := by rw [Nat.add_mul, Nat.one_mul]
      _ ≤ 2 ^ sr * 2 ^ (63 - sr) :=
          Nat.mul_le_mul_right _ (Nat.succ_le_of_lt (Nat.mod_lt _ (Nat.two_pow_pos sr)))
      _ = 2 ^ 63 := by rw [← Nat.pow_add, show sr + (63 - sr) = 63 by omega]
  have doubled : dividend.toNat % 2 ^ sr * 2 ^ (64 - sr) = 2 * (dividend.toNat % 2 ^ sr * 2 ^ (63 - sr)) := by
    rw [show 64 - sr = 63 - sr + 1 by omega, Nat.pow_succ]
    ring
  have pending := dividing.pending
  have bit := Nat.mod_lt (dividend.toNat / 2 ^ sr) (show 0 < 2 by decide)
  generalize dividend.toNat % 2 ^ sr * 2 ^ (63 - sr) = rest at *
  generalize dividend.toNat / 2 ^ sr % 2 = top at *
  constructor
  · rw [UInt64.toNat_shiftRight]
    show state.n.toNat >>> 63 = top
    rw [Nat.shiftRight_eq_div_pow]
    omega
  · rw [toNat_shiftIn _ _ (by omega)]
    omega

/-- The difference without a borrow is negative exactly if the divisor is reached. -/
theorem reached_iff {r : UInt64} (less : r.toNat < 2 * d.toNat) (comparable : d.toNat ≤ 2 ^ 63 ∨ 2 ^ 63 ≤ r.toNat) :
    2 ^ 63 ≤ (d - r - 1).toNat ↔ d.toNat ≤ r.toNat := by
  have dBound := d.toNat_lt
  have rBound := r.toNat_lt
  rw [UInt64.toNat_sub, UInt64.toNat_sub]
  show 2 ^ 63 ≤ (2 ^ 64 - 1 + (2 ^ 64 - r.toNat + d.toNat) % 2 ^ 64) % 2 ^ 64 ↔ _
  omega

/-- Where the sign mask is known, a round is a step of long division on the words. -/
theorem divisionStep_mask {mask : UInt64}
    (known : ((d - (state.r <<< 1 ||| state.n >>> 63) - 1).toInt64 >>> 63).toUInt64 = mask) :
    divisionStep d state = { r := (state.r <<< 1 ||| state.n >>> 63) - (d &&& mask),
                             n := state.n <<< 1 ||| state.carry, carry := mask &&& 1 } := by
  rw [← known]
  rfl

/-- One round brings down one bit of the dividend. -/
theorem Dividing.step {quotient : Nat} (dividing : Dividing dividend d (sr + 1) state quotient)
    (bits : sr + 1 ≤ 64) (comparable : Comparable dividend d (sr + 1)) :
    ∃ next, Dividing dividend d sr (divisionStep d state) next := by
  obtain ⟨top, packed⟩ := dividing.next bits
  have divided := dividing.divided
  have small := divided.small
  have bit := Nat.mod_lt (dividend.toNat / 2 ^ sr) (show 0 < 2 by decide)
  have brought : (state.r <<< 1 ||| state.n >>> 63).toNat =
      2 * state.r.toNat + dividend.toNat / 2 ^ sr % 2 ∧ (d.toNat ≤ 2 ^ 63 ∨
        2 ^ 63 ≤ 2 * state.r.toNat + dividend.toNat / 2 ^ sr % 2) := by
    rw [toNat_shiftIn _ _ (by omega), top]
    rcases comparable with low | ⟨last, high⟩
    · exact ⟨by omega, .inl low⟩
    · obtain rfl : sr = 0 := by omega
      have leading := divided.leading
      have bound := dividend.toNat_lt
      have none : quotient = 0 ∨ d.toNat ≤ 2 ^ 63 := by
        by_contra both
        push Not at both
        have whole : 1 * d.toNat ≤ quotient * d.toNat := Nat.mul_le_mul_right _ (by omega)
        omega
      rcases none with rfl | low
      · rw [Nat.zero_mul, Nat.zero_add] at leading
        omega
      · exact ⟨by omega, .inl low⟩
  obtain ⟨value, comparable⟩ := brought
  have sign := reached_iff (d := d) (by rw [value]; omega) (by rw [value]; exact comparable)
  rw [value] at sign
  by_cases reached : d.toNat ≤ 2 * state.r.toNat + dividend.toNat / 2 ^ sr % 2
  · have mask := signMask (d - (state.r <<< 1 ||| state.n >>> 63) - 1)
    rw [if_pos (sign.mpr reached)] at mask
    have stepped := divisionStep_mask mask
    refine ⟨2 * quotient + 1, ?_, ?_, ?_⟩
    · have subtracted := divided.subtract reached
      rw [stepped, UInt64.and_neg_one, UInt64.toNat_sub_of_le _ _ (by
        rw [UInt64.le_iff_toNat_le, value]
        exact reached), value]
      exact subtracted
    · rw [stepped, packed]
      omega
    · rw [stepped]
      show 1 = _
      omega
  · have mask := signMask (d - (state.r <<< 1 ||| state.n >>> 63) - 1)
    rw [if_neg (reached ∘ sign.mp)] at mask
    have stepped := divisionStep_mask mask
    refine ⟨2 * quotient, ?_, ?_, ?_⟩
    · rw [stepped, UInt64.and_zero, UInt64.sub_zero, value]
      exact divided.keep (by omega)
    · rw [stepped, packed]
      omega
    · rw [stepped]
      show 0 = _
      omega

/-- The loop finishes the division that the words hold. -/
theorem Dividing.loop {quotient : Nat} (dividing : Dividing dividend d sr state quotient) (bits : sr ≤ 64)
    (comparable : Comparable dividend d sr) :
    ∃ last, Dividing dividend d 0 (divisionLoop d sr state) last := by
  induction sr generalizing state quotient with
  | zero => exact ⟨quotient, dividing⟩
  | succ sr ih =>
      obtain ⟨next, stepped⟩ := dividing.step bits comparable
      refine ih stepped (by omega) ?_
      rcases comparable with low | ⟨last, high⟩
      · exact .inl low
      · exact .inr ⟨by omega, high⟩

theorem Dividing.results {quotient : Nat} (dividing : Dividing dividend d 0 state quotient) :
    state.n <<< 1 ||| state.carry = dividend / d ∧ state.r = dividend % d := by
  obtain ⟨rfl, remainder⟩ := dividing.divided.done
  have packed := dividing.packed
  have pending := dividing.pending
  rw [Nat.pow_zero, Nat.mod_one, Nat.zero_mul, Nat.zero_add] at packed
  have bound : dividend.toNat / d.toNat < 2 ^ 64 := (Nat.div_le_self _ _).trans_lt dividend.toNat_lt
  constructor
  · apply UInt64.toNat_inj.mp
    rw [toNat_shiftIn _ _ (by omega), UInt64.toNat_div]
    omega
  · apply UInt64.toNat_inj.mp
    rw [remainder, UInt64.toNat_mod]

end Loop

theorem toNat_clz (a : UInt64) : (clz a).toNat = 63 - a.toNat.log2 :=
  UInt32.toNat_ofNat_of_lt' (by show _ < 2 ^ 32; omega)

theorem log2_lt_width {a : UInt64} (nonzero : a ≠ 0) : a.toNat.log2 < 64 := by
  have positive : a.toNat ≠ 0 := fun zero => nonzero (UInt64.toNat_inj.mp zero)
  exact (Nat.log2_lt positive).mpr a.toNat_lt

/-- The distance is how many more bits the dividend has, and very large where it has fewer. -/
theorem shiftDistance_cases {n d : UInt64} (nonzero : d ≠ 0) :
    (n.toNat < d.toNat ∧ 63 < (shiftDistance n d).toNat) ∨
      (n ≠ 0 ∧ n.toNat.log2 = d.toNat.log2 + (shiftDistance n d).toNat) := by
  have dWidth := log2_lt_width nonzero
  have positive : d.toNat ≠ 0 := fun zero => nonzero (UInt64.toNat_inj.mp zero)
  by_cases zero : n = 0
  · subst zero
    left
    refine ⟨Nat.pos_of_ne_zero positive, ?_⟩
    rw [shiftDistance, if_pos nonzero, if_neg (by simp), UInt32.toNat_sub, toNat_clz]
    show 63 < (2 ^ 32 - 64 + (63 - d.toNat.log2)) % 2 ^ 32
    omega
  · have nWidth := log2_lt_width zero
    have nPositive : n.toNat ≠ 0 := fun isZero => zero (UInt64.toNat_inj.mp isZero)
    have value : (shiftDistance n d).toNat = (2 ^ 32 - (63 - n.toNat.log2) + (63 - d.toNat.log2)) % 2 ^ 32 := by
      rw [shiftDistance, if_pos nonzero, if_pos zero, UInt32.toNat_sub, toNat_clz, toNat_clz]
    by_cases fewer : n.toNat.log2 < d.toNat.log2
    · left
      refine ⟨?_, by omega⟩
      exact ((Nat.log2_lt nPositive).mp fewer).trans_le (Nat.log2_self_le positive)
    · right
      exact ⟨zero, by omega⟩

/-- The words in front of the first round. -/
theorem dividing_start {n d : UInt64} {sr : Nat} (nonzero : d ≠ 0) (bits : sr < 63)
    (distance : n.toNat.log2 = d.toNat.log2 + sr) {first second : UInt64} (firstValue : first.toNat = sr + 1)
    (secondValue : second.toNat = 63 - sr) :
    Dividing n d (sr + 1) { r := n >>> first, n := n <<< second, carry := 0 } 0 := by
  have positive : d.toNat ≠ 0 := fun zero => nonzero (UInt64.toNat_inj.mp zero)
  have high : (n >>> first).toNat = n.toNat / 2 ^ (sr + 1) := by
    rw [UInt64.toNat_shiftRight, firstValue, Nat.mod_eq_of_lt (by omega), Nat.shiftRight_eq_div_pow]
  refine ⟨?_, ?_, rfl⟩
  · show Divided n.toNat d.toNat (sr + 1) 0 (n >>> first).toNat
    rw [high]
    refine Divided.start ?_
    refine lt_of_lt_of_le (Nat.div_lt_of_lt_mul ?_) (Nat.log2_self_le positive)
    rw [← Nat.pow_add, show sr + 1 + d.toNat.log2 = n.toNat.log2 + 1 by omega]
    exact Nat.lt_log2_self
  · show (n <<< second).toNat = _
    rw [UInt64.toNat_shiftLeft, secondValue, Nat.mod_eq_of_lt (show 63 - sr < 64 by omega), Nat.shiftLeft_eq,
      show 64 - (sr + 1) = 63 - sr by omega, Nat.zero_div, Nat.add_zero,
      show (2 : Nat) ^ 64 = 2 ^ (sr + 1) * 2 ^ (63 - sr) by rw [← Nat.pow_add, show sr + 1 + (63 - sr) = 64 by omega],
      Nat.mul_mod_mul_right]

theorem comparable_start {n d : UInt64} {sr : Nat} (nonzero : d ≠ 0) (more : n ≠ 0)
    (distance : n.toNat.log2 = d.toNat.log2 + sr) : Comparable n d (sr + 1) := by
  have nWidth := log2_lt_width more
  have positive : d.toNat ≠ 0 := fun zero => nonzero (UInt64.toNat_inj.mp zero)
  have nPositive : n.toNat ≠ 0 := fun zero => more (UInt64.toNat_inj.mp zero)
  by_cases low : d.toNat ≤ 2 ^ 63
  · exact .inl low
  · have top : 63 ≤ d.toNat.log2 := (Nat.le_log2 positive).mpr (by omega)
    exact .inr ⟨by omega, (Nat.le_log2 nPositive).mp (by omega)⟩

/-- For every nonzero divisor the builtins are division and remainder. -/
theorem divide_builtins (n d : UInt64) (nonzero : d ≠ 0) : udivdi3 n d = n / d ∧ umoddi3 n d = n % d := by
  unfold udivdi3 umoddi3 divide
  rcases shiftDistance_cases nonzero with ⟨less, wide⟩ | ⟨more, distance⟩
  · have beyond : shiftDistance n d > 63 := UInt32.lt_iff_toNat_lt.mpr wide
    dsimp only
    rw [if_pos beyond, if_pos beyond]
    constructor
    · apply UInt64.toNat_inj.mp
      rw [UInt64.toNat_div, Nat.div_eq_of_lt less]
      rfl
    · apply UInt64.toNat_inj.mp
      rw [UInt64.toNat_mod, Nat.mod_eq_of_lt less]
  · have width := log2_lt_width more
    have within : ¬shiftDistance n d > 63 := by
      rw [gt_iff_lt, UInt32.lt_iff_toNat_lt]
      show ¬63 < _
      omega
    dsimp only
    rw [if_neg within, if_neg within]
    by_cases one : shiftDistance n d = 63
    · have value : (shiftDistance n d).toNat = 63 := congrArg UInt32.toNat one
      rw [if_pos one, if_pos one]
      have unit : d.toNat = 1 := by
        have positive : d.toNat ≠ 0 := fun zero => nonzero (UInt64.toNat_inj.mp zero)
        have least := (Nat.log2_eq_iff positive).mp (show d.toNat.log2 = 0 by omega)
        omega
      constructor
      · apply UInt64.toNat_inj.mp
        rw [UInt64.toNat_div, unit, Nat.div_one]
      · apply UInt64.toNat_inj.mp
        rw [UInt64.toNat_mod, unit, Nat.mod_one]
        rfl
    · have notLast : (shiftDistance n d).toNat ≠ 63 := fun same => one (UInt32.toNat_inj.mp same)
      have rounds : (shiftDistance n d + 1).toNat = (shiftDistance n d).toNat + 1 := by
        rw [UInt32.toNat_add]
        show ((shiftDistance n d).toNat + 1) % 2 ^ 32 = _
        omega
      have second : (64 - (shiftDistance n d + 1)).toNat = 63 - (shiftDistance n d).toNat := by
        rw [UInt32.toNat_sub, rounds]
        show (2 ^ 32 - ((shiftDistance n d).toNat + 1) + 64) % 2 ^ 32 = _
        omega
      rw [if_neg one, if_neg one, rounds]
      have started : Dividing n d ((shiftDistance n d).toNat + 1)
          { r := n >>> (shiftDistance n d + 1).toUInt64, n := n <<< (64 - (shiftDistance n d + 1)).toUInt64,
            carry := 0 } 0 :=
        dividing_start nonzero (by omega) distance (by rw [UInt32.toNat_toUInt64, rounds])
          (by rw [UInt32.toNat_toUInt64, second])
      obtain ⟨last, finished⟩ := started.loop (by omega) (comparable_start nonzero more distance)
      exact finished.results

theorem divide_builtins_large : udivdi3 18446744073709551615 9223372036854775809 = 1 ∧
    umoddi3 18446744073709551615 9223372036854775809 = 9223372036854775806 :=
  divide_builtins 18446744073709551615 9223372036854775809 (by decide)

def decimalLoop64 : Nat → UInt64 → List UInt8 → Except PrintFault (Nat × List UInt8)
  | 0, _, _ => .error .outOfBounds
  | position + 1, val, buffer => do
      let buffer ← poke .outOfBounds buffer position (umoddi3 val 10 + 48).toUInt8
      if udivdi3 val 10 ≠ 0 then decimalLoop64 position (udivdi3 val 10) buffer
      else return (position, buffer)

def printDecimal64 (val : UInt64) : Except PrintFault (List UInt8) := do
  let buffer ← poke .outOfBounds (List.replicate 21 170) 20 0
  let (position, buffer) ← decimalLoop64 20 val buffer
  printString (buffer.drop position)

theorem decimalLoop64_eq (position : Nat) (val : UInt64) (buffer : List UInt8) :
    decimalLoop64 position val buffer = decimalLoop position val.toNat buffer := by
  induction position generalizing val buffer with
  | zero => rfl
  | succ position ih =>
      obtain ⟨quotient, remainder⟩ := divide_builtins val 10 (by decide)
      have quotientValue : (val / 10).toNat = val.toNat / 10 := UInt64.toNat_div val 10
      have digit : (val % 10 + 48).toUInt8 = UInt8.ofNat (val.toNat % 10 + 48) := by
        have remainderValue : (val % 10).toNat = val.toNat % 10 := UInt64.toNat_mod val 10
        apply UInt8.toNat_inj.mp
        rw [UInt64.toNat_toUInt8, UInt64.toNat_add, remainderValue, UInt8.toNat_ofNat']
        show (val.toNat % 10 + 48) % 2 ^ 64 % 2 ^ 8 = _
        omega
      have goesOn : val / 10 ≠ 0 ↔ val.toNat / 10 ≠ 0 := by
        rw [← quotientValue]
        exact not_congr UInt64.toNat_inj.symm
      rw [decimalLoop64, decimalLoop, quotient, remainder, digit]
      refine bind_congr fun written => ?_
      by_cases more : val / 10 ≠ 0
      · rw [if_pos more, if_pos (goesOn.mp more), ih, quotientValue]
      · rw [if_neg more, if_neg (more ∘ goesOn.mpr)]

/-- A 64-bit number is printed through the builtins as the numeral that reads back as it. -/
theorem printDecimal64_parses (val : UInt64) : ∃ text, printDecimal64 val = .ok text ∧
    CanonicalDecimal text ∧ parseDecimal text = some (val.toNat : Int) := by
  have same : printDecimal64 val = printDecimalUInt64 val := by
    unfold printDecimal64 printDecimalUInt64 printDecimalImpl
    simp only [decimalLoop64_eq]
  refine ⟨_, same.trans (printDecimalUInt64_eq val), ?_, parseDecimal_numeral val.toNat⟩
  have canonical := signed_canonical (val.toNat : Int)
  rw [signed, if_pos (Int.natCast_nonneg _), Int.toNat_natCast] at canonical
  exact canonical

end ToyKernel.Print
