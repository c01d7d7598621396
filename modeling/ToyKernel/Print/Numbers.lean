import ToyKernel.Library.Numerals
import ToyKernel.Print.Model

/-!
The numerals that the printers of `utils/print.cpp` put, and the numbers that they stand for.
-/

namespace ToyKernel.Print

open Library

def decimalDigits : Alphabet 10 where
  char digit := UInt8.ofNat (digit + 48)
  digit c := if 48 ≤ c ∧ c ≤ 57 then some (c.toNat - 48) else none
  digit_char := by decide
  base_gt := by decide

def hexDigits : Alphabet 16 where
  char digit := UInt8.ofNat (if digit < 10 then digit + 48 else digit + 87)
  digit c :=
    if 48 ≤ c ∧ c ≤ 57 then some (c.toNat - 48)
    else if 97 ≤ c ∧ c ≤ 102 then some (c.toNat - 87)
    else none
  digit_char := by decide
  base_gt := by decide

def minus : UInt8 := 45

def parseDecimal : List UInt8 → Option Int
  | [] => none
  | c :: text =>
      if c = minus then (decimalDigits.parse text).map fun value : Nat => -(value : Int)
      else (decimalDigits.parse (c :: text)).map fun value : Nat => (value : Int)

def CanonicalDecimal (text : List UInt8) : Prop :=
  decimalDigits.Canonical text ∨
    ∃ digits, text = minus :: digits ∧ decimalDigits.Canonical digits ∧ digits ≠ [decimalDigits.char 0]

structure HexNumeral (bytes : Nat) (text : List UInt8) (value : Nat) : Prop where
  length : text.length = 2 * bytes
  lowercase : ∀ c ∈ text, 48 ≤ c ∧ c ≤ 57 ∨ 97 ≤ c ∧ c ≤ 102
  parse : hexDigits.parse text = some value

section Decimal

theorem printString_text {text : List UInt8} (visible : 0 ∉ text) (tail : List UInt8) :
    printString (text ++ 0 :: tail) = .ok text := by
  induction text with
  | nil => rfl
  | cons c text ih =>
      have shown : c ≠ 0 := fun zero => visible (by simp [zero])
      rw [List.cons_append, printString, if_neg shown, ih fun member => visible (by simp [member]), ok_bind]
      rfl

theorem mem_decimal {value : Nat} {c : UInt8} (member : c ∈ decimalDigits.numeral value) : 48 ≤ c ∧ c ≤ 57 := by
  have all : ∀ digit < 10, 48 ≤ decimalDigits.char digit ∧ decimalDigits.char digit ≤ 57 := by decide
  obtain ⟨digit, small, rfl⟩ := decimalDigits.mem_numeral member
  exact all digit small

theorem decimal_visible (value : Nat) : 0 ∉ decimalDigits.numeral value :=
  fun member => absurd (mem_decimal member).1 (by decide)

/-- The loop fills the end of the part in front of it, as long as the digits fit there. -/
theorem decimalLoop_eq (val : Nat) (front back : List UInt8)
    (room : (decimalDigits.numeral val).length ≤ front.length) :
    ∃ position buffer, decimalLoop front.length val (front ++ back) = .ok (position, buffer) ∧
      buffer.drop position = decimalDigits.numeral val ++ back := by
  induction front using List.reverseRecOn generalizing val back with
  | nil => exact absurd (List.length_eq_zero_iff.mp (Nat.le_zero.mp room)) (decimalDigits.numeral_ne_nil val)
  | append_singleton front old ih =>
      rw [List.length_append, List.length_singleton] at room ⊢
      rw [decimalLoop, List.append_assoc, List.singleton_append, poke_at, ok_bind]
      by_cases more : val / 10 ≠ 0
      · have step := decimalDigits.numeral_step more
        rw [step, List.length_append, List.length_singleton] at room
        obtain ⟨position, buffer, looped, digits⟩ :=
          ih (val / 10) (UInt8.ofNat (val % 10 + 48) :: back) (Nat.le_of_succ_le_succ room)
        refine ⟨position, buffer, ?_, ?_⟩
        · rw [if_pos more]
          exact looped
        · rw [digits, step, List.append_assoc]
          rfl
      · have small : val < 10 := by omega
        refine ⟨front.length, front ++ UInt8.ofNat (val % 10 + 48) :: back, ?_, ?_⟩
        · rw [if_neg more]
          rfl
        · rw [List.drop_left, decimalDigits.numeral_digit small, Nat.mod_eq_of_lt small]
          rfl

/-- A buffer with a place for each digit of the largest value is never left. -/
theorem printDecimalImpl_eq {numDigits val : Nat} (positive : 0 < numDigits) (small : val < 10 ^ numDigits) :
    printDecimalImpl numDigits val = .ok (decimalDigits.numeral val) := by
  obtain ⟨count, rfl⟩ : ∃ count, numDigits = count + 1 := ⟨numDigits - 1, by omega⟩
  have ended : poke PrintFault.outOfBounds (List.replicate (count + 1 + 1) (170 : UInt8)) (count + 1) 0 =
      .ok (List.replicate (count + 1) 170 ++ [0]) := by
    have written := poke_at PrintFault.outOfBounds (List.replicate (count + 1) (170 : UInt8)) 170 [] 0
    rw [List.length_replicate, ← List.replicate_succ'] at written
    exact written
  obtain ⟨position, buffer, looped, digits⟩ := decimalLoop_eq val (List.replicate (count + 1) 170) [0]
    (by rw [List.length_replicate]; exact decimalDigits.length_numeral small)
  rw [List.length_replicate] at looped
  rw [printDecimalImpl, ended, ok_bind, looped, ok_bind]
  dsimp only
  rw [digits]
  exact printString_text (decimal_visible val) []

theorem printDecimalUInt32_eq (val : UInt32) :
    printDecimalUInt32 val = .ok (decimalDigits.numeral val.toNat) :=
  printDecimalImpl_eq (by decide) (val.toNat_lt.trans (by decide))

theorem printDecimalUInt64_eq (val : UInt64) :
    printDecimalUInt64 val = .ok (decimalDigits.numeral val.toNat) :=
  printDecimalImpl_eq (by decide) (val.toNat_lt.trans (by decide))

def signed (value : Int) : List UInt8 :=
  if 0 ≤ value then decimalDigits.numeral value.toNat else minus :: decimalDigits.numeral (-value).toNat

theorem toNat_toUInt32 {val : Int32} (nonneg : 0 ≤ val) : val.toUInt32.toNat = val.toInt.toNat := by
  have sign := Int32.le_iff_toInt_le.mp nonneg
  have bits : val.toInt = val.toBitVec.toInt := rfl
  have nat : val.toUInt32.toNat = val.toBitVec.toNat := rfl
  have zero : (0 : Int32).toInt = 0 := rfl
  rw [BitVec.toInt_eq_toNat_cond] at bits
  split at bits <;> omega

theorem toNat_neg_toUInt32 {val : Int32} (negative : ¬0 ≤ val) : (-val).toUInt32.toNat = (-val.toInt).toNat := by
  rw [Int32.le_iff_toInt_le] at negative
  have bits : val.toInt = val.toBitVec.toInt := rfl
  have nat : (-val).toUInt32.toNat = (-val.toBitVec).toNat := rfl
  have zero : (0 : Int32).toInt = 0 := rfl
  have bound := val.toBitVec.isLt
  rw [BitVec.toInt_eq_toNat_cond] at bits
  rw [nat, BitVec.toNat_neg]
  split at bits <;> omega

theorem printDecimalInt32_eq (val : Int32) : printDecimalInt32 val = .ok (signed val.toInt) := by
  have same : 0 ≤ val ↔ 0 ≤ val.toInt := Int32.le_iff_toInt_le
  unfold printDecimalInt32 signed
  by_cases nonneg : 0 ≤ val
  · rw [if_pos nonneg, if_pos (same.mp nonneg), printDecimalUInt32_eq, toNat_toUInt32 nonneg]
  · rw [if_neg nonneg, if_neg (nonneg ∘ same.mpr)]
    by_cases least : val = Int32.minValue
    · have numeral : decimalDigits.numeral 2147483648 = chars ['2', '1', '4', '7', '4', '8', '3', '6', '4', '8'] := by
        have digits : Nat.digits 10 (2147483648 / 10) = [4, 6, 3, 8, 4, 7, 4, 1, 2] := by norm_num
        rw [Alphabet.numeral, digits]
        rfl
      subst least
      have value : (-Int32.minValue.toInt).toNat = 2147483648 := by decide
      rw [if_pos rfl, value, numeral]
      exact printString_text (by decide) []
    · rw [if_neg least, printDecimalUInt32_eq, ok_bind, toNat_neg_toUInt32 nonneg]
      rfl

theorem parseDecimal_numeral (value : Nat) : parseDecimal (decimalDigits.numeral value) = some (value : Int) := by
  obtain ⟨c, text, split⟩ := List.exists_cons_of_ne_nil (decimalDigits.numeral_ne_nil value)
  have digit : c ≠ minus := by
    rintro rfl
    exact absurd (mem_decimal (split ▸ List.mem_cons_self)).1 (by decide)
  rw [split, parseDecimal, if_neg digit, ← split, decimalDigits.parse_numeral]
  rfl

theorem parseDecimal_signed (value : Int) : parseDecimal (signed value) = some value := by
  unfold signed
  split
  · rename_i nonneg
    rw [parseDecimal_numeral, Int.toNat_of_nonneg nonneg]
  · rw [parseDecimal, if_pos rfl, decimalDigits.parse_numeral, Option.map_some]
    congr 1
    omega

theorem signed_canonical (value : Int) : CanonicalDecimal (signed value) := by
  unfold signed
  split
  · exact .inl (decimalDigits.numeral_canonical _)
  · refine .inr ⟨_, rfl, decimalDigits.numeral_canonical _, ?_⟩
    intro zero
    refine decimalDigits.head_numeral (-value).toNat (by omega) ?_
    rw [zero]
    rfl

end Decimal

section Hex

variable {bytes : Nat} {text : List UInt8} {value : Nat}

theorem hexNumeral_of_parse (length : text.length = 2 * bytes) (parse : hexDigits.parse text = some value) :
    HexNumeral bytes text value where
  length := length
  lowercase := by
    intro c member
    have isDigit := hexDigits.digit_of_parse (by rw [parse]; rfl) member
    change (if 48 ≤ c ∧ c ≤ 57 then some (c.toNat - 48)
      else if 97 ≤ c ∧ c ≤ 102 then some (c.toNat - 87) else none).isSome = true at isDigit
    split at isDigit
    · exact .inl ‹_›
    · split at isDigit
      · exact .inr ‹_›
      · cases isDigit
  parse := parse

/-- The upper half of the digits, and behind it the lower one. -/
theorem HexNumeral.halves {high low : Nat} {back : List UInt8} (first : HexNumeral bytes text high)
    (second : HexNumeral bytes back low) (upper : high = value / 256 ^ bytes) (lower : low = value % 256 ^ bytes) :
    HexNumeral (bytes + bytes) (text ++ back) value := by
  refine hexNumeral_of_parse ?_ ?_
  · rw [List.length_append, first.length, second.length, Nat.mul_add]
  · rw [hexDigits.parse_append_of first.parse second.parse, second.length, Nat.pow_mul, upper, lower]
    exact congrArg some (Nat.div_add_mod' value (256 ^ bytes))

theorem printNibble_eq {val : UInt8} (small : val.toNat < 16) : printNibble val = [hexDigits.char val.toNat] := by
  have all : ∀ nibble < 16, printNibble (UInt8.ofNat nibble) = [hexDigits.char nibble] := by decide
  have here := all val.toNat small
  rwa [UInt8.ofNat_toNat] at here

theorem printHex8_numeral (val : UInt8) : HexNumeral 1 (printHex8 val) val.toNat := by
  have low : (val &&& 0xf).toNat = val.toNat % 16 := by
    rw [UInt8.toNat_and]
    exact Nat.and_two_pow_sub_one_eq_mod _ 4
  have high : (val >>> 4).toNat = val.toNat / 16 := by
    rw [UInt8.toNat_shiftRight]
    exact Nat.shiftRight_eq_div_pow _ 4
  have bound := val.toNat_lt
  have highSmall : (val >>> 4).toNat < 16 := by omega
  have lowSmall : (val &&& 0xf).toNat < 16 := by omega
  rw [printHex8, printNibble_eq highSmall, printNibble_eq lowSmall]
  refine hexNumeral_of_parse rfl ?_
  rw [hexDigits.parse_append_of (hexDigits.parse_char highSmall) (hexDigits.parse_char lowSmall), high, low,
    List.length_singleton, Nat.pow_one, Nat.div_add_mod']

theorem printHex16_numeral (val : UInt16) : HexNumeral 2 (printHex16 val) val.toNat := by
  have bound := val.toNat_lt
  have shift : (val >>> 8).toNat = val.toNat / 2 ^ 8 := by
    rw [UInt16.toNat_shiftRight]
    exact Nat.shiftRight_eq_div_pow _ 8
  have upper : (val >>> 8).toUInt8.toNat = val.toNat / 256 ^ 1 := by
    rw [UInt16.toNat_toUInt8, shift]
    exact Nat.mod_eq_of_lt (by omega)
  exact (printHex8_numeral _).halves (printHex8_numeral _) upper (UInt16.toNat_toUInt8 val)

theorem printHex32_numeral (val : UInt32) : HexNumeral 4 (printHex32 val) val.toNat := by
  have bound := val.toNat_lt
  have shift : (val >>> 16).toNat = val.toNat / 2 ^ 16 := by
    rw [UInt32.toNat_shiftRight]
    exact Nat.shiftRight_eq_div_pow _ 16
  have upper : (val >>> 16).toUInt16.toNat = val.toNat / 256 ^ 2 := by
    rw [UInt32.toNat_toUInt16, shift]
    exact Nat.mod_eq_of_lt (by omega)
  exact (printHex16_numeral _).halves (printHex16_numeral _) upper (UInt32.toNat_toUInt16 val)

theorem printHex64_numeral (val : UInt64) : HexNumeral 8 (printHex64 val) val.toNat := by
  have bound := val.toNat_lt
  have shift : (val >>> 32).toNat = val.toNat / 2 ^ 32 := by
    rw [UInt64.toNat_shiftRight]
    exact Nat.shiftRight_eq_div_pow _ 32
  have upper : (val >>> 32).toUInt32.toNat = val.toNat / 256 ^ 4 := by
    rw [UInt64.toNat_toUInt32, shift]
    exact Nat.mod_eq_of_lt (by omega)
  exact (printHex32_numeral _).halves (printHex32_numeral _) upper (UInt64.toNat_toUInt32 val)

end Hex

/-- What is put for a number is its numeral, and stands for it. -/
theorem numbers_invertible :
    (∀ val : UInt32, ∃ text, printDecimalUInt32 val = .ok text ∧ CanonicalDecimal text ∧
      parseDecimal text = some (val.toNat : Int)) ∧
    (∀ val : UInt64, ∃ text, printDecimalUInt64 val = .ok text ∧ CanonicalDecimal text ∧
      parseDecimal text = some (val.toNat : Int)) ∧
    (∀ val : Int32, ∃ text, printDecimalInt32 val = .ok text ∧ CanonicalDecimal text ∧
      parseDecimal text = some val.toInt) ∧
    (∀ val : UInt8, ∃ text, printFormatter (.hex8 val) = .ok (hexPrefix ++ text) ∧ HexNumeral 1 text val.toNat) ∧
    (∀ val : UInt16, ∃ text, printFormatter (.hex16 val) = .ok (hexPrefix ++ text) ∧ HexNumeral 2 text val.toNat) ∧
    (∀ val : UInt32, ∃ text, printFormatter (.hex32 val) = .ok (hexPrefix ++ text) ∧ HexNumeral 4 text val.toNat) ∧
    (∀ val : UInt64, ∃ text, printFormatter (.hex64 val) = .ok (hexPrefix ++ text) ∧ HexNumeral 8 text val.toNat) ∧
    ∀ val : Int32, ∃ text, printFormatter (.hexInt32 val) = .ok (hexPrefix ++ text) ∧
      HexNumeral 4 text val.toBitVec.toNat := by
  have natural : ∀ value : Nat, CanonicalDecimal (decimalDigits.numeral value) := fun value =>
    .inl (decimalDigits.numeral_canonical value)
  refine ⟨fun val => ⟨_, printDecimalUInt32_eq val, natural _, parseDecimal_numeral _⟩,
    fun val => ⟨_, printDecimalUInt64_eq val, natural _, parseDecimal_numeral _⟩,
    fun val => ⟨_, printDecimalInt32_eq val, signed_canonical _, parseDecimal_signed _⟩,
    fun val => ⟨_, rfl, printHex8_numeral val⟩, fun val => ⟨_, rfl, printHex16_numeral val⟩,
    fun val => ⟨_, rfl, printHex32_numeral val⟩, fun val => ⟨_, rfl, printHex64_numeral val⟩,
    fun val => ⟨_, rfl, printHex32_numeral val.toUInt32⟩⟩

end ToyKernel.Print
