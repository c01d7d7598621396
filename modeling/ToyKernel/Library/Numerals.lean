import Mathlib.Data.Nat.Digits.Lemmas
import Mathlib.Tactic

/-!
Numerals in a base as rows of characters, the most significant digit first: the numeral of a number
and the number that a row stands for.
-/

namespace ToyKernel.Library

structure Alphabet (base : Nat) where
  char : Nat → UInt8
  digit : UInt8 → Option Nat
  digit_char : ∀ value < base, digit (char value) = some value
  base_gt : 1 < base

namespace Alphabet

variable {base : Nat} (alphabet : Alphabet base)

def numeral (value : Nat) : List UInt8 :=
  (Nat.digits base (value / base)).reverse.map alphabet.char ++ [alphabet.char (value % base)]

def append (sum : Nat) (c : UInt8) : Option Nat := (alphabet.digit c).map (base * sum + ·)

def parse (text : List UInt8) : Option Nat := text.foldlM alphabet.append 0

structure Canonical (text : List UInt8) : Prop where
  digits : (alphabet.parse text).isSome = true
  nonempty : text ≠ []
  leading : text.head? = some (alphabet.char 0) → text = [alphabet.char 0]

section Parsing

theorem parse_from (start : Nat) (text : List UInt8) : text.foldlM alphabet.append start =
    (alphabet.parse text).map (start * base ^ text.length + ·) := by
  unfold parse
  induction text generalizing start with
  | nil => simp
  | cons c text ih =>
      rw [List.foldlM_cons, List.foldlM_cons]
      cases found : alphabet.digit c with
      | none => simp [append, found]
      | some value =>
          have first : alphabet.append start c = some (base * start + value) := by rw [append, found]; rfl
          have zero : alphabet.append 0 c = some value := by rw [append, found, Nat.mul_zero]; simp
          simp only [first, zero, Option.bind_eq_bind, Option.bind_some, ih (base * start + value), ih value,
            Option.map_map]
          congr 1
          funext sum
          simp only [Function.comp_apply, List.length_cons, Nat.pow_succ]
          ring

theorem parse_append (front back : List UInt8) : alphabet.parse (front ++ back) =
    (alphabet.parse front).bind fun high => (alphabet.parse back).map (high * base ^ back.length + ·) := by
  rw [parse, List.foldlM_append]
  exact congrArg _ (funext fun high => alphabet.parse_from high back)

theorem parse_append_of {front back : List UInt8} {high low : Nat} (first : alphabet.parse front = some high)
    (second : alphabet.parse back = some low) :
    alphabet.parse (front ++ back) = some (high * base ^ back.length + low) := by
  rw [parse_append, first, second]
  rfl

theorem parse_char {value : Nat} (small : value < base) : alphabet.parse [alphabet.char value] = some value := by
  simp [parse, append, alphabet.digit_char value small]

theorem digit_of_parse {text : List UInt8} (parsed : (alphabet.parse text).isSome = true) {c : UInt8}
    (member : c ∈ text) : (alphabet.digit c).isSome = true := by
  obtain ⟨front, back, rfl⟩ := List.append_of_mem member
  obtain ⟨sum, total⟩ := Option.isSome_iff_exists.mp parsed
  rw [parse, List.foldlM_append] at total
  obtain ⟨high, _, rest⟩ := Option.bind_eq_some_iff.mp total
  obtain ⟨low, first, _⟩ := Option.bind_eq_some_iff.mp rest
  obtain ⟨value, found, _⟩ := Option.map_eq_some_iff.mp first
  rw [found]
  rfl

theorem char_injective {first second : Nat} (small : first < base) (other : second < base)
    (same : alphabet.char first = alphabet.char second) : first = second := by
  have read := alphabet.digit_char first small
  rw [same, alphabet.digit_char second other] at read
  exact (Option.some.inj read).symm

end Parsing

section Numeral

theorem numeral_digit {value : Nat} (small : value < base) : alphabet.numeral value = [alphabet.char value] := by
  rw [numeral, Nat.div_eq_of_lt small, Nat.mod_eq_of_lt small]
  simp

theorem numeral_step {value : Nat} (large : value / base ≠ 0) :
    alphabet.numeral value = alphabet.numeral (value / base) ++ [alphabet.char (value % base)] := by
  have digits := Nat.digits_def' alphabet.base_gt (Nat.pos_of_ne_zero large)
  rw [numeral, digits, numeral, List.reverse_cons, List.map_append]
  rfl

/-- Digit by digit, from the number of one digit up. -/
theorem numeral_induction (base_gt : 1 < base) {motive : Nat → Prop} (digit : ∀ value < base, motive value)
    (step : ∀ value, value / base ≠ 0 → motive (value / base) → motive value) (value : Nat) : motive value := by
  induction value using Nat.strongRecOn with
  | ind value ih =>
      rcases Nat.lt_or_ge value base with small | large
      · exact digit value small
      · have nonzero : value / base ≠ 0 := (Nat.div_pos large (Nat.zero_lt_of_lt base_gt)).ne'
        exact step value nonzero (ih _ (Nat.div_lt_self (by omega) base_gt))

theorem parse_numeral (value : Nat) : alphabet.parse (alphabet.numeral value) = some value := by
  have positive : 0 < base := Nat.zero_lt_of_lt alphabet.base_gt
  induction value using numeral_induction alphabet.base_gt with
  | digit value small =>
      rw [alphabet.numeral_digit small]
      exact alphabet.parse_char small
  | step value large ih =>
      rw [alphabet.numeral_step large,
        alphabet.parse_append_of ih (alphabet.parse_char (Nat.mod_lt value positive)), List.length_singleton,
        Nat.pow_one, Nat.mul_comm, Nat.div_add_mod]

theorem numeral_ne_nil (value : Nat) : alphabet.numeral value ≠ [] := by
  simp [numeral]

theorem mem_numeral {value : Nat} {c : UInt8} (member : c ∈ alphabet.numeral value) :
    ∃ digit < base, c = alphabet.char digit := by
  induction value using numeral_induction alphabet.base_gt with
  | digit value small =>
      rw [alphabet.numeral_digit small, List.mem_singleton] at member
      exact ⟨value, small, member⟩
  | step value large ih =>
      rw [alphabet.numeral_step large, List.mem_append, List.mem_singleton] at member
      rcases member with early | last
      · exact ih early
      · exact ⟨value % base, Nat.mod_lt _ (Nat.zero_lt_of_lt alphabet.base_gt), last⟩

theorem head_numeral (value : Nat) (nonzero : value ≠ 0) :
    (alphabet.numeral value).head? ≠ some (alphabet.char 0) := by
  induction value using numeral_induction alphabet.base_gt with
  | digit value small =>
      rw [alphabet.numeral_digit small]
      intro zero
      exact nonzero (alphabet.char_injective small (Nat.zero_lt_of_lt small) (Option.some.inj zero))
  | step value large ih =>
      rw [alphabet.numeral_step large, List.head?_append_of_ne_nil _ (alphabet.numeral_ne_nil _)]
      exact ih large

theorem numeral_canonical (value : Nat) : alphabet.Canonical (alphabet.numeral value) where
  digits := by rw [alphabet.parse_numeral]; rfl
  nonempty := alphabet.numeral_ne_nil value
  leading := by
    intro zero
    have isZero : value = 0 := by
      by_contra nonzero
      exact alphabet.head_numeral value nonzero zero
    rw [isZero]
    exact alphabet.numeral_digit (Nat.zero_lt_of_lt alphabet.base_gt)

theorem length_numeral {value count : Nat} (small : value < base ^ (count + 1)) :
    (alphabet.numeral value).length ≤ count + 1 := by
  have front : value / base < base ^ count := by
    rw [Nat.pow_succ, Nat.mul_comm] at small
    exact Nat.div_lt_of_lt_mul small
  have digits := (Nat.digits_length_le_iff alphabet.base_gt _).mpr front
  rw [numeral, List.length_append, List.length_map, List.length_reverse, List.length_singleton]
  exact Nat.succ_le_succ digits

end Numeral

end Alphabet

end ToyKernel.Library
