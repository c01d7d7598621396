import Mathlib.Data.List.GetD
import ToyKernel.Library.Memory
import ToyKernel.Library.Result

/-!
`memcmp`, `strlen` and `strncpy` of `libc/string.cpp`. The loops advance the pointers that the last
statements use again.
-/

namespace ToyKernel.Libc

open Library

inductive StringFault
  | endlessString
deriving DecidableEq, Repr

def memcmp (memory : Memory) (lhs rhs : Nat) : Nat → Int
  | 0 => (memory lhs).toNat - (memory rhs).toNat
  | size + 1 =>
      if memory lhs = memory rhs then memcmp memory (lhs + 1) (rhs + 1) size
      else (memory lhs).toNat - (memory rhs).toNat

def strlenLoop (memory : Memory) (str : Nat) : Nat → Nat → Except StringFault Nat
  | 0, _ => .error .endlessString
  | fuel + 1, len => if memory (str + len) ≠ 0 then strlenLoop memory str fuel (len + 1) else return len

def strlen (memory : Memory) (str : Nat) : Except StringFault Nat := strlenLoop memory str 4294967296 0

def copyLoop (memory : Memory) (dst src : Nat) : Nat → Memory × Nat
  | 0 => (memory, dst)
  | count + 1 => copyLoop (store memory dst (memory src)) (dst + 1) (src + 1) count

def padLoop (memory : Memory) (dst : Nat) : Nat → Memory × Nat
  | 0 => (memory, dst)
  | count + 1 => padLoop (store memory dst 0) (dst + 1) count

def strncpy (memory : Memory) (dst src num : Nat) : Except StringFault (Memory × Nat) := do
  let len ← strlen memory src
  let cpy := if len < num then len else num
  let (memory, dst) := copyLoop memory dst src cpy
  return padLoop memory dst (num - cpy)

section Compare

variable {memory : Memory} {lhs rhs size : Nat}

/-- Zero, or the order of the first bytes that differ, whatever comes after the compared bytes. -/
structure ComparesPrefix (memory : Memory) (lhs rhs size : Nat) : Prop where
  zero : memcmp memory lhs rhs size = 0 ↔ ∀ index < size, memory (lhs + index) = memory (rhs + index)
  sign : ∀ index < size, (∀ earlier < index, memory (lhs + earlier) = memory (rhs + earlier)) →
    memory (lhs + index) ≠ memory (rhs + index) →
      (memcmp memory lhs rhs size < 0 ↔ memory (lhs + index) < memory (rhs + index))
  within : ∀ other : Memory,
    (∀ index < size, other (lhs + index) = memory (lhs + index) ∧ other (rhs + index) = memory (rhs + index)) →
      memcmp other lhs rhs size = memcmp memory lhs rhs size

/-- The loop stops at the first difference, and behind the last byte when there is none. -/
theorem memcmp_stops (index : Nat) (bound : index ≤ size)
    (same : ∀ earlier < index, memory (lhs + earlier) = memory (rhs + earlier))
    (stops : index = size ∨ memory (lhs + index) ≠ memory (rhs + index)) :
    memcmp memory lhs rhs size = (memory (lhs + index)).toNat - (memory (rhs + index)).toNat := by
  induction size generalizing lhs rhs index with
  | zero =>
      obtain rfl : index = 0 := by omega
      rfl
  | succ size ih =>
      rw [memcmp]
      cases index with
      | zero =>
          rcases stops with impossible | different
          · omega
          · exact if_neg different
      | succ index =>
          have first : memory lhs = memory rhs := same 0 (Nat.succ_pos _)
          rw [if_pos first]
          have looped := @ih (lhs + 1) (rhs + 1) index (by omega)
            (fun earlier below => by
              rw [Nat.add_right_comm, Nat.add_right_comm rhs]
              exact same (earlier + 1) (by omega))
            (by
              rw [Nat.add_right_comm, Nat.add_right_comm rhs]
              rcases stops with last | different
              · exact .inl (by omega)
              · exact .inr different)
          rw [Nat.add_right_comm, Nat.add_right_comm rhs] at looped
          exact looped

theorem exists_first_difference (differs : ∃ index < size, memory (lhs + index) ≠ memory (rhs + index)) :
    ∃ index < size, memory (lhs + index) ≠ memory (rhs + index) ∧
      ∀ earlier < index, memory (lhs + earlier) = memory (rhs + earlier) := by
  classical
  obtain ⟨below, different⟩ := Nat.find_spec differs
  refine ⟨Nat.find differs, below, different, fun earlier before => ?_⟩
  by_contra other
  exact Nat.find_min differs before ⟨before.trans below, other⟩

theorem difference_sign (first second : UInt8) : (first.toNat : Int) - second.toNat < 0 ↔ first < second := by
  rw [UInt8.lt_iff_toNat_lt]
  omega

theorem difference_zero (first second : UInt8) : (first.toNat : Int) - second.toNat = 0 ↔ first = second := by
  rw [← UInt8.toNat_inj]
  omega

theorem first_unique {index other : Nat} (different : memory (lhs + index) ≠ memory (rhs + index))
    (same : ∀ earlier < index, memory (lhs + earlier) = memory (rhs + earlier))
    (otherDifferent : memory (lhs + other) ≠ memory (rhs + other))
    (otherSame : ∀ earlier < other, memory (lhs + earlier) = memory (rhs + earlier)) : index = other := by
  rcases Nat.lt_trichotomy index other with before | equal | behind
  · exact absurd (otherSame index before) different
  · exact equal
  · exact absurd (same other behind) otherDifferent

theorem comparesPrefix_of_difference (differs : ∃ index < size, memory (lhs + index) ≠ memory (rhs + index)) :
    ComparesPrefix memory lhs rhs size := by
  obtain ⟨index, below, different, same⟩ := exists_first_difference differs
  have result := memcmp_stops index below.le same (.inr different)
  constructor
  · rw [result, difference_zero]
    exact ⟨fun equal => absurd equal different, fun all => all index below⟩
  · intro other _ otherSame otherDifferent
    rw [result, difference_sign, first_unique different same otherDifferent otherSame]
  · intro other agrees
    have there := agrees index below
    rw [result, @memcmp_stops other lhs rhs size index below.le ?_ (.inr ?_), there.1, there.2]
    · intro earlier before
      have here := agrees earlier (before.trans below)
      rw [here.1, here.2]
      exact same earlier before
    · rw [there.1, there.2]
      exact different

theorem comparesPrefix_self (memory : Memory) (lhs size : Nat) : ComparesPrefix memory lhs lhs size := by
  have zero : ∀ other : Memory, memcmp other lhs lhs size = 0 := by
    intro other
    rw [memcmp_stops size (Nat.le_refl _) (fun _ _ => rfl) (.inl rfl), Int.sub_self]
  refine ⟨⟨fun _ _ _ => rfl, fun _ => zero memory⟩, ?_, fun other _ => (zero other).trans (zero memory).symm⟩
  intro index _ _ different
  exact absurd rfl different

theorem store_behind {high index : Nat} (first : lhs ≤ high) (second : rhs ≤ high) (byte : UInt8)
    (below : index < size) :
    store memory (high + size) byte (lhs + index) = memory (lhs + index) ∧
      store memory (high + size) byte (rhs + index) = memory (rhs + index) :=
  ⟨store_other memory byte (by omega), store_other memory byte (by omega)⟩

/-- The loop runs past bytes that are the same, whatever stands behind them. -/
theorem memcmp_store_behind {high : Nat} (first : lhs ≤ high) (second : rhs ≤ high) (byte : UInt8)
    (same : ∀ index < size, memory (lhs + index) = memory (rhs + index)) :
    memcmp (store memory (high + size) byte) lhs rhs size =
      (store memory (high + size) byte (lhs + size)).toNat - (store memory (high + size) byte (rhs + size)).toNat := by
  refine memcmp_stops size (Nat.le_refl _) (fun index below => ?_) (.inl rfl)
  rw [(store_behind first second byte below).1, (store_behind first second byte below).2]
  exact same index below

/-- Where nothing differs, a byte behind the compared ones decides. -/
theorem memcmp_reads_behind (apart : lhs ≠ rhs) (same : ∀ index < size, memory (lhs + index) = memory (rhs + index)) :
    ∃ other : Memory, (∀ index < size,
        other (lhs + index) = memory (lhs + index) ∧ other (rhs + index) = memory (rhs + index)) ∧
      memcmp other lhs rhs size ≠ memcmp memory lhs rhs size := by
  have result := memcmp_stops size (Nat.le_refl _) same (.inl rfl)
  have changed : ∀ byte : UInt8, (byte + 1).toNat ≠ byte.toNat := by
    intro byte
    rw [ne_eq, UInt8.toNat_inj]
    simp
  rcases Nat.lt_or_gt_of_ne apart with before | behind
  · have moved := changed (memory (rhs + size))
    refine ⟨store memory (rhs + size) (memory (rhs + size) + 1),
      fun index below => store_behind before.le (Nat.le_refl _) _ below, ?_⟩
    rw [memcmp_store_behind before.le (Nat.le_refl _) _ same, result, store_same,
      store_other memory _ (by omega)]
    omega
  · have moved := changed (memory (lhs + size))
    refine ⟨store memory (lhs + size) (memory (lhs + size) + 1),
      fun index below => store_behind (Nat.le_refl _) behind.le _ below, ?_⟩
    rw [memcmp_store_behind (Nat.le_refl _) behind.le _ same, result, store_same,
      store_other memory _ (by omega)]
    omega

theorem memcmp_prefix_iff (memory : Memory) (lhs rhs size : Nat) : ComparesPrefix memory lhs rhs size ↔
    (∃ index < size, memory (lhs + index) ≠ memory (rhs + index)) ∨ lhs = rhs := by
  constructor
  · intro compares
    by_contra neither
    push Not at neither
    obtain ⟨other, agrees, changed⟩ := memcmp_reads_behind neither.2 neither.1
    exact changed (compares.within other agrees)
  · rintro (differs | rfl)
    · exact comparesPrefix_of_difference differs
    · exact comparesPrefix_self memory lhs size

/-- One byte of "ab" and of "ac". -/
theorem memcmp_behind : ∃ memory : Memory, (∀ index < 1, memory (8 + index) = memory (16 + index)) ∧
    memcmp memory 8 16 1 = -1 := by
  refine ⟨store (store (store (store (fun _ => 0) 8 97) 9 98) 16 97) 17 99, ?_, by decide⟩
  intro index below
  obtain rfl : index = 0 := by omega
  decide

end Compare

section Copy

variable {memory : Memory} {dst src num : Nat} {text : List UInt8}

structure TextAt (memory : Memory) (str : Nat) (text : List UInt8) : Prop where
  chars : ∀ index (inside : index < text.length), memory (str + index) = text[index]
  ended : memory (str + text.length) = 0
  visible : 0 ∉ text
  bounded : str + text.length < 4294967296

structure Filled (memory after : Memory) (dst num : Nat) (text : List UInt8) : Prop where
  inside : ∀ index < num, after (dst + index) = text.getD index 0
  outside : ∀ address, address < dst ∨ dst + num ≤ address → after address = memory address

theorem strlenLoop_eq (source : TextAt memory src text) (fuel len : Nat) (short : len ≤ text.length)
    (enough : text.length - len < fuel) : strlenLoop memory src fuel len = .ok text.length := by
  induction fuel generalizing len with
  | zero => exact absurd enough (Nat.not_lt_zero _)
  | succ fuel ih =>
      rw [strlenLoop]
      by_cases inside : len < text.length
      · have shown : memory (src + len) ≠ 0 := by
          rw [source.chars len inside]
          intro zero
          exact source.visible (zero ▸ List.getElem_mem inside)
        rw [if_pos shown, ih (len + 1) inside (by omega)]
      · obtain rfl : len = text.length := by omega
        rw [if_neg (not_not.mpr source.ended)]
        rfl

theorem strlen_eq (source : TextAt memory src text) : strlen memory src = .ok text.length := by
  have bounded := source.bounded
  exact strlenLoop_eq source _ 0 (Nat.zero_le _) (by omega)

theorem copyLoop_eq (memory : Memory) (dst src count : Nat) :
    copyLoop memory dst src count = (memcpy memory dst src count, dst + count) := by
  induction count generalizing memory dst src with
  | zero => rfl
  | succ count ih => rw [copyLoop, memcpy, ih, Nat.add_assoc, Nat.add_comm 1]

theorem padLoop_eq (memory : Memory) (dst count : Nat) :
    padLoop memory dst count = (memset memory dst 0 count, dst + count) := by
  induction count generalizing memory dst with
  | zero => rfl
  | succ count ih => rw [padLoop, memset, ih, Nat.add_assoc, Nat.add_comm 1]

/-- The pointer that comes back is the one behind the destination. -/
theorem strncpy_eq (source : TextAt memory src text) (dst num : Nat) : strncpy memory dst src num =
    .ok (memset (memcpy memory dst src (min text.length num)) (dst + min text.length num) 0
      (num - min text.length num), dst + num) := by
  have count : (if text.length < num then text.length else num) = min text.length num := by
    split <;> omega
  have back : dst + min text.length num + (num - min text.length num) = dst + num := by omega
  rw [strncpy, strlen_eq source, ok_bind]
  dsimp only
  rw [count, copyLoop_eq]
  dsimp only
  rw [padLoop_eq, back]
  rfl

/-- As long as the two do not overlap. -/
theorem strncpy_fills (source : TextAt memory src text)
    (apart : dst + num ≤ src ∨ src + text.length + 1 ≤ dst) :
    ∃ after, strncpy memory dst src num = .ok (after, dst + num) ∧ Filled memory after dst num text := by
  refine ⟨_, strncpy_eq source dst num, ?_, ?_⟩
  · intro index below
    by_cases copied : index < min text.length num
    · have inText : index < text.length := by omega
      have kept := memset_agreeOn (memcpy memory dst src (min text.length num)) (dst + min text.length num) dst
        (dst + min text.length num) 0 (num - min text.length num) (.inl (Nat.le_refl _))
      rw [kept (dst + index) (by omega) (by omega), memcpy_copies memory dst src _ index (by omega) copied,
        source.chars index inText, List.getD_eq_getElem _ _ inText]
    · have padded := memset_fills (memcpy memory dst src (min text.length num)) (dst + min text.length num) 0
        (num - min text.length num) (index - min text.length num) (by omega)
      rw [show dst + min text.length num + (index - min text.length num) = dst + index by omega] at padded
      rw [padded, List.getD_eq_default _ _ (by omega)]
  · intro address outside
    rw [memset_agreeOn (memcpy memory dst src (min text.length num)) (dst + min text.length num) address
      (address + 1) 0 (num - min text.length num) (by omega) address (Nat.le_refl _) (Nat.lt_succ_self _)]
    exact memcpy_agreeOn memory dst src address (address + 1) _ (by omega) address (Nat.le_refl _)
      (Nat.lt_succ_self _)

theorem filled_none (memory : Memory) (dst : Nat) (text : List UInt8) : Filled memory memory dst 0 text :=
  ⟨fun _ impossible => absurd impossible (Nat.not_lt_zero _), fun _ _ => rfl⟩

/-- The bytes are right wherever the two do not overlap, the pointer only when there are none. -/
theorem strncpy_contract_iff (source : TextAt memory src text) :
    ((dst + num ≤ src ∨ src + text.length + 1 ≤ dst) →
      ∃ after, strncpy memory dst src num = .ok (after, dst + num) ∧ Filled memory after dst num text) ∧
    ((∃ after, strncpy memory dst src num = .ok (after, dst) ∧ Filled memory after dst num text) ↔ num = 0) := by
  refine ⟨strncpy_fills source, ?_⟩
  constructor
  · rintro ⟨after, done, _⟩
    rw [strncpy_eq source, Except.ok.injEq, Prod.mk.injEq] at done
    omega
  · rintro rfl
    refine ⟨memory, ?_, filled_none memory dst text⟩
    rw [strncpy_eq source, Nat.min_zero]
    rfl

theorem textAt_nil : TextAt (fun _ => 0) 8 [] where
  chars := fun _ impossible => absurd impossible (Nat.not_lt_zero _)
  ended := rfl
  visible := List.not_mem_nil
  bounded := by decide

/-- Four bytes for the empty string. -/
theorem strncpy_returns_end : ∃ after ret, strncpy (fun _ => 0) 16 8 4 = .ok (after, ret) ∧ ret = 20 ∧ ret ≠ 16 :=
  ⟨_, _, strncpy_eq textAt_nil 16 4, rfl, by decide⟩

/-- Into no bytes, and into four. -/
theorem strncpy_contract_iff_empty :
    (∃ after, strncpy (fun _ => 0) 16 8 0 = .ok (after, 16) ∧ Filled (fun _ => 0) after 16 0 []) ∧
    ∃ after, strncpy (fun _ => 0) 16 8 4 = .ok (after, 20) ∧ Filled (fun _ => 0) after 16 4 [] :=
  ⟨(strncpy_contract_iff textAt_nil).2.mpr rfl, (strncpy_contract_iff textAt_nil).1 (.inr (by decide))⟩

end Copy

end ToyKernel.Libc
