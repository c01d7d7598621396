import ToyKernel.Containers.BitVector

/-!
What survives growth in the bit vector of `utils/include/BitVector.h`, and the integer that `getAs`
makes of its bits. The word is read as a whole, the block bit by bit.
-/

namespace ToyKernel.Containers

open Library

inductive CastFault
  | tooNarrow
deriving DecidableEq, Repr

namespace BitVector

def castBit (vector : BitVector) (data : Nat → BitVec 8) (bit : Nat) : Nat → BitVec 8 :=
  let byte := data (bit / 8)
  let val := vector.block (bit / 8) &&& (1#8 <<< (bit % 8))
  let changed := (byte &&& ~~~(1#8 <<< (bit % 8))) ||| val
  fun index => if index = bit / 8 then changed else data index

def getAs (vector : BitVector) (bytes : Nat) : Except CastFault (BitVec (8 * bytes)) := do
  require (vector.bits ≤ 8 * bytes) .tooNarrow
  if vector.onHeap then
    let data := (List.range vector.bits).foldl vector.castBit fun _ => 0
    return BitVec.ofNat (8 * bytes) (littleEndian data bytes)
  else
    return vector.buffer.setWidth (8 * bytes)

def value (vector : BitVector) : Except BitFault Nat :=
  (List.range vector.bits).foldlM (fun sum bit => do
    let shown ← vector.get bit
    return sum + shown.toNat * 2 ^ bit) 0

end BitVector

section Reached

variable {vector : BitVector} {ops : List BitOp}

theorem reached_tracks (reached : performAll performBit .empty ops = .ok vector) :
    ∃ history, applyAll BitHistory.apply .empty ops = some history ∧ Tracks vector history := by
  induction ops using List.reverseRecOn generalizing vector with
  | nil =>
      cases reached
      exact ⟨.empty, rfl, represents_empty.tracks⟩
  | append_singleton ops op ih =>
      rw [performAll_concat] at reached
      obtain ⟨middle, before, done⟩ := bind_eq_ok.mp reached
      obtain ⟨history, applied, tracks⟩ := ih before
      obtain ⟨after, stepped, tracksAfter⟩ := tracks_step tracks done
      exact ⟨after, by rw [applyAll_concat, applied]; exact stepped, tracksAfter⟩

/-- A push keeps every bit and adds one as long as the counter can hold the new size, and the assertion
on the capacity never fails. -/
theorem pushBack_keeps_bits_iff (reached : performAll performBit .empty ops = .ok vector) (x : Bool)
    (fresh : Nat → BitVec 8) :
    vector.incrementSize fresh ≠ .error .capacityTooSmall ∧
      ((∃ after, vector.pushBack x fresh = .ok after ∧ after.size = vector.size + 1 ∧
          ∀ bit < vector.size, after.get bit = vector.get bit) ↔ vector.size + 1 < 4294967296) := by
  obtain ⟨_, _, tracks⟩ := reached_tracks reached
  have sized := tracks.sized
  have small := sized.small
  by_cases more : vector.bits + 1 < 4294967296
  · obtain ⟨grown, grew, _⟩ := BitVector.incrementSize_eq sized more fresh
    obtain ⟨after, pushed, afterSized, bits, _, _, kept⟩ := BitVector.pushBack_eq sized more x fresh
    refine ⟨by rw [grew]; simp, fun _ => more, fun _ => ⟨after, pushed, bits, ?_⟩⟩
    intro bit inside
    have here : bit < vector.bits := inside
    rw [BitVector.get_eq sized here, BitVector.get_eq afterSized (by omega), kept bit (by omega) (.inl here)]
  · obtain ⟨grew, pushed⟩ := BitVector.pushBack_full (show vector.bits + 1 = 4294967296 by omega) x fresh
    refine ⟨by rw [grew]; simp, ?_, fun impossible => absurd impossible more⟩
    rintro ⟨after, done, _⟩
    rw [pushed] at done
    cases done

/-- Pushes alone reach every size that the counter holds. -/
theorem exists_size (size : Nat) (small : size < 4294967296) :
    ∃ ops vector, performAll performBit .empty ops = .ok vector ∧ vector.size = size := by
  induction size with
  | zero => exact ⟨[], _, rfl, rfl⟩
  | succ size ih =>
      obtain ⟨ops, vector, reached, sized⟩ := ih (by omega)
      obtain ⟨_, _, tracks⟩ := reached_tracks reached
      have bits : vector.bits = size := sized
      obtain ⟨after, pushed, _, longer, _⟩ :=
        BitVector.pushBack_eq tracks.sized (show vector.bits + 1 < 4294967296 by omega) true fun _ => 0
      refine ⟨ops ++ [.pushBack true fun _ => 0], after, ?_, longer.trans (congrArg (· + 1) bits)⟩
      simp only [performAll_concat, reached, Except.bind, performBit, pushed]

/-- With 2^32 - 1 bits. -/
theorem pushBack_full_fails : ∃ ops vector, performAll performBit .empty ops = .ok vector ∧
    vector.size = 4294967295 ∧ vector.pushBack true (fun _ => 0) = .error .bitOutOfRange := by
  obtain ⟨ops, vector, reached, full⟩ := exists_size 4294967295 (by decide)
  have bits : vector.bits = 4294967295 := full
  exact ⟨ops, vector, reached, full, (BitVector.pushBack_full (by omega) _ _).2⟩

/-- At the step from the word to the block. -/
theorem pushBack_keeps_bits_iff_word : ∃ ops vector, performAll performBit .empty ops = .ok vector ∧
    vector.size = 32 ∧ ∃ after, vector.pushBack true (fun _ => 255) = .ok after ∧
      after.size = vector.size + 1 ∧ ∀ bit < vector.size, after.get bit = vector.get bit := by
  obtain ⟨ops, vector, reached, size⟩ := exists_size 32 (by decide)
  exact ⟨ops, vector, reached, size, (pushBack_keeps_bits_iff reached true _).2.mpr (by omega)⟩

end Reached

section Cast

variable {vector : BitVector} {ops : List BitOp}

theorem castBits_eq (vector : BitVector) (count bit : Nat) :
    (((List.range count).foldl vector.castBit fun _ => 0) (bit / 8)).getLsbD (bit % 8) =
      (decide (bit < count) && (vector.block (bit / 8)).getLsbD (bit % 8)) := by
  induction count with
  | zero => simp
  | succ count ih =>
      have shift : count % 8 < 8 := Nat.mod_lt _ (by decide)
      rw [List.range_succ, List.foldl_append, List.foldl_cons, List.foldl_nil, BitVector.castBit]
      dsimp only
      by_cases sameByte : bit / 8 = count / 8
      · rw [if_pos sameByte, getLsbD_transfer _ _ shift, ← sameByte, ih]
        by_cases same : bit = count
        · simp [same]
        · rw [if_neg (by omega)]
          congr 1
          exact decide_eq_decide.mpr (by omega)
      · rw [if_neg sameByte, ih]
        congr 1
        exact decide_eq_decide.mpr (by omega)

/-- The cast takes the bits of the vector from the block, and all that fit from the word. -/
theorem getAs_eq (vector : BitVector) {bytes : Nat} (fits : vector.size ≤ 8 * bytes) :
    ∃ x, vector.getAs bytes = .ok x ∧ ∀ bit, x.toNat.testBit bit =
      (decide (bit < if vector.onHeap then vector.size else 8 * bytes) && vector.bitAt bit) := by
  have wide : vector.bits ≤ 8 * bytes := fits
  rw [BitVector.getAs, require_of wide, ok_bind]
  cases heap : vector.onHeap with
  | true =>
      refine ⟨_, rfl, fun bit => ?_⟩
      rw [BitVec.toNat_ofNat, Nat.mod_eq_of_lt (littleEndian_lt _ _), testBit_littleEndian, castBits_eq,
        BitVector.bitAt_heap heap, if_pos rfl, ← Bool.and_assoc, ← Bool.decide_and]
      congr 1
      exact decide_eq_decide.mpr ⟨And.right, fun below => ⟨below.trans_le wide, below⟩⟩
  | false =>
      refine ⟨_, rfl, fun bit => ?_⟩
      rw [BitVector.bitAt_inline heap, if_neg Bool.false_ne_true, BitVec.testBit_toNat,
        BitVec.getLsbD_setWidth]

theorem value_eq (sized : vector.Sized) : vector.value = .ok (bitSum vector.bitAt vector.size) := by
  have upTo : ∀ count ≤ vector.bits, (List.range count).foldlM (fun sum bit => do
      let shown ← vector.get bit
      return sum + shown.toNat * 2 ^ bit) 0 = .ok (bitSum vector.bitAt count) := by
    intro count
    induction count with
    | zero =>
        intro _
        rfl
    | succ count ih =>
        intro inside
        rw [List.range_succ, List.foldlM_append, ih (by omega), ok_bind, List.foldlM_cons,
          BitVector.get_eq sized inside, bitSum_succ, Nat.add_comm, Nat.mul_comm]
        rfl
  exact upTo vector.bits (Nat.le_refl _)

/-- The cast of a vector that has outgrown its word is the number its bits stand for; before that it
shows every bit that was ever raised and fits the type. -/
theorem getAs_value_iff {bytes : Nat} (reached : performAll performBit .empty ops = .ok vector)
    (fits : vector.size ≤ 8 * bytes) :
    ∃ history, applyAll BitHistory.apply .empty ops = some history ∧ vector.size = history.list.length ∧
      ((∃ x, vector.getAs bytes = .ok x ∧ vector.value = .ok x.toNat) ↔
        history.grown = true ∨ ∀ bit ∈ history.raised, bit < history.list.length ∨ 8 * bytes ≤ bit) := by
  obtain ⟨history, applied, tracks⟩ := reached_tracks reached
  have size : vector.size = history.list.length := tracks.bits
  obtain ⟨x, cast, bits⟩ := getAs_eq vector fits
  refine ⟨history, applied, size, ?_⟩
  have exact_ : (∃ x, vector.getAs bytes = .ok x ∧ vector.value = .ok x.toNat) ↔
      ∀ bit, x.toNat.testBit bit = (decide (bit < vector.size) && vector.bitAt bit) := by
    rw [value_eq tracks.sized]
    constructor
    · rintro ⟨_, found, same⟩ bit
      cases cast.symm.trans found
      rw [← Except.ok.inj same, testBit_bitSum]
    · intro same
      refine ⟨x, cast, congrArg Except.ok (Nat.eq_of_testBit_eq fun bit => ?_)⟩
      rw [testBit_bitSum, same]
  rw [exact_]
  cases grown : history.grown with
  | true =>
      refine ⟨fun _ => .inl rfl, fun _ bit => ?_⟩
      rw [bits, if_pos (tracks.heap.trans grown)]
  | false =>
      have inline : vector.onHeap = false := tracks.heap.trans grown
      simp only [bits, inline, Bool.false_eq_true, if_false, tracks.stale grown, false_or, ← Bool.decide_and,
        decide_eq_decide, size]
      constructor
      · intro same bit member
        by_contra outside
        push Not at outside
        exact absurd ((same bit).mp ⟨outside.2, member⟩).1 (by omega)
      · intro below bit
        refine ⟨fun inside => ⟨?_, inside.2⟩, fun inside => ⟨by omega, inside.2⟩⟩
        rcases below bit inside.2 with short | wide
        · exact short
        · exact absurd inside.1 (by omega)

/-- A bit that was popped still shows in the byte of an empty vector. -/
theorem getAs_after_pop : ∃ vector,
    performAll performBit .empty [.pushBack true fun _ => 0, .popBack] = .ok vector ∧
      vector.size = 0 ∧ vector.getAs 1 = .ok 1 ∧ vector.value = .ok 0 :=
  ⟨_, rfl, rfl, rfl, rfl⟩

/-- Bits 1 and 0. -/
theorem getAs_value_iff_two : ∃ vector,
    performAll performBit .empty [.pushBack true fun _ => 0, .pushBack false fun _ => 0] = .ok vector ∧
      ∃ x, vector.getAs 1 = .ok x ∧ vector.value = .ok x.toNat := by
  refine ⟨_, rfl, ?_⟩
  obtain ⟨history, applied, _, same⟩ :=
    @getAs_value_iff _ [.pushBack true fun _ => 0, .pushBack false fun _ => 0] 1 rfl (by decide)
  cases applied
  exact same.mpr (.inr (by decide))

end Cast

end ToyKernel.Containers
