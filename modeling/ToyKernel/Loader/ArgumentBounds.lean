import ToyKernel.Loader.Arguments

/-!
Bounds and terminators of argument vectors. `ArgvFromArgString` of `libc/system.cpp` ends its vector
with a null pointer, `UnpackArgv` of `libc/pre-main.cpp` leaves behind the last argument what was there.
-/

namespace ToyKernel.Loader

open Library

section System

/-- A loop that comes to its end had a slot for every token that starts and for the null pointer. -/
theorem argvLoop_slots {cmd after buffer : List UInt8} {parsing : Bool} {argvPos bufferPos : Nat}
    {argv argvAfter : List (Option Nat)} (visible : 0 ∉ cmd)
    (done : argvLoop (cmd ++ [0]) parsing argvPos bufferPos argv buffer = .ok (argvAfter, after)) :
    argvPos + ((remaining parsing cmd).length - parsing.toNat) < argv.length := by
  induction cmd generalizing parsing argvPos bufferPos argv buffer with
  | nil =>
      rw [List.nil_append, argvLoop, if_pos rfl] at done
      obtain ⟨_, _, more⟩ := bind_eq_ok.mp done
      obtain ⟨_, poked, _⟩ := bind_eq_ok.mp more
      obtain ⟨_, inside, _⟩ := bind_eq_ok.mp poked
      cases parsing with
      | true => exact require_eq_ok.mp inside
      | false => exact require_eq_ok.mp inside
  | cons c cmd ih =>
      have shown : c ≠ 0 := fun zero => visible (by simp [zero])
      have later : 0 ∉ cmd := fun member => visible (by simp [member])
      rw [List.cons_append, argvLoop, if_neg shown] at done
      cases space : Vfs.isspace c with
      | true =>
          rw [space, if_pos rfl] at done
          rw [remaining_space space]
          cases parsing with
          | true =>
              obtain ⟨_, _, looped⟩ := bind_eq_ok.mp done
              exact ih later looped
          | false => exact ih later done
      | false =>
          rw [space, if_neg Bool.false_ne_true] at done
          obtain ⟨first, others, now, before⟩ := remaining_letter space parsing cmd
          rw [before]
          cases parsing with
          | true =>
              obtain ⟨_, _, looped⟩ := bind_eq_ok.mp done
              have bound := ih later looped
              rw [now] at bound
              exact bound
          | false =>
              obtain ⟨_, _, asserted⟩ := bind_eq_ok.mp done
              obtain ⟨_, _, entered⟩ := bind_eq_ok.mp asserted
              obtain ⟨_, poked, more⟩ := bind_eq_ok.mp entered
              obtain ⟨_, _, looped⟩ := bind_eq_ok.mp more
              have bound := ih later looped
              rw [now, poke_length _ poked] at bound
              simp only [List.length_cons, Bool.toNat_true, Bool.toNat_false] at bound ⊢
              omega

/-- The vector of `system` ends with a null pointer inside its bounds exactly if there are fewer
tokens than slots. -/
theorem argvFromArgString_terminated_iff {cmd buffer : List UInt8} {argv : List (Option Nat)}
    (visible : 0 ∉ cmd) (length : buffer.length = cmd.length + 1) (fresh : 0 ∉ buffer) :
    (∃ after cut argc, argvFromArgString (cmd ++ [0]) argv buffer = .ok (after, cut) ∧
      countArgs after = .ok argc ∧ after[argc]? = some none) ↔ (tokens cmd).length < argv.length := by
  constructor
  · rintro ⟨after, cut, argc, done, _⟩
    have slots := argvLoop_slots visible done
    rw [Nat.zero_add] at slots
    exact slots
  · intro slots
    obtain ⟨argvRest, rest, looped⟩ := argvLoop_eq visible false [] argv [] buffer fresh (by omega)
      (by rw [entries_next, length_offsets]; exact slots)
    refine ⟨_, _, (tokens cmd).length, looped, countArgs_offsets _ _ _, ?_⟩
    exact (List.getElem?_append_right (Nat.le_of_eq (length_offsets _ _))).trans (by simp)

end System

section Child

theorem strlen_split {bytes : List UInt8} {len : Nat} (measured : strlen ArgFault.outOfBounds bytes = .ok len) :
    ∃ text tail, bytes = text ++ 0 :: tail ∧ 0 ∉ text ∧ text.length = len := by
  induction bytes generalizing len with
  | nil => cases measured
  | cons byte rest ih =>
      rw [strlen] at measured
      split at measured
      · rename_i zero
        cases measured
        exact ⟨[], rest, by rw [zero]; rfl, List.not_mem_nil, rfl⟩
      · rename_i shown
        obtain ⟨shorter, counted, same⟩ := bind_eq_ok.mp measured
        obtain ⟨text, tail, rfl, visible, length⟩ := ih counted
        cases same
        refine ⟨byte :: text, tail, rfl, ?_, congrArg (· + 1) length⟩
        intro member
        rcases List.mem_cons.mp member with zero | later
        · exact shown zero.symm
        · exact visible later

/-- What an unpacking that comes to its end has read: texts in a row, with a slot for each. -/
theorem unpackLoop_flat {packed : List UInt8} {fuel i argc count : Nat} {argv after : List (Option Nat)}
    (inside : i ≤ packed.length)
    (done : unpackLoop packed.length packed fuel i argc argv = .ok (count, after)) :
    ∃ texts, (∀ text ∈ texts, 0 ∉ text) ∧ packed.drop i = flat texts ∧
      (argc ≤ argv.length → argc + texts.length ≤ argv.length) := by
  induction fuel generalizing i argc argv with
  | zero => cases done
  | succ fuel ih =>
      rw [unpackLoop] at done
      split at done
      · obtain ⟨written, poked, more⟩ := bind_eq_ok.mp done
        obtain ⟨len, measured, looped⟩ := bind_eq_ok.mp more
        obtain ⟨_, room, _⟩ := bind_eq_ok.mp poked
        have slot := require_eq_ok.mp room
        obtain ⟨text, tail, split, visible, length⟩ := strlen_split measured
        have sizes := congrArg List.length split
        rw [List.length_drop, List.length_append, List.length_cons] at sizes
        obtain ⟨texts, others, rest, slots⟩ := ih (by omega) looped
        rw [poke_length _ poked] at slots
        have behind : packed.drop (i + len + 1) = tail := by
          rw [Nat.add_assoc, ← List.drop_drop, split, ← length, List.drop_length_add_append]
          rfl
        refine ⟨text :: texts, List.forall_mem_cons.mpr ⟨visible, others⟩, ?_, ?_⟩
        · rw [flat_cons, split, ← rest, behind]
        · intro _
          have more := slots (by omega)
          rw [List.length_cons]
          omega
      · refine ⟨[], fun _ none => absurd none List.not_mem_nil, ?_, fun room => room⟩
        exact List.drop_eq_nil_of_le (by omega)

/-- The vector of the child ends with a null pointer exactly if the buffer holds texts in a row and
such a pointer was there before, behind the slots that they fill. -/
theorem unpackArgv_terminated_iff {packed : List UInt8} {argv : List (Option Nat)} :
    (∃ argc after, unpackArgv packed.length packed argv = .ok (argc, after) ∧ after[argc]? = some none) ↔
      ∃ texts, (∀ text ∈ texts, 0 ∉ text) ∧ packed = flat texts ∧ argv[texts.length]? = some none := by
  have unpacked : ∀ texts, (∀ text ∈ texts, 0 ∉ text) → packed = flat texts → texts.length ≤ argv.length →
      unpackArgv packed.length packed argv =
        .ok (texts.length, offsets 0 texts ++ argv.drop texts.length) := by
    rintro texts visible rfl slots
    have looped := unpackLoop_eq visible [] [] argv (Nat.zero_add _).symm
      (Nat.lt_succ_self (flat texts).length) slots
    simp only [List.length_nil, Nat.zero_add, List.nil_append] at looped
    exact looped
  have behind : ∀ texts : List (List UInt8),
      (offsets 0 texts ++ argv.drop texts.length)[texts.length]? = argv[texts.length]? := by
    intro texts
    rw [List.getElem?_append_right (Nat.le_of_eq (length_offsets _ _)), length_offsets, Nat.sub_self,
      List.getElem?_drop, Nat.add_zero]
  constructor
  · rintro ⟨argc, after, done, null⟩
    obtain ⟨texts, visible, flattened, slots⟩ := unpackLoop_flat (Nat.zero_le _) done
    have room := slots (Nat.zero_le _)
    rw [Nat.zero_add] at room
    cases done.symm.trans (unpacked texts visible flattened room)
    exact ⟨texts, visible, flattened, (behind texts).symm.trans null⟩
  · rintro ⟨texts, visible, flattened, null⟩
    have bound := (List.getElem?_eq_some_iff.mp null).1
    exact ⟨_, _, unpacked texts visible flattened bound.le, (behind texts).trans null⟩

end Child

/-- For argument vectors of any content. -/
theorem argvs_terminated_iff (argv : List (Option Nat)) (slots : argv.length = argMax) :
    (∀ cmd buffer, 0 ∉ cmd → buffer.length = cmd.length + 1 → 0 ∉ buffer →
      ((∃ after cut argc, argvFromArgString (cmd ++ [0]) argv buffer = .ok (after, cut) ∧
        countArgs after = .ok argc ∧ after[argc]? = some none) ↔ (tokens cmd).length < argMax)) ∧
    ∀ packed, (∃ argc after, unpackArgv packed.length packed argv = .ok (argc, after) ∧
        after[argc]? = some none) ↔
      ∃ texts, (∀ text ∈ texts, 0 ∉ text) ∧ packed = flat texts ∧ argv[texts.length]? = some none := by
  refine ⟨fun cmd buffer visible length fresh => ?_, fun packed => unpackArgv_terminated_iff⟩
  rw [← slots]
  exact argvFromArgString_terminated_iff visible length fresh

theorem tokens_words (count : Nat) : (tokens (List.replicate count [97, 32]).flatten).length = count := by
  induction count with
  | zero => rfl
  | succ count ih =>
      have first : tokens ([97, 32] ++ (List.replicate count [97, 32]).flatten) =
          [97] :: tokens (List.replicate count [97, 32]).flatten := by
        simp [tokens, List.splitOnP_cons_eq_if_modifyHead, Vfs.isspace]
      rw [List.replicate_succ, List.flatten_cons, first, List.length_cons, ih]

/-- 4096 words leave no slot for the null pointer, and one argument in a vector that holds no null
pointer is not ended by one. -/
theorem argvs_unterminated :
    (∃ cmd, 0 ∉ cmd ∧ (tokens cmd).length = argMax ∧ ∀ argv buffer result, argv.length = argMax →
      argvFromArgString (cmd ++ [0]) argv buffer ≠ .ok result) ∧
    ∃ after, unpackArgv 2 [97, 0] (List.replicate argMax (some 2863311530)) = .ok (1, after) ∧
      after[1]? = some (some 2863311530) := by
  constructor
  · have visible : 0 ∉ (List.replicate argMax [(97 : UInt8), 32]).flatten := by
      intro member
      obtain ⟨word, isWord, zero⟩ := List.mem_flatten.mp member
      rw [List.eq_of_mem_replicate isWord] at zero
      exact absurd zero (by decide)
    refine ⟨_, visible, tokens_words argMax, ?_⟩
    rintro argv buffer ⟨argvAfter, after⟩ slots done
    have few := argvLoop_slots visible done
    have many := tokens_words argMax
    rw [remaining, if_neg Bool.false_ne_true, many, slots] at few
    exact absurd few (by decide)
  · have unpacked := @unpackLoop_eq [[97]] (by decide) [] [] (List.replicate argMax (some 2863311530)) 2 3 rfl
      (by decide) (by rw [List.length_replicate]; decide)
    refine ⟨_, unpacked, ?_⟩
    refine (List.getElem?_append_right (Nat.le_refl _)).trans ?_
    rw [List.getElem?_drop, List.getElem?_replicate, if_pos (by decide)]

/-- "ls" in the parent, and two arguments in a child whose vector starts with null pointers. -/
theorem argvs_terminated_iff_two :
    (∃ after cut argc, argvFromArgString ([108, 115] ++ [0]) (List.replicate argMax none) [170, 170, 170] =
      .ok (after, cut) ∧ countArgs after = .ok argc ∧ after[argc]? = some none) ∧
    ∃ argc after, unpackArgv 4 [97, 0, 98, 0] (List.replicate argMax none) = .ok (argc, after) ∧
      after[argc]? = some none := by
  obtain ⟨parent, child⟩ := argvs_terminated_iff (List.replicate argMax none) List.length_replicate
  refine ⟨(parent [108, 115] [170, 170, 170] (by decide) rfl (by decide)).mpr (by decide), ?_⟩
  refine (child [97, 0, 98, 0]).mpr ⟨[[97], [98]], by decide, rfl, ?_⟩
  rw [List.getElem?_replicate, if_pos (by decide)]

end ToyKernel.Loader
