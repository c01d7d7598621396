import ToyKernel.Library.Buffer
import ToyKernel.Vfs.Strings

/-!
How the arguments of a program travel: `ArgvFromArgString` of `libc/system.cpp` cuts a command into
tokens, `PackArgv` of `libc/elf.cpp` packs them into one buffer, and `UnpackArgv` of
`libc/pre-main.cpp` finds them again in the copy of that buffer in the child.
-/

namespace ToyKernel.Loader

open Library

inductive ArgFault
  | nullTerminator | outOfBounds | nullPointer | endlessLoop
deriving DecidableEq, Repr

def argMax : Nat := 4096

/-- The loop of `ArgvFromArgString`. Both pointers are distances from the start of their arrays, and
an entry of the argument vector is null or a distance into the buffer. -/
def argvLoop : List UInt8 → Bool → Nat → Nat → List (Option Nat) → List UInt8 →
    Except ArgFault (List (Option Nat) × List UInt8)
  | [], _, _, _, _, _ => .error .outOfBounds
  | c :: argstr, parsingArg, argvPos, bufferPos, argv, buffer =>
      if c = 0 then do
        let buffer ← poke .outOfBounds buffer bufferPos 0
        let argv ← poke .outOfBounds argv argvPos none
        return (argv, buffer)
      else if Vfs.isspace c then
        if parsingArg then do
          let buffer ← poke .outOfBounds buffer bufferPos 0
          argvLoop argstr false argvPos (bufferPos + 1) argv buffer
        else argvLoop argstr false argvPos bufferPos argv buffer
      else if parsingArg then do
        let buffer ← poke .outOfBounds buffer bufferPos c
        argvLoop argstr true argvPos (bufferPos + 1) argv buffer
      else do
        let next ← peek .outOfBounds buffer bufferPos
        require (next ≠ 0) .nullTerminator
        let argv ← poke .outOfBounds argv argvPos (some bufferPos)
        let buffer ← poke .outOfBounds buffer bufferPos c
        argvLoop argstr true (argvPos + 1) (bufferPos + 1) argv buffer

def argvFromArgString (argstr : List UInt8) (argv : List (Option Nat)) (buffer : List UInt8) :
    Except ArgFault (List (Option Nat) × List UInt8) :=
  argvLoop argstr false 0 0 argv buffer

def countArgs : List (Option Nat) → Except ArgFault Nat
  | [] => .error .outOfBounds
  | none :: _ => return 0
  | some _ :: rest => do
      let argc ← countArgs rest
      return argc + 1

def deref (memory : List UInt8) (argv : List (Option Nat)) (index : Nat) : Except ArgFault (List UInt8) := do
  let entry ← peek .outOfBounds argv index
  match entry with
  | none => .error .nullPointer
  | some distance => return memory.drop distance

/-- The arguments that `system` hands to `LoadElfProgram`. Its two arrays start with whatever the
compiler fills them with. -/
def systemArgs (cmd : List UInt8) (argv : List (Option Nat)) (buffer : List UInt8) :
    Except ArgFault (List (List UInt8)) := do
  let (argv, buffer) ← argvFromArgString cmd argv buffer
  let argc ← countArgs argv
  (List.range argc).mapM (deref buffer argv)

def packLoop : List (List UInt8) → Nat → List UInt8 → Except ArgFault (List UInt8)
  | [], _, packed => return packed
  | arg :: argv, position, packed => do
      let len ← strlen .outOfBounds arg
      let packed ← copyIn .outOfBounds packed position (arg.take len)
      let packed ← poke .outOfBounds packed (position + len) 0
      packLoop argv (position + len + 1) packed

def packArgv (argv : List (List UInt8)) (packed : List UInt8) : Except ArgFault (List UInt8) :=
  packLoop argv 0 packed

def packedArgvSize : List (List UInt8) → Except ArgFault Nat
  | [] => return 0
  | arg :: argv => do
      let len ← strlen .outOfBounds arg
      let rest ← packedArgvSize argv
      return len + 1 + rest

def argInfo (argv : List (List UInt8)) (fill : Nat → UInt8) : Except ArgFault (Nat × List UInt8) := do
  let size ← packedArgvSize argv
  let packed := (List.range (if size ≠ 0 then size else 1)).map fill
  if argv.length ≠ 0 then do
    let packed ← packArgv argv packed
    return (size, packed)
  else return (size, packed)

def unpackLoop (size : Nat) (packed : List UInt8) : Nat → Nat → Nat → List (Option Nat) →
    Except ArgFault (Nat × List (Option Nat))
  | 0, _, _, _ => .error .endlessLoop
  | fuel + 1, i, argc, argv =>
      if i < size then do
        let argv ← poke .outOfBounds argv argc (some i)
        let len ← strlen .outOfBounds (packed.drop i)
        unpackLoop size packed fuel (i + len + 1) (argc + 1) argv
      else return (argc, argv)

def unpackArgv (size : Nat) (packed : List UInt8) (argv : List (Option Nat)) :
    Except ArgFault (Nat × List (Option Nat)) :=
  unpackLoop size packed (size + 1) 0 0 argv

def argTexts (memory : List UInt8) (argc : Nat) (argv : List (Option Nat)) :
    Except ArgFault (List (List UInt8)) :=
  (List.range argc).mapM fun index => do
    let arg ← deref memory argv index
    let len ← strlen .outOfBounds arg
    return arg.take len

def passArgs (args : List (List UInt8)) (fill : Nat → UInt8) (childArgv : List (Option Nat)) :
    Except ArgFault (Nat × List (List UInt8)) := do
  let (size, packed) ← argInfo args fill
  let copied := packed.take size
  let (argc, argv) ← unpackArgv size copied childArgv
  let texts ← argTexts copied argc argv
  return (argc, texts)

section Tokens

def tokens (cmd : List UInt8) : List (List UInt8) := (cmd.splitOnP Vfs.isspace).filter fun token => token ≠ []

def flat (texts : List (List UInt8)) : List UInt8 := texts.flatMap fun text => text ++ [0]

def offsets : Nat → List (List UInt8) → List (Option Nat)
  | _, [] => []
  | start, text :: rest => some start :: offsets (start + text.length + 1) rest

@[simp] theorem flat_nil : flat [] = [] := rfl

@[simp] theorem flat_cons (text : List UInt8) (rest : List (List UInt8)) :
    flat (text :: rest) = text ++ 0 :: flat rest := by
  simp [flat]

@[simp] theorem length_offsets (start : Nat) (texts : List (List UInt8)) :
    (offsets start texts).length = texts.length := by
  induction texts generalizing start with
  | nil => rfl
  | cons text rest ih => rw [offsets, List.length_cons, List.length_cons, ih]

/-- What the loop still has to write: the rest of the current token and the tokens after it. -/
def remaining (parsing : Bool) (cmd : List UInt8) : List (List UInt8) :=
  if parsing then
    (cmd.splitOnP Vfs.isspace).headD [] :: ((cmd.splitOnP Vfs.isspace).tail.filter fun token => token ≠ [])
  else tokens cmd

theorem remaining_parsing (cmd : List UInt8) : ∃ first others,
    cmd.splitOnP Vfs.isspace = first :: others ∧
      remaining true cmd = first :: others.filter fun token => token ≠ [] := by
  obtain ⟨first, others, split⟩ := List.exists_cons_of_ne_nil (List.splitOnP_ne_nil Vfs.isspace cmd)
  exact ⟨first, others, split, by simp [remaining, split]⟩

theorem remaining_space {c : UInt8} (space : Vfs.isspace c = true) (parsing : Bool) (cmd : List UInt8) :
    remaining parsing (c :: cmd) = if parsing then [] :: remaining false cmd else remaining false cmd := by
  cases parsing with
  | true => simp [remaining, tokens, List.splitOnP_cons_eq_if_modifyHead, space]
  | false => simp [remaining, tokens, List.splitOnP_cons_eq_if_modifyHead, space]

theorem remaining_letter {c : UInt8} (letter : Vfs.isspace c = false) (parsing : Bool) (cmd : List UInt8) :
    ∃ first others, remaining true cmd = first :: others ∧
      remaining parsing (c :: cmd) = (c :: first) :: others := by
  obtain ⟨first, others, split, now⟩ := remaining_parsing cmd
  refine ⟨first, _, now, ?_⟩
  cases parsing with
  | true => simp [remaining, List.splitOnP_cons_eq_if_modifyHead, letter, split]
  | false => simp [remaining, tokens, List.splitOnP_cons_eq_if_modifyHead, letter, split]

end Tokens

section Tokeniser

def entries (parsing : Bool) (start : Nat) (texts : List (List UInt8)) : List (Option Nat) :=
  if parsing then (offsets start texts).tail else offsets start texts

theorem entries_parsing (start : Nat) (first : List UInt8) (others : List (List UInt8)) :
    entries true start (first :: others) = offsets (start + first.length + 1) others := rfl

theorem entries_next (start : Nat) (texts : List (List UInt8)) : entries false start texts = offsets start texts := rfl

/-- The loop, with both arrays cut where it stands. -/
theorem argvLoop_eq {cmd : List UInt8} (visible : 0 ∉ cmd) (parsing : Bool) (argvDone argvTodo : List (Option Nat))
    (done todo : List UInt8) (fresh : 0 ∉ todo) (room : cmd.length < todo.length)
    (slots : (entries parsing done.length (remaining parsing cmd)).length < argvTodo.length) :
    ∃ argvRest rest, argvLoop (cmd ++ [0]) parsing argvDone.length done.length (argvDone ++ argvTodo)
        (done ++ todo) =
      .ok (argvDone ++ (entries parsing done.length (remaining parsing cmd) ++ none :: argvRest),
        done ++ (flat (remaining parsing cmd) ++ rest)) := by
  induction cmd generalizing parsing argvDone argvTodo done todo with
  | nil =>
      obtain ⟨old, rest, rfl⟩ := List.exists_cons_of_length_pos room
      obtain ⟨slot, argvRest, rfl⟩ := List.exists_cons_of_length_pos (Nat.zero_lt_of_lt slots)
      cases parsing with
      | true =>
          refine ⟨argvRest, rest, ?_⟩
          rw [List.nil_append, argvLoop, if_pos rfl, poke_at, ok_bind, poke_at, ok_bind]
          rfl
      | false =>
          refine ⟨argvRest, 0 :: rest, ?_⟩
          rw [List.nil_append, argvLoop, if_pos rfl, poke_at, ok_bind, poke_at, ok_bind]
          rfl
  | cons c cmd ih =>
      have shown : c ≠ 0 := fun zero => visible (by simp [zero])
      have later : 0 ∉ cmd := fun member => visible (by simp [member])
      obtain ⟨old, todo, rfl⟩ := List.exists_cons_of_length_pos (Nat.zero_lt_of_lt room)
      have freshLater : 0 ∉ todo := fun member => fresh (by simp [member])
      rw [List.length_cons, List.length_cons] at room
      rw [List.cons_append, argvLoop, if_neg shown]
      cases space : Vfs.isspace c with
      | true =>
          rw [if_pos rfl]
          rw [remaining_space space] at slots ⊢
          cases parsing with
          | true =>
              rw [if_pos rfl, entries_parsing] at slots
              have longer : (done ++ [(0 : UInt8)]).length = done.length + 1 := by simp
              obtain ⟨argvRest, rest, looped⟩ := ih later false argvDone argvTodo (done ++ [0]) todo freshLater
                (by omega) (by rw [longer]; exact slots)
              rw [longer, List.append_assoc, List.append_assoc, entries_next] at looped
              refine ⟨argvRest, rest, ?_⟩
              rw [if_pos rfl, if_pos rfl, poke_at, ok_bind, flat_cons, entries_parsing]
              exact looped
          | false =>
              rw [if_neg Bool.false_ne_true] at slots
              obtain ⟨argvRest, rest, looped⟩ := ih later false argvDone argvTodo done (old :: todo) fresh
                (by rw [List.length_cons]; omega) slots
              refine ⟨argvRest, rest, ?_⟩
              rw [if_neg Bool.false_ne_true, if_neg Bool.false_ne_true]
              exact looped
      | false =>
          rw [if_neg Bool.false_ne_true]
          obtain ⟨first, others, now, before⟩ := remaining_letter space parsing cmd
          rw [before] at slots ⊢
          have longer : (done ++ [c]).length = done.length + 1 := by simp
          have start : done.length + 1 + first.length + 1 = done.length + (c :: first).length + 1 := by
            rw [List.length_cons]
            omega
          cases parsing with
          | true =>
              rw [entries_parsing] at slots
              obtain ⟨argvRest, rest, looped⟩ := ih later true argvDone argvTodo (done ++ [c]) todo freshLater
                (by omega) (by rw [longer, now, entries_parsing, start]; exact slots)
              rw [longer, now, entries_parsing, start, List.append_assoc, List.append_assoc, flat_cons] at looped
              refine ⟨argvRest, rest, ?_⟩
              rw [if_pos rfl, poke_at, ok_bind, entries_parsing, flat_cons]
              exact looped
          | false =>
              rw [entries_next, offsets, List.length_cons] at slots
              obtain ⟨slot, argvTodo, rfl⟩ := List.exists_cons_of_length_pos (Nat.zero_lt_of_lt slots)
              have wider : (argvDone ++ [some done.length]).length = argvDone.length + 1 := by simp
              have unwritten : old ≠ 0 := fun zero => fresh (by simp [zero])
              obtain ⟨argvRest, rest, looped⟩ := ih later true (argvDone ++ [some done.length]) argvTodo
                (done ++ [c]) todo freshLater (by omega)
                (by rw [longer, now, entries_parsing, start]; exact Nat.lt_of_succ_lt_succ slots)
              rw [longer, wider, now, entries_parsing, start, List.append_assoc, List.append_assoc,
                List.append_assoc, List.append_assoc, flat_cons] at looped
              refine ⟨argvRest, rest, ?_⟩
              rw [if_neg Bool.false_ne_true, peek_at, ok_bind, require_of unwritten, ok_bind, poke_at, ok_bind,
                poke_at, ok_bind, entries_next, offsets, flat_cons]
              exact looped

theorem argvLoop_length {cmd buffer after : List UInt8} {parsing : Bool} {argvPos bufferPos : Nat}
    {argv argvAfter : List (Option Nat)}
    (done : argvLoop cmd parsing argvPos bufferPos argv buffer = .ok (argvAfter, after)) :
    after.length = buffer.length := by
  induction cmd generalizing parsing argvPos bufferPos argv buffer with
  | nil => cases done
  | cons c cmd ih =>
      rw [argvLoop] at done
      split at done
      · obtain ⟨written, poked, more⟩ := bind_eq_ok.mp done
        obtain ⟨_, _, same⟩ := bind_eq_ok.mp more
        cases same
        exact poke_length _ poked
      · split at done
        · split at done
          · obtain ⟨written, poked, looped⟩ := bind_eq_ok.mp done
            exact (ih looped).trans (poke_length _ poked)
          · exact ih done
        · split at done
          · obtain ⟨written, poked, looped⟩ := bind_eq_ok.mp done
            exact (ih looped).trans (poke_length _ poked)
          · obtain ⟨_, _, asserted⟩ := bind_eq_ok.mp done
            obtain ⟨_, _, entered⟩ := bind_eq_ok.mp asserted
            obtain ⟨_, _, more⟩ := bind_eq_ok.mp entered
            obtain ⟨written, poked, looped⟩ := bind_eq_ok.mp more
            exact (ih looped).trans (poke_length _ poked)

end Tokeniser

section Reading

def Reads (arg text : List UInt8) : Prop := ∃ tail, arg = text ++ 0 :: tail

theorem countArgs_offsets (start : Nat) (texts : List (List UInt8)) (rest : List (Option Nat)) :
    countArgs (offsets start texts ++ none :: rest) = .ok texts.length := by
  induction texts generalizing start with
  | nil => rfl
  | cons text texts ih =>
      rw [offsets, List.cons_append, countArgs, ih, ok_bind]
      rfl

theorem offsets_reads (front : List UInt8) (texts : List (List UInt8)) (rest : List UInt8) {index : Nat}
    (inside : index < texts.length) :
    ∃ distance, (offsets front.length texts)[index]? = some (some distance) ∧
      Reads ((front ++ (flat texts ++ rest)).drop distance) texts[index] := by
  induction texts generalizing front index with
  | nil => cases inside
  | cons text texts ih =>
      cases index with
      | zero =>
          refine ⟨front.length, rfl, flat texts ++ rest, ?_⟩
          rw [List.drop_left, flat_cons, List.append_assoc]
          rfl
      | succ index =>
          have longer : (front ++ (text ++ [0])).length = front.length + text.length + 1 := by simp; omega
          obtain ⟨distance, found, reads⟩ := ih (front ++ (text ++ [0])) (Nat.lt_of_succ_lt_succ inside)
          refine ⟨distance, ?_, ?_⟩
          · rw [offsets, List.getElem?_cons_succ, ← longer]
            exact found
          · have same : front ++ (flat (text :: texts) ++ rest) =
                front ++ (text ++ [0]) ++ (flat texts ++ rest) := by simp
            rw [same]
            exact reads

theorem mapM_range {α β ε : Type} {R : α → β → Prop} (models : List β) (f : Nat → Except ε α)
    (each : ∀ index (inside : index < models.length), ∃ object, f index = .ok object ∧ R object models[index]) :
    ∃ objects, (List.range models.length).mapM f = .ok objects ∧ List.Forall₂ R objects models := by
  induction models generalizing f with
  | nil => exact ⟨[], rfl, .nil⟩
  | cons model models ih =>
      obtain ⟨object, first, related⟩ := each 0 (by simp)
      obtain ⟨objects, later, others⟩ := ih (fun index => f (index + 1)) fun index inside =>
        each (index + 1) (by simpa using inside)
      refine ⟨object :: objects, ?_, .cons related others⟩
      have shifted : List.mapM (f ∘ Nat.succ) (List.range models.length) = .ok objects := later
      rw [List.length_cons, List.range_succ_eq_map, List.mapM_cons, first, ok_bind, List.mapM_map, shifted,
        ok_bind]
      rfl

theorem deref_reads (front : List UInt8) (texts : List (List UInt8)) (rest : List UInt8)
    (more : List (Option Nat)) {index : Nat} (inside : index < texts.length) :
    ∃ arg, deref (front ++ (flat texts ++ rest)) (offsets front.length texts ++ more) index = .ok arg ∧
      Reads arg texts[index] := by
  obtain ⟨distance, found, reads⟩ := offsets_reads front texts rest inside
  refine ⟨_, ?_, reads⟩
  have entry : (offsets front.length texts ++ more)[index]? = some (some distance) := by
    rw [List.getElem?_append_left (by simpa using inside), found]
  rw [deref, peek_some _ entry, ok_bind]
  rfl

theorem argTexts_eq {texts : List (List UInt8)} (visible : ∀ text ∈ texts, 0 ∉ text) (rest : List UInt8)
    (more : List (Option Nat)) :
    argTexts (flat texts ++ rest) texts.length (offsets 0 texts ++ more) = .ok texts := by
  obtain ⟨found, mapped, same⟩ := mapM_range (R := Eq) texts (fun index => do
    let arg ← deref (flat texts ++ rest) (offsets 0 texts ++ more) index
    let len ← strlen ArgFault.outOfBounds arg
    return arg.take len) (by
      intro index inside
      obtain ⟨arg, here, tail, rfl⟩ := deref_reads [] texts rest more inside
      have length := strlen_text ArgFault.outOfBounds (visible _ (List.getElem_mem inside)) tail
      refine ⟨_, ?_, rfl⟩
      rw [show deref (flat texts ++ rest) (offsets 0 texts ++ more) index = _ from here, ok_bind, length, ok_bind,
        List.take_left]
      rfl)
  rw [List.forall₂_eq_eq_eq] at same
  rw [argTexts, mapped, same]

end Reading

section Packing

variable {args texts : List (List UInt8)}

theorem packedArgvSize_eq (reads : List.Forall₂ Reads args texts) (visible : ∀ text ∈ texts, 0 ∉ text) :
    packedArgvSize args = .ok (flat texts).length := by
  induction reads with
  | nil => rfl
  | cons first _ ih =>
      obtain ⟨tail, rfl⟩ := first
      obtain ⟨shown, others⟩ := List.forall_mem_cons.mp visible
      rw [packedArgvSize, strlen_text _ shown, ok_bind, ih others, ok_bind, flat_cons, List.length_append,
        List.length_cons, Nat.add_assoc, Nat.add_comm 1]
      rfl

theorem packLoop_eq (reads : List.Forall₂ Reads args texts) (visible : ∀ text ∈ texts, 0 ∉ text)
    (done todo : List UInt8) (exactly : todo.length = (flat texts).length) :
    packLoop args done.length (done ++ todo) = .ok (done ++ flat texts) := by
  induction reads generalizing done todo with
  | nil =>
      have empty : todo = [] := List.length_eq_zero_iff.mp exactly
      rw [empty]
      rfl
  | cons first rest ih =>
      rename_i arg text args texts
      obtain ⟨tail, rfl⟩ := first
      obtain ⟨shown, others⟩ := List.forall_mem_cons.mp visible
      rw [flat_cons, List.length_append, List.length_cons] at exactly
      have split : todo = todo.take text.length ++ todo.drop text.length := (List.take_append_drop _ _).symm
      obtain ⟨old, back, behind⟩ := List.exists_cons_of_length_pos
        (show 0 < (todo.drop text.length).length by rw [List.length_drop]; omega)
      have taken : (todo.take text.length).length = text.length := by
        rw [List.length_take]
        omega
      have length := congrArg List.length behind
      rw [List.length_drop, List.length_cons] at length
      have end_ : done.length + text.length = (done ++ text).length := by simp
      have next : done.length + text.length + 1 = (done ++ text ++ [0]).length := by
        rw [List.length_append, List.length_append, List.length_singleton]
      rw [packLoop, strlen_text _ shown, ok_bind, List.take_left, split, behind, copyIn_at _ _ _ _ _ taken, ok_bind,
        ← List.append_assoc, end_, poke_at, ok_bind, ← end_, next]
      have looped := ih others (done ++ text ++ [0]) back (by omega)
      rw [List.append_assoc (done ++ text) [0] back, List.append_assoc (done ++ text) [0] (flat texts),
        List.append_assoc done text ([0] ++ flat texts)] at looped
      rw [flat_cons]
      exact looped

theorem unpackLoop_eq (visible : ∀ text ∈ texts, 0 ∉ text) (front : List UInt8)
    (argvDone argvTodo : List (Option Nat)) {size fuel : Nat}
    (total : size = front.length + (flat texts).length) (enough : (flat texts).length < fuel)
    (slots : texts.length ≤ argvTodo.length) :
    unpackLoop size (front ++ flat texts) fuel front.length argvDone.length (argvDone ++ argvTodo) =
      .ok (argvDone.length + texts.length,
        argvDone ++ (offsets front.length texts ++ argvTodo.drop texts.length)) := by
  induction texts generalizing front argvDone argvTodo fuel with
  | nil =>
      obtain ⟨fuel, rfl⟩ := Nat.exists_eq_succ_of_ne_zero (show fuel ≠ 0 by omega)
      rw [flat_nil, List.length_nil] at total
      rw [unpackLoop, if_neg (by omega)]
      rfl
  | cons text texts ih =>
      obtain ⟨fuel, rfl⟩ := Nat.exists_eq_succ_of_ne_zero (show fuel ≠ 0 by omega)
      obtain ⟨shown, others⟩ := List.forall_mem_cons.mp visible
      obtain ⟨slot, argvTodo, rfl⟩ := List.exists_cons_of_length_pos (Nat.zero_lt_of_lt slots)
      rw [flat_cons, List.length_append, List.length_cons] at total enough
      have longer : (front ++ (text ++ [0])).length = front.length + text.length + 1 := by simp; omega
      have wider : (argvDone ++ [some front.length]).length = argvDone.length + 1 := by simp
      have looped := ih others (front ++ (text ++ [0])) (argvDone ++ [some front.length]) argvTodo
        (by omega) (show (flat texts).length < fuel by omega) (Nat.le_of_succ_le_succ slots)
      rw [longer, wider] at looped
      rw [unpackLoop, if_pos (by omega), poke_at, ok_bind, flat_cons, List.drop_left, strlen_text _ shown, ok_bind]
      have packed : front ++ (text ++ 0 :: flat texts) = front ++ (text ++ [0]) ++ flat texts := by simp
      have argv : argvDone ++ some front.length :: argvTodo = argvDone ++ [some front.length] ++ argvTodo := by simp
      rw [packed, argv, looped, offsets, List.length_cons]
      simp [Nat.add_comm, Nat.add_left_comm]

end Packing

section RoundTrip

/-- Whatever the arguments are, the child finds them again. -/
theorem passArgs_eq {args texts : List (List UInt8)} (reads : List.Forall₂ Reads args texts)
    (visible : ∀ text ∈ texts, 0 ∉ text) (fill : Nat → UInt8) {childArgv : List (Option Nat)}
    (slots : texts.length ≤ childArgv.length) :
    passArgs args fill childArgv = .ok (texts.length, texts) := by
  have same := reads.length_eq
  have packed : ∃ bytes, argInfo args fill = .ok ((flat texts).length, bytes) ∧
      bytes.take (flat texts).length = flat texts := by
    rw [argInfo, packedArgvSize_eq reads visible, ok_bind]
    dsimp only
    by_cases none : args.length = 0
    · have empty : texts = [] := List.length_eq_zero_iff.mp (by omega)
      rw [if_neg (not_not.mpr none), empty]
      exact ⟨_, rfl, rfl⟩
    · rw [if_pos none]
      have nonempty : (flat texts).length ≠ 0 := by
        obtain ⟨text, rest, rfl⟩ := List.exists_cons_of_length_pos (show 0 < texts.length by omega)
        rw [flat_cons, List.length_append, List.length_cons]
        omega
      have filled : packLoop args 0 ((List.range (flat texts).length).map fill) = .ok (flat texts) :=
        packLoop_eq reads visible [] _ (by simp)
      refine ⟨flat texts, ?_, List.take_length⟩
      rw [if_pos nonempty, packArgv, filled, ok_bind]
      rfl
  obtain ⟨bytes, made, copied⟩ := packed
  have unpacked : unpackArgv (flat texts).length (flat texts) childArgv =
      .ok (0 + texts.length, offsets 0 texts ++ childArgv.drop texts.length) :=
    unpackLoop_eq visible [] [] childArgv (Nat.zero_add _).symm (Nat.lt_succ_self _) slots
  have found := argTexts_eq visible [] (childArgv.drop texts.length)
  rw [List.append_nil] at found
  rw [Nat.zero_add] at unpacked
  rw [passArgs, made, ok_bind]
  dsimp only
  rw [copied, unpacked, ok_bind]
  dsimp only
  rw [found, ok_bind]
  rfl

theorem mem_splitOnP {cmd piece : List UInt8} {c : UInt8} (member : piece ∈ cmd.splitOnP Vfs.isspace)
    (inside : c ∈ piece) : c ∈ cmd := by
  induction cmd generalizing piece with
  | nil =>
      rw [List.splitOnP_nil, List.mem_singleton] at member
      rwa [member] at inside
  | cons first rest ih =>
      rw [List.splitOnP_cons_eq_if_modifyHead] at member
      obtain ⟨head, others, split⟩ := List.exists_cons_of_ne_nil (List.splitOnP_ne_nil Vfs.isspace rest)
      rw [split] at member ih
      by_cases space : Vfs.isspace first = true
      · rw [if_pos space] at member
        rcases List.mem_cons.mp member with rfl | later
        · cases inside
        · exact List.mem_cons_of_mem _ (ih later inside)
      · rw [if_neg space, List.modifyHead_cons] at member
        rcases List.mem_cons.mp member with rfl | later
        · rcases List.mem_cons.mp inside with rfl | deeper
          · exact List.mem_cons_self
          · exact List.mem_cons_of_mem _ (ih List.mem_cons_self deeper)
        · exact List.mem_cons_of_mem _ (ih (List.mem_cons_of_mem _ later) inside)

theorem tokens_visible {cmd : List UInt8} (visible : 0 ∉ cmd) : ∀ token ∈ tokens cmd, 0 ∉ token := by
  intro token member zero
  exact visible (mem_splitOnP (List.mem_filter.mp member).1 zero)

/-- The tokeniser stays inside its buffer of `strlen(cmd) + 1` bytes and finds the tokens. -/
theorem systemArgs_eq {cmd buffer : List UInt8} {argv : List (Option Nat)} (visible : 0 ∉ cmd)
    (fresh : 0 ∉ buffer) (length : buffer.length = cmd.length + 1) (slots : (tokens cmd).length < argv.length) :
    ∃ argvAfter after args, argvFromArgString (cmd ++ [0]) argv buffer = .ok (argvAfter, after) ∧
      after.length = cmd.length + 1 ∧ systemArgs (cmd ++ [0]) argv buffer = .ok args ∧
      List.Forall₂ Reads args (tokens cmd) := by
  obtain ⟨argvRest, rest, looped⟩ := argvLoop_eq visible false [] argv [] buffer fresh (by omega)
    (by rw [entries_next, length_offsets]; exact slots)
  obtain ⟨args, mapped, reads⟩ := mapM_range (tokens cmd)
    (deref (flat (tokens cmd) ++ rest) (offsets 0 (tokens cmd) ++ none :: argvRest))
    fun index inside => deref_reads [] (tokens cmd) rest (none :: argvRest) inside
  have cut : argvFromArgString (cmd ++ [0]) argv buffer =
      .ok (offsets 0 (tokens cmd) ++ none :: argvRest, flat (tokens cmd) ++ rest) := looped
  refine ⟨_, _, args, cut, (argvLoop_length cut).trans length, ?_, reads⟩
  rw [systemArgs, cut, ok_bind]
  dsimp only
  rw [countArgs_offsets, ok_bind]
  exact mapped

/-- The tokens of a command arrive in the child, and so does every list of texts for which the
argument vector has room. -/
theorem arguments_round_trip :
    (∀ (cmd buffer : List UInt8) (argv childArgv : List (Option Nat)) (fill : Nat → UInt8),
      0 ∉ cmd → 0 < (tokens cmd).length → (tokens cmd).length < argMax →
      buffer.length = cmd.length + 1 → 0 ∉ buffer → argv.length = argMax → childArgv.length = argMax →
      ∃ argvAfter after args, argvFromArgString (cmd ++ [0]) argv buffer = .ok (argvAfter, after) ∧
        after.length = cmd.length + 1 ∧ systemArgs (cmd ++ [0]) argv buffer = .ok args ∧
        passArgs args fill childArgv = .ok ((tokens cmd).length, tokens cmd)) ∧
    (∀ (texts : List (List UInt8)) (childArgv : List (Option Nat)) (fill : Nat → UInt8),
      (∀ text ∈ texts, 0 ∉ text) → texts.length ≤ childArgv.length →
      passArgs (texts.map fun text => text ++ [0]) fill childArgv = .ok (texts.length, texts)) := by
  constructor
  · intro cmd buffer argv childArgv fill visible _ few length fresh argvLength childLength
    obtain ⟨argvAfter, after, args, cut, bounded, made, reads⟩ :=
      systemArgs_eq visible fresh length (show (tokens cmd).length < argv.length by omega)
    refine ⟨argvAfter, after, args, cut, bounded, made, ?_⟩
    exact passArgs_eq reads (tokens_visible visible) fill (by omega)
  · intro texts childArgv fill visible slots
    refine passArgs_eq ?_ visible fill slots
    induction texts with
    | nil => exact .nil
    | cons text texts ih =>
        exact .cons ⟨[], rfl⟩ (ih (fun other member => visible other (by simp [member]))
          (by rw [List.length_cons] at slots; omega))

/-- The command " ls  -l " and the buffers it needs. -/
theorem arguments_round_trip_ls : ∃ argvAfter after args,
    argvFromArgString ([32, 108, 115, 32, 32, 45, 108, 32] ++ [0]) (List.replicate argMax none)
      (List.replicate 9 170) = .ok (argvAfter, after) ∧ after.length = 9 ∧
    systemArgs ([32, 108, 115, 32, 32, 45, 108, 32] ++ [0]) (List.replicate argMax none)
      (List.replicate 9 170) = .ok args ∧
    passArgs args (fun _ => 170) (List.replicate argMax none) = .ok (2, [[108, 115], [45, 108]]) :=
  arguments_round_trip.1 [32, 108, 115, 32, 32, 45, 108, 32] (List.replicate 9 170) _ _ _ (by decide)
    (by decide) (by decide) rfl (by decide) List.length_replicate List.length_replicate

end RoundTrip

end ToyKernel.Loader
