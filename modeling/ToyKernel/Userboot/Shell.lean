import ToyKernel.Loader.Arguments
import ToyKernel.Vfs.Dump
import ToyKernel.Vfs.Listing

/-!
The shell of `userboot/shell/shell.cpp`, from the characters that arrive at the serial port to the
programs that `system` of `libc/system.cpp` starts.
-/

namespace ToyKernel.Userboot

open Library Libc Loader Print Vfs

inductive ShellFault
  | waiting | endOfFile | noDirectory | endlessLoop
  | string (fault : StringFault)
  | print (fault : PrintFault)
  | vfs (fault : Vfs.Fault)
  | arg (fault : ArgFault)
  | dump (fault : DumpFault)
deriving DecidableEq, Repr

def kCmdBufferSize : Nat := 1024

def carriageReturn : Int32 := 13

def eof : Int32 := -1

/-- What the shell does that can be seen: characters that are put, and programs that are started, with
the arguments that their `main` receives. -/
inductive Event
  | put (text : List UInt8)
  | run (file : Cursor) (argc : Nat) (argv : List (List UInt8))

def echo (c : Int32) : Except ShellFault (List UInt8) := (putchar c.toUInt32.toUInt8).mapError .print

/-- The memory, the characters that are left and those that are put. `getchar` waits for the next
character and returns it with its sign. -/
def debugRead : List UInt8 → Memory → Nat → Except ShellFault (Memory × List UInt8 × List UInt8)
  | [], _, _ => .error .waiting
  | next :: input, memory, buffer => do
      let c := next.toInt8.toInt32
      require (c ≠ eof) .endOfFile
      if c = carriageReturn then do
        let shown ← echo 10
        return (store memory buffer 0, input, shown)
      else do
        let shown ← echo c
        let (memory, input, rest) ← debugRead input (store memory buffer c.toUInt32.toUInt8) (buffer + 1)
        return (memory, input, shown ++ rest)

def strcmp (memory : Memory) : Nat → List UInt8 → Except ShellFault Int
  | _, [] => .error (.string .endlessString)
  | s1, c :: s2 =>
      if memory s1 ≠ 0 ∧ memory s1 = c then strcmp memory (s1 + 1) s2
      else return (memory s1).toInt8.toInt - c.toInt8.toInt

def unknownFormat : List UInt8 :=
  chars "Unknown command '".toList ++ percent :: 115 :: (chars ['\'', '\n'] ++ [0])

/-- The arrays of `system` and of the child start with whatever the compiler fills them with. -/
structure Arrays where
  argv : List (Option Nat)
  childArgv : List (Option Nat)
  fill : Nat → UInt8
  slots : argv.length = argMax
  childSlots : childArgv.length = argMax

def system (tree : Node) (arrays : Arrays) (memory : Memory) (cmd : Nat) : Except ShellFault (List Event) := do
  let command ← (stringAt memory cmd).mapError .vfs
  let args ← (systemArgs (command ++ [0]) arrays.argv (List.replicate (command.length + 1) 170)).mapError .arg
  match args with
  | [] => return []
  | name :: _ => do
      let file ← (getFile tree [] (name.takeWhile (· != 0))).mapError .vfs
      match file with
      | some file => do
          let (argc, argv) ← (passArgs args arrays.fill arrays.childArgv).mapError .arg
          return [.run file argc argv]
      | none => do
          let shown ← (printf (fun _ => name) unknownFormat [0]).mapError .print
          return [.put shown]

structure Frame where
  cwdBuf : UInt32
  buffer : UInt32
  name : UInt32

def promptFormat : List UInt8 := [percent, 115, 36, 32, 0]

def exitCommand : List UInt8 := [101, 120, 105, 116, 0]

/-- The size that `getcwd` gets is that of a pointer, and what comes back is where it stopped. -/
def prompt (frame : Frame) (memory : Memory) : Except ShellFault (Memory × List UInt8) := do
  let (memory, cwd) ← (getcwd memory frame.name.toNat frame.cwdBuf.toNat 4).mapError .string
  require (cwd ≠ 0) .noDirectory
  let memory := store memory (cwd + 255) 0
  let shown ← (printf (bytesFrom memory) promptFormat [frame.cwdBuf]).mapError .print
  return (memory, shown)

def shellLoop (tree : Node) (arrays : Arrays) (frame : Frame) : Nat → Memory → List UInt8 →
    Except ShellFault (Memory × List UInt8 × List Event)
  | 0, _, _ => .error .endlessLoop
  | fuel + 1, memory, input => do
      let (memory, asked) ← prompt frame memory
      let (memory, input, typed) ← debugRead input memory frame.buffer.toNat
      let order ← strcmp memory frame.buffer.toNat exitCommand
      if order = 0 then return (memory, input, [.put asked, .put typed])
      else do
        let events ← system tree arrays memory frame.buffer.toNat
        let (memory, input, rest) ← shellLoop tree arrays frame fuel memory input
        return (memory, input, .put asked :: .put typed :: (events ++ rest))

def shell (tree : Node) (fresh : Nat → BitVec 8) (arrays : Arrays) (frame : Frame) (fuel : Nat) (memory : Memory)
    (input : List UInt8) : Except ShellFault (Memory × List UInt8 × List Event) := do
  let drawn ← (dump fresh tree).mapError .dump
  let (memory, input, events) ← shellLoop tree arrays frame fuel memory input
  return (memory, input, .put drawn :: events)

section Reading

theorem char_back (c : UInt8) : c.toInt8.toInt32.toUInt32.toUInt8 = c := by
  have bits : c.toInt8.toInt32.toUInt32.toUInt8.toBitVec = (c.toBitVec.signExtend 32).setWidth 8 := rfl
  apply UInt8.toBitVec_inj.mp
  rw [bits]
  apply BitVec.eq_of_getLsbD_eq
  intro i inside
  rw [BitVec.getLsbD_setWidth, BitVec.getLsbD_signExtend]
  simp [inside, show i < 32 by omega]

theorem char_eq_iff (c other : UInt8) : c.toInt8.toInt32 = other.toInt8.toInt32 ↔ c = other := by
  constructor
  · intro same
    rw [← char_back c, same, char_back]
  · rintro rfl
    rfl

theorem difference_zero_iff (c other : UInt8) : c.toInt8.toInt - other.toInt8.toInt = 0 ↔ c = other := by
  rw [sub_eq_zero, Int8.toInt_inj]
  constructor
  · intro same
    simpa using congrArg Int8.toUInt8 same
  · rintro rfl
    rfl

theorem echo_eq (c : UInt8) : echo c.toInt8.toInt32 = .ok ([c].filter (· != 0)) := by
  rw [echo, char_back, putchar, systemPut_eq]
  by_cases zero : c = 0
  · rw [if_pos zero, zero]
    rfl
  · have shown : (c != 0) = true := bne_iff_ne.mpr zero
    rw [if_neg zero, List.filter_cons, if_pos shown]
    rfl

structure Typed (line : List UInt8) : Prop where
  open_ : 13 ∉ line
  plain : 255 ∉ line

structure Written (memory after : Memory) (buffer : Nat) (text : List UInt8) : Prop where
  chars : ∀ index (inside : index < text.length), after (buffer + index) = text[index]
  ended : after (buffer + text.length) = 0
  others : ∀ address, address < buffer ∨ buffer + text.length < address → after address = memory address

theorem debugRead_line {line : List UInt8} (typed : Typed line) (rest : List UInt8) (memory : Memory) (buffer : Nat) :
    ∃ after, debugRead (line ++ 13 :: rest) memory buffer = .ok (after, rest, line.filter (· != 0) ++ [10]) ∧
      Written memory after buffer line := by
  induction line generalizing memory buffer with
  | nil =>
      refine ⟨store memory buffer 0, rfl, fun _ impossible => absurd impossible (Nat.not_lt_zero _), ?_, ?_⟩
      · simp [store]
      · intro address outside
        rw [List.length_nil] at outside
        exact store_other _ _ (by omega)
  | cons c line ih =>
      have notEnd : c.toInt8.toInt32 ≠ carriageReturn := fun same =>
        typed.open_ (by simp [(char_eq_iff c 13).mp same])
      have notEof : c.toInt8.toInt32 ≠ eof := fun same =>
        typed.plain (by simp [(char_eq_iff c 255).mp same])
      obtain ⟨after, read, written⟩ := ih
        ⟨fun member => typed.open_ (by simp [member]), fun member => typed.plain (by simp [member])⟩
        (store memory buffer c) (buffer + 1)
      refine ⟨after, ?_, ?_, ?_, ?_⟩
      · rw [List.cons_append, debugRead]
        dsimp only
        rw [require_of notEof, ok_bind, if_neg notEnd, echo_eq, ok_bind, char_back, read, ok_bind]
        dsimp only
        rw [← List.append_assoc, ← List.filter_append]
        rfl
      · intro index inside
        cases index with
        | zero =>
            rw [Nat.add_zero, written.others buffer (by omega)]
            simp [store]
        | succ index =>
            have here := written.chars index (Nat.lt_of_succ_lt_succ inside)
            rw [show buffer + (index + 1) = buffer + 1 + index by omega]
            exact here
      · rw [List.length_cons, show buffer + (line.length + 1) = buffer + 1 + line.length by omega]
        exact written.ended
      · intro address outside
        rw [List.length_cons] at outside
        rw [written.others address (by omega)]
        exact store_other _ _ (by omega)

def command (line : List UInt8) : List UInt8 := line.takeWhile (· != 0)

theorem command_text {text : List UInt8} (visible : 0 ∉ text) (tail : List UInt8) :
    command (text ++ 0 :: tail) = text := by
  have stops : (0 :: tail).takeWhile (· != (0 : UInt8)) = [] := rfl
  rw [command, List.takeWhile_append_of_pos, stops, List.append_nil]
  exact fun c member => bne_iff_ne.mpr fun zero => visible (zero ▸ member)

theorem Written.textAt {memory after : Memory} {buffer : Nat} {line : List UInt8}
    (written : Written memory after buffer line) (bounded : buffer + line.length < 4294967296) :
    TextAt after buffer (command line) := by
  have front : command line <+: line := List.takeWhile_prefix _
  have shorter := front.length_le
  refine ⟨fun index inside => ?_, ?_, visible_takeWhile line, by omega⟩
  · rw [written.chars index (by omega)]
    exact (front.getElem inside).symm
  · by_cases whole : (command line).length = line.length
    · rw [whole]
      exact written.ended
    · have inside : (command line).length < line.length := by omega
      obtain ⟨rest, split⟩ := exists_split_nul line []
      have here : (line ++ [0])[(command line).length]? = some 0 := by
        rw [split, command, List.getElem?_append_right (Nat.le_refl _), Nat.sub_self]
        rfl
      rw [List.getElem?_append_left inside, List.getElem?_eq_getElem inside] at here
      rw [written.chars _ inside]
      exact Option.some.inj here

theorem strcmp_zero_iff {memory : Memory} {s1 : Nat} {text : List UInt8} (stored : TextAt memory s1 text)
    (other : List UInt8) (visible : 0 ∉ other) : ∃ order, strcmp memory s1 (other ++ [0]) = .ok order ∧ (order = 0 ↔ text = other) := by
  induction other generalizing s1 text with
  | nil =>
      refine ⟨_, if_neg (fun both => both.1 both.2), ?_⟩
      rw [difference_zero_iff]
      cases text with
      | nil => exact ⟨fun _ => rfl, fun _ => stored.ended⟩
      | cons c text =>
          have shown : memory s1 = c := stored.chars 0 (Nat.succ_pos _)
          rw [shown]
          exact ⟨fun zero => absurd (by simp [zero]) stored.visible, fun impossible => by cases impossible⟩
  | cons d other ih =>
      have plain : d ≠ 0 := fun zero => visible (by simp [zero])
      cases text with
      | nil =>
          have zero : memory s1 = 0 := stored.ended
          refine ⟨_, if_neg (fun both => both.1 zero), ?_⟩
          rw [difference_zero_iff, zero]
          exact ⟨fun same => absurd same.symm plain, fun impossible => by cases impossible⟩
      | cons c text =>
          have shown : memory s1 = c := stored.chars 0 (Nat.succ_pos _)
          have nonzero : c ≠ 0 := fun zero => stored.visible (by simp [zero])
          have behind : TextAt memory (s1 + 1) text := by
            refine ⟨fun index inside => ?_, ?_, fun member => stored.visible (by simp [member]), ?_⟩
            · rw [show s1 + 1 + index = s1 + (index + 1) by omega]
              exact stored.chars (index + 1) (Nat.succ_lt_succ inside)
            · have ended := stored.ended
              rw [List.length_cons] at ended
              rw [show s1 + 1 + text.length = s1 + (text.length + 1) by omega]
              exact ended
            · have bounded := stored.bounded
              rw [List.length_cons] at bounded
              omega
          by_cases same : c = d
          · subst same
            obtain ⟨order, compared, zero⟩ := ih behind fun member => visible (by simp [member])
            refine ⟨order, ?_, zero.trans (by simp)⟩
            rw [List.cons_append, strcmp, if_pos ⟨shown ▸ nonzero, shown⟩, compared]
          · refine ⟨_, if_neg (fun both => same (shown.symm.trans both.2)), ?_⟩
            rw [difference_zero_iff, shown]
            exact ⟨fun equal => absurd equal same, fun equal => absurd (List.cons.inj equal).1 same⟩

end Reading

section Commands

variable {tree : Node} {memory : Memory} {cmd : Nat} {text : List UInt8}

/-- What a command comes to: nothing without a word in it, the program of its first word with all the
words as arguments, or the message that there is none. -/
inductive Responds (tree : Node) (text : List UInt8) : List Event → Prop
  | blank : tokens text = [] → Responds tree text []
  | run {name rest file} : tokens text = name :: rest → getFile tree [] name = .ok (some file) →
      Responds tree text [.run file (tokens text).length (tokens text)]
  | unknown {name rest} : tokens text = name :: rest → getFile tree [] name = .ok none →
      Responds tree text [.put (chars "Unknown command '".toList ++ (name ++ chars ['\'', '\n']))]

theorem tokens_length (text : List UInt8) : (tokens text).length ≤ text.length := by
  induction text with
  | nil => simp [tokens]
  | cons c text ih =>
      obtain ⟨first, others, split⟩ := List.exists_cons_of_ne_nil (List.splitOnP_ne_nil Vfs.isspace text)
      rw [tokens, split, List.filter_cons] at ih
      rw [tokens, List.splitOnP_cons_eq_if_modifyHead, split, List.length_cons]
      cases space : Vfs.isspace c with
      | true =>
          rw [if_pos rfl, List.filter_cons, if_neg (by simp), List.filter_cons]
          omega
      | false =>
          rw [if_neg Bool.false_ne_true, List.modifyHead_cons, List.filter_cons, if_pos (by simp), List.length_cons]
          split at ih
          · rw [List.length_cons] at ih
            omega
          · omega

theorem getFile_ok (reachable : calls.Reachable tree) (path : Text) : ∃ found, getFile tree [] path = .ok found := by
  have isDir : IsDirectoryAt tree [] := ⟨_, reachable_root reachable, rfl⟩
  rw [getFile, getNode_eq (reachable_rooted reachable) isDir]
  exact ⟨_, rfl⟩

theorem system_responds (reachable : calls.Reachable tree) (arrays : Arrays) (stored : TextAt memory cmd text)
    (short : text.length < argMax) : ∃ events, system tree arrays memory cmd = .ok events ∧
      Responds tree text events := by
  have read : stringAt memory cmd = .ok text := stringAt_text stored
  have few := tokens_length text
  have slots : (tokens text).length < arrays.argv.length := by
    rw [arrays.slots]
    omega
  have childSlots : (tokens text).length ≤ arrays.childArgv.length := by
    rw [arrays.childSlots]
    omega
  have fresh : 0 ∉ List.replicate (text.length + 1) (170 : UInt8) := by simp
  obtain ⟨_, _, args, _, _, made, reads⟩ := systemArgs_eq stored.visible fresh List.length_replicate slots
  have passed := passArgs_eq reads (tokens_visible stored.visible) arrays.fill childSlots
  rw [system, read, Except.mapError, ok_bind, made, Except.mapError, ok_bind]
  generalize words : tokens text = texts at *
  cases reads with
  | nil => exact ⟨[], rfl, .blank words⟩
  | cons first others =>
      rename_i arg name args rest
      obtain ⟨tail, rfl⟩ := first
      have shown : 0 ∉ name := tokens_visible stored.visible name (by rw [words]; exact List.mem_cons_self)
      have named : (name ++ 0 :: tail).takeWhile (· != 0) = name := command_text shown tail
      obtain ⟨found, looked⟩ := getFile_ok reachable name
      dsimp only
      rw [named, looked, Except.mapError, ok_bind]
      cases found with
      | some file =>
          dsimp only
          rw [passed, Except.mapError, ok_bind]
          rw [← words]
          exact ⟨_, rfl, .run words looked⟩
      | none =>
          have message : printf (fun _ => name ++ 0 :: tail) unknownFormat [0] =
              .ok (chars "Unknown command '".toList ++ (name ++ chars ['\'', '\n'])) :=
            printf_string (chars "Unknown command '".toList) (chars ['\'', '\n']) rfl shown
              ⟨by decide, by decide⟩ ⟨by decide, by decide⟩
          dsimp only
          rw [message]
          exact ⟨_, rfl, .unknown words looked⟩

end Commands

section Sessions

variable {tree : Node} {arrays : Arrays} {frame : Frame} {memory : Memory} {name : Text}

/-- All but the command buffer, the first four bytes of the array for the working directory, and one byte
four places behind the last of it. -/
def Outside (frame : Frame) (address : Nat) : Prop :=
  (address < frame.cwdBuf.toNat ∨ frame.cwdBuf.toNat + 4 ≤ address) ∧ address ≠ frame.cwdBuf.toNat + 259 ∧
    (address < frame.buffer.toNat ∨ frame.buffer.toNat + kCmdBufferSize ≤ address)

structure Layout (frame : Frame) (memory : Memory) (name : Text) : Prop where
  named : TextAt memory frame.name.toNat name
  short : name.length < 4
  apart : ∀ offset ≤ name.length, Outside frame (frame.name.toNat + offset)
  cwdBound : frame.cwdBuf.toNat + 256 ≤ 4294967296
  bufferBound : frame.buffer.toNat + kCmdBufferSize ≤ 4294967296

theorem Layout.kept {after : Memory} (layout : Layout frame memory name)
    (same : ∀ address, Outside frame address → after address = memory address) : Layout frame after name where
  named := by
    refine ⟨fun index inside => ?_, ?_, layout.named.visible, layout.named.bounded⟩
    · rw [same _ (layout.apart index inside.le)]
      exact layout.named.chars index inside
    · rw [same _ (layout.apart _ (Nat.le_refl _))]
      exact layout.named.ended
  short := layout.short
  apart := layout.apart
  cwdBound := layout.cwdBound
  bufferBound := layout.bufferBound

def asked (name : Text) : List UInt8 := name ++ chars ['$', ' ']

def echoed (line : List UInt8) : List UInt8 := line.filter (· != 0) ++ [10]

/-- The prompt shows the name, and the terminator that is meant for the last byte of the array goes to a
byte behind it. -/
theorem prompt_eq (layout : Layout frame memory name) : ∃ after, prompt frame memory = .ok (after, asked name) ∧
    ∀ address, (address < frame.cwdBuf.toNat ∨ frame.cwdBuf.toNat + 4 ≤ address) →
      address ≠ frame.cwdBuf.toNat + 259 → after address = memory address := by
  have short := layout.short
  have bound := layout.cwdBound
  have apart : frame.cwdBuf.toNat + 4 ≤ frame.name.toNat ∨ frame.name.toNat + name.length + 1 ≤ frame.cwdBuf.toNat := by
    by_contra overlap
    have start := (layout.apart 0 (Nat.zero_le _)).1
    by_cases inside : frame.name.toNat ≤ frame.cwdBuf.toNat
    · have met := (layout.apart (frame.cwdBuf.toNat - frame.name.toNat) (by omega)).1
      omega
    · omega
  obtain ⟨copied, done, filled⟩ := strncpy_fills layout.named apart
  have text := filled_textAt filled layout.named.visible short (by omega)
  have kept : TextAt (store copied (frame.cwdBuf.toNat + 4 + 255) 0) frame.cwdBuf.toNat name := by
    refine ⟨fun index inside => ?_, ?_, text.visible, text.bounded⟩
    · rw [store_other _ _ (by omega)]
      exact text.chars index inside
    · rw [store_other _ _ (by omega)]
      exact text.ended
  have shown : printf (bytesFrom (store copied (frame.cwdBuf.toNat + 4 + 255) 0)) promptFormat [frame.cwdBuf] =
      .ok ([] ++ (name ++ chars ['$', ' '])) :=
    printf_stored [] (chars ['$', ' ']) kept ⟨by decide, by decide⟩ ⟨by decide, by decide⟩
  refine ⟨store copied (frame.cwdBuf.toNat + 4 + 255) 0, ?_, fun address outside other => ?_⟩
  · have copies : getcwd memory frame.name.toNat frame.cwdBuf.toNat 4 = .ok (copied, frame.cwdBuf.toNat + 4) := done
    rw [prompt, copies, Except.mapError, ok_bind]
    dsimp only
    rw [require_of (show frame.cwdBuf.toNat + 4 ≠ 0 by omega), ok_bind, shown]
    rfl
  · rw [store_other _ _ (by omega)]
    exact filled.outside address outside

inductive Session (tree : Node) (name : Text) : List (List UInt8) → List Event → Prop
  | exit {line} : command line ++ [0] = exitCommand →
      Session tree name [line] [.put (asked name), .put (echoed line)]
  | turn {line lines events rest} : command line ++ [0] ≠ exitCommand → Responds tree (command line) events →
      Session tree name lines rest →
      Session tree name (line :: lines) (.put (asked name) :: .put (echoed line) :: (events ++ rest))

structure Fits (line : List UInt8) : Prop extends Typed line where
  short : line.length < kCmdBufferSize

theorem turn_eq {line : List UInt8} (layout : Layout frame memory name) (fits : Fits line) (input : List UInt8) :
    ∃ middle after, prompt frame memory = .ok (middle, asked name) ∧
      debugRead (line ++ 13 :: input) middle frame.buffer.toNat = .ok (after, input, echoed line) ∧
      TextAt after frame.buffer.toNat (command line) ∧
      ∀ address, Outside frame address → after address = memory address := by
  have bound := layout.bufferBound
  have short := fits.short
  obtain ⟨middle, prompted, kept⟩ := prompt_eq layout
  obtain ⟨after, read, written⟩ := debugRead_line fits.toTyped input middle frame.buffer.toNat
  refine ⟨middle, after, prompted, read, written.textAt (by omega), fun address outside => ?_⟩
  obtain ⟨cwd, stray, buffer⟩ := outside
  rw [written.others address (by omega), kept address cwd stray]

/-- By induction on the lines in front of the one that ends the session. -/
theorem shellLoop_session (arrays : Arrays) (reachable : calls.Reachable tree) (layout : Layout frame memory name)
    {lines : List (List UInt8)} {last : List UInt8} (fits : ∀ line ∈ lines ++ [last], Fits line)
    (others : ∀ line ∈ lines, command line ++ [0] ≠ exitCommand) (exits : command last ++ [0] = exitCommand)
    (input : List UInt8) {fuel : Nat} (enough : lines.length < fuel) :
    ∃ after events, shellLoop tree arrays frame fuel memory
        ((lines ++ [last]).flatMap (fun line => line ++ [13]) ++ input) = .ok (after, input, events) ∧
      Session tree name (lines ++ [last]) events ∧ ∀ address, Outside frame address → after address = memory address := by
  induction lines generalizing memory fuel with
  | nil =>
      obtain ⟨fuel, rfl⟩ := Nat.exists_eq_succ_of_ne_zero (show fuel ≠ 0 by omega)
      obtain ⟨middle, after, prompted, read, text, kept⟩ := turn_eq layout (fits last (by simp)) input
      obtain ⟨order, compared, zero⟩ := strcmp_zero_iff text [101, 120, 105, 116] (by decide)
      have same : order = 0 := zero.mpr (List.append_cancel_right exits)
      refine ⟨after, _, ?_, .exit exits, kept⟩
      have flat : ([] ++ [last]).flatMap (fun line => line ++ [13]) ++ input = last ++ 13 :: input := by simp
      rw [flat, shellLoop, prompted, ok_bind]
      dsimp only
      rw [read, ok_bind]
      dsimp only
      rw [show strcmp after frame.buffer.toNat exitCommand = .ok order from compared, ok_bind, if_pos same]
      rfl
  | cons line lines ih =>
      obtain ⟨fuel, rfl⟩ := Nat.exists_eq_succ_of_ne_zero (show fuel ≠ 0 by omega)
      have fitting : Fits line := fits line (by simp)
      obtain ⟨goesOn, later⟩ := List.forall_mem_cons.mp others
      obtain ⟨middle, typed, prompted, read, text, kept⟩ := turn_eq layout fitting
        ((lines ++ [last]).flatMap (fun line => line ++ [13]) ++ input)
      obtain ⟨order, compared, zero⟩ := strcmp_zero_iff text [101, 120, 105, 116] (by decide)
      have different : order ≠ 0 := fun same => goesOn (by rw [zero.mp same]; rfl)
      have shorter : (command line).length ≤ line.length := (List.takeWhile_prefix _).length_le
      have short : line.length < 1024 := fitting.short
      obtain ⟨events, done, responds⟩ := system_responds reachable arrays text
        (show (command line).length < 4096 by omega)
      obtain ⟨after, rest, looped, session, still⟩ := ih (layout.kept kept)
        (fun other member => fits other (by simp [member])) later
        (show lines.length < fuel by rw [List.length_cons] at enough; omega)
      refine ⟨after, _, ?_, .turn goesOn responds session, fun address outside =>
        (still address outside).trans (kept address outside)⟩
      have flat : (line :: lines ++ [last]).flatMap (fun line => line ++ [13]) ++ input =
          line ++ 13 :: ((lines ++ [last]).flatMap (fun line => line ++ [13]) ++ input) := by simp
      rw [flat, shellLoop, prompted, ok_bind]
      dsimp only
      rw [read, ok_bind]
      dsimp only
      rw [show strcmp typed frame.buffer.toNat exitCommand = .ok order from compared, ok_bind, if_neg different,
        done, ok_bind, looped, ok_bind]
      rfl

/-- However the lines are typed up to the one that says "exit", the shell draws the tree and answers each of
them, leaves what is typed after it unread, and writes nowhere but to its arrays and one byte behind. -/
theorem shell_session (reachable : calls.Reachable tree) (small : height tree < 4294967296)
    (layout : Layout frame memory name) {lines : List (List UInt8)} {last : List UInt8}
    (fits : ∀ line ∈ lines ++ [last], Fits line) (others : ∀ line ∈ lines, command line ++ [0] ≠ exitCommand)
    (exits : command last ++ [0] = exitCommand) (fresh : Nat → BitVec 8) (input : List UInt8) {fuel : Nat}
    (enough : lines.length < fuel) :
    ∃ after drawn events, dump fresh tree = .ok drawn ∧ shell tree fresh arrays frame fuel memory
        ((lines ++ [last]).flatMap (fun line => line ++ [13]) ++ input) = .ok (after, input, .put drawn :: events) ∧
      Session tree name (lines ++ [last]) events ∧ ∀ address, Outside frame address → after address = memory address := by
  obtain ⟨drawn, done⟩ := (dump_draws_iff fresh tree small).1
  obtain ⟨after, events, looped, session, kept⟩ :=
    shellLoop_session arrays reachable layout fits others exits input enough
  refine ⟨after, drawn, events, done, ?_, session, kept⟩
  rw [shell, done, Except.mapError, ok_bind, looped, ok_bind]
  rfl

/-- The lines "a" and "exit" on an empty tree. -/
theorem shell_session_unknown :
    ∃ (arrays : Arrays) (after : Memory) (drawn : List UInt8) (events : List Event),
    dump (fun _ => 0) rootDirectory = .ok drawn ∧
      shell rootDirectory (fun _ => 0) arrays ⟨1000, 2000, 8⟩ 2 (store (fun _ => 0) 8 47)
        (([[97]] ++ [[101, 120, 105, 116]] : List (List UInt8)).flatMap (fun line => line ++ [13]) ++ [98]) =
          .ok (after, [98], .put drawn :: events) ∧
      Session rootDirectory [47] ([[97]] ++ [[101, 120, 105, 116]]) events ∧
      ∀ address, Outside ⟨1000, 2000, 8⟩ address → after address = store (fun _ => 0) 8 47 address := by
  have layout : Layout ⟨1000, 2000, 8⟩ (store (fun _ => 0) 8 47) [47] := by
    refine ⟨textAt_char 47 (by decide), by decide, fun offset inside => ?_, by decide, by decide⟩
    rw [List.length_singleton] at inside
    unfold Outside kCmdBufferSize
    show (8 + offset < 1000 ∨ 1000 + 4 ≤ 8 + offset) ∧ 8 + offset ≠ 1000 + 259 ∧
      (8 + offset < 2000 ∨ 2000 + 1024 ≤ 8 + offset)
    omega
  refine ⟨⟨List.replicate argMax none, List.replicate argMax none, fun _ => 170, List.length_replicate,
    List.length_replicate⟩, shell_session (.start rfl) (by decide) layout ?_ ?_ rfl _ _ (by decide)⟩
  · intro line member
    rcases List.mem_cons.mp member with rfl | member
    · exact ⟨⟨by decide, by decide⟩, by decide⟩
    · rcases List.mem_singleton.mp member with rfl
      exact ⟨⟨by decide, by decide⟩, by decide⟩
  · intro line member
    rcases List.mem_singleton.mp member with rfl
    decide

end Sessions

end ToyKernel.Userboot
