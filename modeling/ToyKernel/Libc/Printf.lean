import ToyKernel.Libc.Strings
import ToyKernel.Print.Format

/-!
`printf` of `libc/printf.cpp`, down to the serial port: the characters go through the `debug_write`
system call, which prints a string without arguments.
-/

namespace ToyKernel.Libc

open Library Print

def percent : UInt8 := 37

def debugWrite (str : List UInt8) : Except PrintFault (List UInt8) := print [] str

def systemPrint (str : List UInt8) : Except PrintFault (List UInt8) := debugWrite str

def systemPut (c : UInt8) : Except PrintFault (List UInt8) := debugWrite [c, 0]

def putAll : List UInt8 → Except PrintFault (List UInt8)
  | [] => return []
  | c :: text => do
      let first ← systemPut c
      let rest ← putAll text
      return first ++ rest

def putFormatted (arg : Arg) : Except PrintFault (List UInt8) := do
  let text ← print [arg] [openBrace, closeBrace, 0]
  putAll text

inductive Conversion
  | char | decimal | unsigned | string | pointer | hex
deriving DecidableEq, Repr

namespace Conversion

def letter : Conversion → UInt8
  | char => 99
  | decimal => 100
  | unsigned => 117
  | string => 115
  | pointer => 112
  | hex => 120

def ofLetter (c : UInt8) : Option Conversion :=
  [char, decimal, unsigned, string, pointer, hex].find? fun conversion => conversion.letter = c

def put (bytesAt : UInt32 → List UInt8) (arg : UInt32) : Conversion → Except PrintFault (List UInt8)
  | char => systemPut arg.toUInt8
  | decimal => putFormatted (.int32 arg.toInt32)
  | unsigned => putFormatted (.uint32 arg)
  | string => systemPrint (bytesAt arg)
  | pointer => putFormatted (.pointer arg)
  | hex => putFormatted (.hex32 arg)

end Conversion

/-- A `va_arg` behind the last argument reads outside of the list. -/
def printf (bytesAt : UInt32 → List UInt8) : List UInt8 → List UInt32 → Except PrintFault (List UInt8)
  | [], _ => .error .outOfBounds
  | c :: fmt, args =>
      if c = 0 then return []
      else if c = percent then
        match fmt with
        | [] => .error .outOfBounds
        | next :: fmt =>
            match Conversion.ofLetter next, args with
            | none, _ => .error .trap
            | some _, [] => .error .outOfBounds
            | some conversion, arg :: args => do
                let shown ← conversion.put bytesAt arg
                let rest ← printf bytesAt fmt args
                return shown ++ rest
      else do
        let shown ← systemPut c
        let rest ← printf bytesAt fmt args
        return shown ++ rest

def putchar (c : UInt8) : Except PrintFault (List UInt8) := systemPut c

def bytesFrom (memory : Memory) (address : UInt32) : List UInt8 :=
  (List.range (4294967296 - address.toNat)).map fun index => memory (address.toNat + index)

section Characters

theorem systemPut_eq (c : UInt8) : systemPut c = .ok (if c = 0 then [] else [c]) := by
  by_cases zero : c = 0
  · rw [zero]
    rfl
  · have printed : printString ([c] ++ 0 :: []) = .ok [c] := printString_text (by simpa using Ne.symm zero) []
    rw [if_neg zero]
    exact printed

theorem putAll_visible {text : List UInt8} (visible : 0 ∉ text) : putAll text = .ok text := by
  induction text with
  | nil => rfl
  | cons c text ih =>
      have shown : c ≠ 0 := fun zero => visible (by simp [zero])
      rw [putAll, systemPut_eq, if_neg shown, ok_bind, ih fun member => visible (by simp [member])]
      rfl

/-- A formatter whose text has no NUL in it. -/
theorem putFormatted_of (val : Arg) {text : List UInt8} (formatted : printFormatter val = .ok text)
    (visible : 0 ∉ text) : putFormatted val = .ok text := by
  have whole : print [val] [openBrace, closeBrace, 0] = .ok (text ++ []) := by
    rw [print, printLast_eq]
    exact printFirst_placeholder formatted rfl
  rw [putFormatted, whole, ok_bind, List.append_nil]
  exact putAll_visible visible

theorem printString_mem {str : List UInt8} (terminated : 0 ∈ str) :
    printString str = .ok (str.takeWhile (· != 0)) := by
  obtain ⟨front, tail, rfl⟩ := List.append_of_mem terminated
  obtain ⟨rest, split⟩ := exists_split_nul front tail
  have nul : (0 :: rest).takeWhile (· != (0 : UInt8)) = [] := rfl
  rw [split, printString_text (visible_takeWhile front), List.takeWhile_append_of_pos, nul, List.append_nil]
  intro c member
  exact bne_iff_ne.mpr fun zero => visible_takeWhile front (zero ▸ member)

theorem printString_endless {str : List UInt8} (endless : 0 ∉ str) : printString str = .error .outOfBounds := by
  induction str with
  | nil => rfl
  | cons c str ih =>
      have shown : c ≠ 0 := fun zero => endless (by simp [zero])
      rw [printString, if_neg shown, ih fun member => endless (by simp [member])]
      rfl

theorem hex_visible (val : UInt32) : 0 ∉ hexPrefix ++ printHex32 val := by
  intro member
  rcases List.mem_append.mp member with inPrefix | inDigits
  · exact absurd inPrefix (by decide)
  · rcases (printHex32_numeral val).lowercase 0 inDigits with digit | letter
    · exact absurd digit.1 (by decide)
    · exact absurd letter.1 (by decide)

theorem signed_visible (value : Int) : 0 ∉ signed value := by
  unfold signed
  split
  · exact decimal_visible _
  · intro member
    rcases List.mem_cons.mp member with zero | digit
    · exact absurd zero (by decide)
    · exact decimal_visible _ digit

end Characters

namespace Conversion

variable {bytesAt : UInt32 → List UInt8}

def Readable (bytesAt : UInt32 → List UInt8) (arg : UInt32) : Conversion → Prop
  | string => 0 ∈ bytesAt arg
  | _ => True

/-- A character whose byte is zero is the end of the string it is printed as. -/
def text (bytesAt : UInt32 → List UInt8) (arg : UInt32) : Conversion → List UInt8
  | char => if arg.toUInt8 = 0 then [] else [arg.toUInt8]
  | decimal => signed arg.toInt32.toInt
  | unsigned => decimalDigits.numeral arg.toNat
  | string => (bytesAt arg).takeWhile (· != 0)
  | pointer => hexPrefix ++ printHex32 arg
  | hex => hexPrefix ++ printHex32 arg

theorem ofLetter_letter (conversion : Conversion) : ofLetter conversion.letter = some conversion := by
  cases conversion <;> rfl

theorem letter_of_ofLetter {c : UInt8} {conversion : Conversion} (found : ofLetter c = some conversion) :
    conversion.letter = c := by
  have holds := List.find?_some found
  simpa using holds

theorem put_eq {arg : UInt32} {conversion : Conversion} (readable : conversion.Readable bytesAt arg) :
    conversion.put bytesAt arg = .ok (conversion.text bytesAt arg) := by
  cases conversion with
  | char => exact systemPut_eq arg.toUInt8
  | decimal => exact putFormatted_of (.int32 arg.toInt32) (printDecimalInt32_eq _) (signed_visible _)
  | unsigned => exact putFormatted_of (.uint32 arg) (printDecimalUInt32_eq _) (decimal_visible _)
  | string => exact printString_mem readable
  | pointer => exact putFormatted_of (.pointer arg) rfl (hex_visible arg)
  | hex => exact putFormatted_of (.hex32 arg) rfl (hex_visible arg)

theorem put_unreadable {arg : UInt32} {conversion : Conversion} (unreadable : ¬conversion.Readable bytesAt arg) :
    conversion.put bytesAt arg = .error .outOfBounds := by
  cases conversion with
  | string => exact printString_endless unreadable
  | _ => exact absurd trivial unreadable

end Conversion

structure Plain (text : List UInt8) : Prop where
  visible : 0 ∉ text
  plain : percent ∉ text

structure Piece where
  conversion : Conversion
  arg : UInt32
  literal : List UInt8

def Piece.source (piece : Piece) : List UInt8 := percent :: piece.conversion.letter :: piece.literal

def Piece.output (bytesAt : UInt32 → List UInt8) (piece : Piece) : List UInt8 :=
  piece.conversion.text bytesAt piece.arg ++ piece.literal

structure Piece.Valid (bytesAt : UInt32 → List UInt8) (piece : Piece) : Prop where
  readable : piece.conversion.Readable bytesAt piece.arg
  plain : Plain piece.literal

def NoConversion (rest : List UInt8) : Prop := ∀ c ∈ rest.head?, Conversion.ofLetter c = none

section Scanning

variable {bytesAt : UInt32 → List UInt8} {args : List UInt32} {literal data : List UInt8}

theorem Plain.tail {c : UInt8} (plain : Plain (c :: literal)) : Plain literal :=
  ⟨fun zero => plain.visible (by simp [zero]), fun sign => plain.plain (by simp [sign])⟩

theorem Plain.cons {c : UInt8} (visible : c ≠ 0) (other : c ≠ percent) (plain : Plain literal) :
    Plain (c :: literal) :=
  ⟨by simpa [visible.symm] using plain.visible, by simpa [other.symm] using plain.plain⟩

theorem printf_char {c : UInt8} (visible : c ≠ 0) (other : c ≠ percent) :
    printf bytesAt (c :: data) args = (printf bytesAt data args).map (c :: ·) := by
  rw [printf.eq_def]
  dsimp only
  rw [if_neg visible, if_neg other, systemPut_eq, if_neg visible, ok_bind]
  rfl

theorem map_nil_append {result : Except PrintFault (List UInt8)} : result.map ([] ++ ·) = result := by
  cases result <;> rfl

theorem printf_literal (plain : Plain literal) :
    printf bytesAt (literal ++ data) args = (printf bytesAt data args).map (literal ++ ·) := by
  induction literal with
  | nil => exact map_nil_append.symm
  | cons c literal ih =>
      have visible : c ≠ 0 := fun zero => plain.visible (by simp [zero])
      have other : c ≠ percent := fun sign => plain.plain (by simp [sign])
      rw [List.cons_append, printf_char visible other, ih plain.tail]
      cases printf bytesAt data args <;> rfl

theorem printf_conversion (conversion : Conversion) (arg : UInt32) :
    printf bytesAt (percent :: conversion.letter :: data) (arg :: args) =
      (conversion.put bytesAt arg).bind fun shown => (printf bytesAt data args).map (shown ++ ·) := by
  rw [printf.eq_def]
  dsimp only
  rw [if_neg (by decide), if_pos rfl, Conversion.ofLetter_letter]
  rfl

theorem printf_pieces (pieces : List Piece) (valid : ∀ piece ∈ pieces, piece.Valid bytesAt) :
    printf bytesAt (pieces.flatMap Piece.source ++ data) (pieces.map Piece.arg ++ args) =
      (printf bytesAt data args).map (pieces.flatMap (Piece.output bytesAt) ++ ·) := by
  induction pieces with
  | nil => exact map_nil_append.symm
  | cons piece pieces ih =>
      have first := valid piece List.mem_cons_self
      have rest := ih fun other member => valid other (List.mem_cons_of_mem _ member)
      rw [List.flatMap_cons, List.map_cons, List.cons_append, List.append_assoc]
      show printf bytesAt (percent :: piece.conversion.letter :: (piece.literal ++ _)) _ = _
      rw [printf_conversion, Conversion.put_eq first.readable, printf_literal first.plain, rest]
      cases printf bytesAt data args with
      | error fault => rfl
      | ok out => simp [Piece.output, Except.bind, Except.map]

theorem printf_noConversion {rest : List UInt8} (bad : NoConversion rest) (tail : List UInt8) :
    printf bytesAt (percent :: rest ++ 0 :: tail) args = .error .trap := by
  rw [List.cons_append, printf.eq_def]
  dsimp only
  rw [if_neg (by decide), if_pos rfl]
  cases rest with
  | nil => rfl
  | cons c rest =>
      have unknown : Conversion.ofLetter c = none := bad c rfl
      simp only [List.cons_append, unknown]

/-- Conversions that find no argument, or a pointer to an endless string, read outside of memory. -/
theorem printf_unsupplied (bytesAt : UInt32 → List UInt8) (directives : List (Conversion × List UInt8)) (args : List UInt32)
    (plain : ∀ directive ∈ directives, Plain directive.2) :
    (∃ (pieces : List Piece) (unused : List UInt32), (∀ piece ∈ pieces, piece.Valid bytesAt) ∧
      pieces.map (fun piece => (piece.conversion, piece.literal)) = directives ∧
      args = pieces.map Piece.arg ++ unused) ∨
    ∀ data, printf bytesAt
      ((directives.flatMap fun directive => percent :: directive.1.letter :: directive.2) ++ data) args =
        .error .outOfBounds := by
  induction directives generalizing args with
  | nil => exact .inl ⟨[], args, by simp, rfl, rfl⟩
  | cons directive directives ih =>
      cases args with
      | nil =>
          right
          intro data
          rw [List.flatMap_cons, List.append_assoc, List.cons_append, printf.eq_def]
          dsimp only
          rw [if_neg (by decide), if_pos rfl, List.cons_append]
          simp only [Conversion.ofLetter_letter]
      | cons arg args =>
          by_cases readable : directive.1.Readable bytesAt arg
          · rcases ih args fun other member => plain other (List.mem_cons_of_mem _ member) with
              ⟨pieces, unused, valid, same, rfl⟩ | endless
            · left
              refine ⟨⟨directive.1, arg, directive.2⟩ :: pieces, unused, ?_, ?_, rfl⟩
              · exact List.forall_mem_cons.mpr ⟨⟨readable, plain directive List.mem_cons_self⟩, valid⟩
              · rw [List.map_cons, same]
            · right
              intro data
              rw [List.flatMap_cons, List.append_assoc, List.cons_append, List.cons_append, printf_conversion,
                Conversion.put_eq readable, printf_literal (plain directive List.mem_cons_self), endless]
              rfl
          · right
            intro data
            rw [List.flatMap_cons, List.append_assoc, List.cons_append, List.cons_append, printf_conversion,
              Conversion.put_unreadable readable]
            rfl

end Scanning

/-- Every format is plain text and conversions, up to the first percent sign without a letter. -/
theorem format_cases (fmt : List UInt8) (visible : 0 ∉ fmt) :
    ∃ (first : List UInt8) (directives : List (Conversion × List UInt8)), Plain first ∧
      (∀ directive ∈ directives, Plain directive.2) ∧ ∃ rest,
        fmt = first ++ (directives.flatMap fun directive => percent :: directive.1.letter :: directive.2) ++ rest ∧
        (rest = [] ∨ ∃ behind, rest = percent :: behind ∧ NoConversion behind) := by
  generalize size : fmt.length = length
  induction length using Nat.strongRecOn generalizing fmt with
  | ind length ih =>
      cases fmt with
      | nil => exact ⟨[], [], ⟨by simp, by simp⟩, by simp, [], rfl, .inl rfl⟩
      | cons c fmt =>
          have shown : c ≠ 0 := fun zero => visible (by simp [zero])
          by_cases sign : c = percent
          · subst sign
            cases found : fmt.head?.bind Conversion.ofLetter with
            | none =>
                refine ⟨[], [], ⟨by simp, by simp⟩, by simp, percent :: fmt, rfl, .inr ⟨fmt, rfl, ?_⟩⟩
                intro c isHead
                rw [isHead] at found
                exact found
            | some conversion =>
                obtain ⟨next, isHead, letter⟩ := Option.bind_eq_some_iff.mp found
                obtain ⟨fmt, rfl⟩ := List.head?_eq_some_iff.mp isHead
                obtain ⟨first, directives, plain, others, rest, rfl, ends⟩ :=
                  ih fmt.length (by rw [← size]; simp) fmt (fun zero => visible (by simp [zero])) rfl
                refine ⟨[], (conversion, first) :: directives, ⟨by simp, by simp⟩, ?_, rest, ?_, ends⟩
                · exact List.forall_mem_cons.mpr ⟨plain, others⟩
                · rw [← Conversion.letter_of_ofLetter letter]
                  simp
          · obtain ⟨first, directives, plain, others, rest, rfl, ends⟩ :=
              ih fmt.length (by rw [← size]; simp) fmt (fun zero => visible (by simp [zero])) rfl
            exact ⟨c :: first, directives, plain.cons shown sign, others, rest, rfl, ends⟩

section Outcomes

variable {bytesAt : UInt32 → List UInt8} {first : List UInt8} {pieces : List Piece} {unused : List UInt32}

theorem printf_returns (plain : Plain first) (valid : ∀ piece ∈ pieces, piece.Valid bytesAt) (tail : List UInt8) :
    printf bytesAt (first ++ pieces.flatMap Piece.source ++ 0 :: tail) (pieces.map Piece.arg ++ unused) =
      .ok (first ++ pieces.flatMap (Piece.output bytesAt)) := by
  have ended : printf bytesAt (0 :: tail) unused = .ok [] := by
    rw [printf.eq_def]
    rfl
  rw [List.append_assoc, printf_literal plain, printf_pieces pieces valid, ended]
  simp [Except.map]

theorem printf_traps (plain : Plain first) (valid : ∀ piece ∈ pieces, piece.Valid bytesAt) {rest : List UInt8}
    (bad : NoConversion rest) (tail : List UInt8) :
    printf bytesAt (first ++ pieces.flatMap Piece.source ++ percent :: rest ++ 0 :: tail)
      (pieces.map Piece.arg ++ unused) = .error .trap := by
  rw [List.append_assoc, List.append_assoc, printf_literal plain, printf_pieces pieces valid,
    printf_noConversion bad]
  rfl

end Outcomes

/-- `printf` returns exactly for formats whose percent signs all start a conversion, with an argument for
each of them, and puts the text with each conversion replaced by its argument; a percent sign that starts
none traps, once the conversions before it have found their arguments. -/
theorem printf_exact (bytesAt : UInt32 → List UInt8) (fmt : List UInt8) (visible : 0 ∉ fmt) (tail : List UInt8)
    (args : List UInt32) :
    (∀ out, printf bytesAt (fmt ++ 0 :: tail) args = .ok out ↔
      ∃ (first : List UInt8) (pieces : List Piece) (unused : List UInt32), Plain first ∧
        (∀ piece ∈ pieces, piece.Valid bytesAt) ∧ args = pieces.map Piece.arg ++ unused ∧
        fmt = first ++ pieces.flatMap Piece.source ∧ out = first ++ pieces.flatMap (Piece.output bytesAt)) ∧
    (printf bytesAt (fmt ++ 0 :: tail) args = .error .trap ↔
      ∃ (first : List UInt8) (pieces : List Piece) (unused : List UInt32) (rest : List UInt8), Plain first ∧
        (∀ piece ∈ pieces, piece.Valid bytesAt) ∧ args = pieces.map Piece.arg ++ unused ∧
        fmt = first ++ pieces.flatMap Piece.source ++ percent :: rest ∧ NoConversion rest) := by
  have returns {out : List UInt8} (holds : ∃ (first : List UInt8) (pieces : List Piece) (unused : List UInt32),
      Plain first ∧ (∀ piece ∈ pieces, piece.Valid bytesAt) ∧ args = pieces.map Piece.arg ++ unused ∧
      fmt = first ++ pieces.flatMap Piece.source ∧ out = first ++ pieces.flatMap (Piece.output bytesAt)) :
      printf bytesAt (fmt ++ 0 :: tail) args = .ok out := by
    obtain ⟨first, pieces, unused, plain, valid, rfl, rfl, rfl⟩ := holds
    exact printf_returns plain valid tail
  have traps (holds : ∃ (first : List UInt8) (pieces : List Piece) (unused : List UInt32) (rest : List UInt8),
      Plain first ∧ (∀ piece ∈ pieces, piece.Valid bytesAt) ∧ args = pieces.map Piece.arg ++ unused ∧
      fmt = first ++ pieces.flatMap Piece.source ++ percent :: rest ∧ NoConversion rest) :
      printf bytesAt (fmt ++ 0 :: tail) args = .error .trap := by
    obtain ⟨first, pieces, unused, rest, plain, valid, rfl, rfl, bad⟩ := holds
    exact printf_traps plain valid bad tail
  obtain ⟨first, directives, plain, others, rest, split, ends⟩ := format_cases fmt visible
  rcases printf_unsupplied bytesAt directives args others with
    ⟨pieces, unused, valid, same, supplied⟩ | endless
  · have source : directives.flatMap (fun directive => percent :: directive.1.letter :: directive.2) =
        pieces.flatMap Piece.source := by
      rw [← same, List.flatMap_map]
      rfl
    rw [source] at split
    rcases ends with rfl | ⟨behind, rfl, bad⟩
    · have result := returns ⟨first, pieces, unused, plain, valid, supplied, by rw [split, List.append_nil], rfl⟩
      refine ⟨fun out => ⟨fun printed => ?_, returns⟩, fun trapped => ?_, traps⟩
      · rw [result] at printed
        cases printed
        exact ⟨first, pieces, unused, plain, valid, supplied, by rw [split, List.append_nil], rfl⟩
      · rw [result] at trapped
        cases trapped
    · have here := traps ⟨first, pieces, unused, behind, plain, valid, supplied, split, bad⟩
      refine ⟨fun out => ⟨fun printed => ?_, returns⟩, fun _ => ?_, traps⟩
      · rw [here] at printed
        cases printed
      · exact ⟨first, pieces, unused, behind, plain, valid, supplied, split, bad⟩
  · have outside : printf bytesAt (fmt ++ 0 :: tail) args = .error .outOfBounds := by
      rw [split, List.append_assoc, List.append_assoc, printf_literal plain, endless]
      rfl
    refine ⟨fun out => ⟨fun printed => ?_, returns⟩, fun trapped => ?_, traps⟩
    · rw [outside] at printed
      cases printed
    · rw [outside] at trapped
      cases trapped

theorem bytesFrom_text {memory : Memory} {address : UInt32} {text : List UInt8}
    (stored : TextAt memory address.toNat text) : ∃ tail, bytesFrom memory address = text ++ 0 :: tail := by
  have bounded := stored.bounded
  have count : 4294967296 - address.toNat = text.length + (1 + (4294967295 - address.toNat - text.length)) := by
    omega
  refine ⟨(List.range (4294967295 - address.toNat - text.length)).map fun index =>
    memory (address.toNat + (text.length + (1 + index))), ?_⟩
  rw [bytesFrom, count, List.range_add, List.map_append, List.map_map, List.range_add, List.map_append,
    List.map_map]
  congr 1
  · refine List.ext_getElem (by simp) fun index inside _ => ?_
    rw [List.length_map, List.length_range] at inside
    simpa using stored.chars index inside
  · simpa using stored.ended

/-- A format with one conversion, of a string. -/
theorem printf_string (front back : List UInt8) {bytesAt : UInt32 → List UInt8} {address : UInt32}
    {text tail : List UInt8} (bytes : bytesAt address = text ++ 0 :: tail) (visible : 0 ∉ text)
    (plain : Plain front) (behind : Plain back) :
    printf bytesAt (front ++ percent :: 115 :: (back ++ [0])) [address] = .ok (front ++ (text ++ back)) := by
  have put : Conversion.string.put bytesAt address = .ok text := by
    show printString (bytesAt address) = _
    rw [bytes, printString_text visible]
  have ended : printf bytesAt [0] [] = .ok [] := rfl
  have converted : printf bytesAt (percent :: 115 :: (back ++ [0])) [address] = .ok (text ++ back) := by
    show printf bytesAt (percent :: Conversion.string.letter :: (back ++ [0])) [address] = _
    rw [printf_conversion, put, printf_literal behind, ended]
    simp [Except.map, Except.bind]
  rw [printf_literal plain, converted]
  rfl

theorem printf_stored (front back : List UInt8) {memory : Memory} {address : UInt32} {text : List UInt8}
    (stored : TextAt memory address.toNat text) (plain : Plain front) (behind : Plain back) :
    printf (bytesFrom memory) (front ++ percent :: 115 :: (back ++ [0])) [address] = .ok (front ++ (text ++ back)) := by
  obtain ⟨tail, bytes⟩ := bytesFrom_text stored
  exact printf_string front back bytes stored.visible plain behind

/-- "%d%%" traps at the second percent sign. -/
theorem printf_exact_percent : printf (fun _ => []) ([percent, 100, percent, percent] ++ 0 :: []) [7] =
    .error .trap :=
  (printf_exact (fun _ => []) [percent, 100, percent, percent] (by decide) [] [7]).2.mpr
    ⟨[], [⟨.decimal, 7, []⟩], [], [percent], ⟨by decide, by decide⟩, by simp; exact ⟨trivial, ⟨by simp, by simp⟩⟩,
      rfl, rfl, by simp [NoConversion]; decide⟩

end ToyKernel.Libc
