import ToyKernel.Print.Numbers

/-!
Format strings of `utils/include/print.h`: each placeholder is replaced by the next argument, and
everything between placeholders is put as it is.
-/

namespace ToyKernel.Print

open Library

def Arg.Terminated : Arg → Prop
  | .string str => 0 ∈ str
  | _ => True

structure Literal (text : List UInt8) : Prop where
  visible : 0 ∉ text
  plain : openBrace ∉ text

def format (first : List UInt8) (literals : List (List UInt8)) : List UInt8 :=
  first ++ literals.flatMap fun literal => openBrace :: closeBrace :: literal

def shown (arg : Arg) : List UInt8 := (printFormatter arg).toOption.getD []

section Arguments

theorem printString_ok {str : List UInt8} (terminated : 0 ∈ str) : ∃ text, printString str = .ok text := by
  induction str with
  | nil => cases terminated
  | cons c str ih =>
      rw [printString]
      split
      · exact ⟨[], rfl⟩
      · rename_i visible
        obtain ⟨text, printed⟩ := ih ((List.mem_cons.mp terminated).resolve_left (Ne.symm visible))
        exact ⟨c :: text, by rw [printed]; rfl⟩

theorem printFormatter_ok {arg : Arg} (terminated : arg.Terminated) : ∃ text, printFormatter arg = .ok text := by
  cases arg with
  | uint8 val => exact ⟨_, printDecimalInt32_eq _⟩
  | uint16 val => exact ⟨_, printDecimalInt32_eq _⟩
  | uint32 val => exact ⟨_, printDecimalUInt32_eq val⟩
  | uint64 val => exact ⟨_, printDecimalUInt64_eq val⟩
  | unsignedLong val => exact ⟨_, printDecimalUInt32_eq val⟩
  | int8 val => exact ⟨_, printDecimalInt32_eq _⟩
  | int16 val => exact ⟨_, printDecimalInt32_eq _⟩
  | int32 val => exact ⟨_, printDecimalInt32_eq val⟩
  | string str => exact printString_ok terminated
  | bool b => cases b <;> exact ⟨_, rfl⟩
  | _ => exact ⟨_, rfl⟩

theorem printFormatter_shown {arg : Arg} (terminated : arg.Terminated) : printFormatter arg = .ok (shown arg) := by
  obtain ⟨text, printed⟩ := printFormatter_ok terminated
  rw [shown, printed]
  rfl

end Arguments

section Scanning

variable {val : Arg} {others : List UInt8 → Except PrintFault (List UInt8)} {literal text data out : List UInt8}

/-- For the last argument the loop goes on where the others would take over. -/
theorem printLast_eq (val : Arg) (data : List UInt8) : printLast val data = printFirst val (printLast val) data := by
  induction data with
  | nil => rfl
  | cons c data ih => rw [printLast, printFirst, ← ih]

theorem printFirst_literal (isLiteral : Literal literal) (printed : printFirst val others data = .ok out) :
    printFirst val others (literal ++ data) = .ok (literal ++ out) := by
  induction literal with
  | nil => exact printed
  | cons c literal ih =>
      have visible : c ≠ 0 := fun zero => isLiteral.visible (by simp [zero])
      have plain : c ≠ openBrace := fun brace => isLiteral.plain (by simp [brace])
      have rest : Literal literal :=
        ⟨fun zero => isLiteral.visible (by simp [zero]), fun brace => isLiteral.plain (by simp [brace])⟩
      rw [List.cons_append, printFirst, if_neg visible, if_neg plain, ih rest, ok_bind]
      rfl

theorem printFirst_placeholder (formatted : printFormatter val = .ok text) (printed : others data = .ok out) :
    printFirst val others (openBrace :: closeBrace :: data) = .ok (text ++ out) := by
  rw [printFirst, if_neg (by decide), if_pos rfl, formatted, ok_bind]
  dsimp only
  rw [require_of rfl, ok_bind, printed, ok_bind]
  rfl

theorem printLast_literal (val : Arg) (isLiteral : Literal literal) (tail : List UInt8) :
    printLast val (literal ++ 0 :: tail) = .ok (literal ++ []) := by
  rw [printLast_eq]
  exact printFirst_literal isLiteral rfl

end Scanning

/-- By induction on the arguments: the literal behind a placeholder is the first of what is left. -/
theorem print_pieces (first : List UInt8) (piece : Arg × List UInt8) (pieces : List (Arg × List UInt8))
    (isFirst : Literal first) (literals : ∀ other ∈ piece :: pieces, Literal other.2)
    (terminated : ∀ other ∈ piece :: pieces, other.1.Terminated) (tail : List UInt8) :
    print ((piece :: pieces).map Prod.fst) (format first ((piece :: pieces).map Prod.snd) ++ 0 :: tail) =
      .ok (first ++ (piece :: pieces).flatMap fun other => shown other.1 ++ other.2) := by
  induction pieces generalizing first piece with
  | nil =>
      have formatted := printFormatter_shown (terminated piece List.mem_cons_self)
      have behind := printLast_literal piece.1 (literals piece List.mem_cons_self) tail
      have printed := printFirst_literal isFirst (printFirst_placeholder formatted behind)
      rw [← printLast_eq] at printed
      simpa [print, format] using printed
  | cons next pieces ih =>
      have formatted := printFormatter_shown (terminated piece List.mem_cons_self)
      have rest := ih piece.2 next (literals piece List.mem_cons_self)
        (fun other member => literals other (List.mem_cons_of_mem _ member))
        (fun other member => terminated other (List.mem_cons_of_mem _ member))
      have printed := printFirst_literal isFirst (printFirst_placeholder formatted rest)
      simpa [print, format] using printed

/-- At least one argument. -/
theorem print_interleaves (first : List UInt8) (pieces : List (Arg × List UInt8)) (nonempty : pieces ≠ [])
    (isFirst : Literal first) (literals : ∀ piece ∈ pieces, Literal piece.2)
    (terminated : ∀ piece ∈ pieces, piece.1.Terminated) (tail : List UInt8) :
    (∀ piece ∈ pieces, printFormatter piece.1 = .ok (shown piece.1)) ∧
      print (pieces.map Prod.fst) (format first (pieces.map Prod.snd) ++ 0 :: tail) =
        .ok (first ++ pieces.flatMap fun piece => shown piece.1 ++ piece.2) := by
  obtain ⟨piece, rest, rfl⟩ := List.exists_cons_of_ne_nil nonempty
  exact ⟨fun other member => printFormatter_shown (terminated other member),
    print_pieces first piece rest isFirst literals terminated tail⟩

/-- "x", a boolean, a brace that closes nothing, and a string. -/
theorem print_interleaves_two : print [.bool true, .string [104, 105, 0]]
    (format [120] [[closeBrace], []] ++ [0]) =
      .ok ([120] ++ (chars ['t', 'r', 'u', 'e'] ++ [closeBrace] ++ [104, 105])) :=
  (print_interleaves [120] [(.bool true, [closeBrace]), (.string [104, 105, 0], [])] (by decide)
    ⟨by decide, by decide⟩ (by simp; exact ⟨⟨by decide, by decide⟩, by decide, by decide⟩)
    (by simp [Arg.Terminated]) []).2

end ToyKernel.Print
