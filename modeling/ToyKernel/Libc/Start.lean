import ToyKernel.Library.Buffer
import ToyKernel.Library.Stack

/-!
The end of a user program: `_start` of `libc/crt0.S`, the results of `pre_main` of
`libc/pre-main.cpp`, and the dispatch of `kernel/syscall.cpp`.
-/

namespace ToyKernel.Libc

open Library

section Kernel

inductive Syscall
  | debugWrite | exitUserTask | debugRead | createUserTask | destroyUserTask | copyFromTask
  | getParentTask | getParentTaskId | mapPage | sharePage | unmapPage | getCurrentTask
deriving DecidableEq, Repr

def kSyscalls : List Syscall :=
  [.debugWrite, .exitUserTask, .debugRead, .createUserTask, .destroyUserTask, .copyFromTask,
    .getParentTask, .getParentTaskId, .mapPage, .sharePage, .unmapPage, .getCurrentTask]

inductive HandlerFault
  | kernelTask | invalidSyscall
deriving DecidableEq, Repr

def syscallHandler (isUserTask : Bool) (eax : UInt32) : Except HandlerFault Syscall := do
  require (isUserTask = true) .kernelTask
  require (eax.toNat < kSyscalls.length) .invalidSyscall
  peek .invalidSyscall kSyscalls eax.toNat

end Kernel

section Program

def mapUnalignedAddr : Int32 := -1

def mapAlreadyMapped : Int32 := -2

def mapOom : Int32 := -3

def kExitFailure : Int32 := -1

/-- What `pre_main` finds: the answer to the request for the heap page, and the result of `main` for
the argument that it is given. -/
structure Startup where
  mapPage : Int32
  main : UInt32 → Int32

def preMain (startup : Startup) (argPtr : UInt32) : Int32 :=
  if startup.mapPage = mapUnalignedAddr then kExitFailure
  else if startup.mapPage = mapAlreadyMapped then kExitFailure
  else if startup.mapPage = mapOom then kExitFailure
  else startup.main argPtr

inductive Instr
  | pushEsp
  | callPreMain
  | testEax
  | jnz (target : Nat)
  | addEsp (bytes : UInt32)
  | movEax (value : UInt32)
  | int
  | jmp (target : Nat)

def start : List Instr :=
  [.pushEsp, .callPreMain, .testEax, .jnz 6, .addEsp 4, .movEax 1, .int, .jmp 7]

structure Context where
  eax : UInt32
  esp : UInt32
  zeroFlag : Bool
  eip : Nat
  memory : UInt32 → UInt8

/-- All but the interrupt, which hands over to the kernel. -/
def execute (startup : Startup) (context : Context) : Instr → Context
  | .pushEsp =>
      { context with
        esp := context.esp - 4
        memory := store32 id (context.esp - 4) context.esp context.memory
        eip := context.eip + 1 }
  | .callPreMain =>
      { context with
        eax := (preMain startup (load32 id context.esp context.memory)).toUInt32
        eip := context.eip + 1 }
  | .testEax => { context with zeroFlag := context.eax &&& context.eax == 0, eip := context.eip + 1 }
  | .jnz target => { context with eip := if context.zeroFlag then context.eip + 1 else target }
  | .addEsp bytes => { context with esp := context.esp + bytes, eip := context.eip + 1 }
  | .movEax value => { context with eax := value, eip := context.eip + 1 }
  | .int => { context with eip := context.eip + 1 }
  | .jmp target => { context with eip := target }

def nextSyscall (startup : Startup) : Nat → Context → Option UInt32
  | 0, _ => none
  | fuel + 1, context =>
      match start[context.eip]? with
      | none => none
      | some .int => some context.eax
      | some instr => nextSyscall startup fuel (execute startup context instr)

end Program

section Exit

variable {startup : Startup} {context : Context} {number : UInt32}

def Startup.HeapReady (startup : Startup) : Prop :=
  startup.mapPage ≠ mapUnalignedAddr ∧ startup.mapPage ≠ mapAlreadyMapped ∧ startup.mapPage ≠ mapOom

theorem preMain_ready (ready : startup.HeapReady) (argPtr : UInt32) :
    preMain startup argPtr = startup.main argPtr := by
  rw [preMain, if_neg ready.1, if_neg ready.2.1, if_neg ready.2.2]

theorem preMain_failure (failed : ¬startup.HeapReady) (argPtr : UInt32) :
    preMain startup argPtr = kExitFailure := by
  unfold preMain
  split
  · rfl
  · rename_i aligned
    split
    · rfl
    · rename_i unmapped
      split
      · rfl
      · rename_i room
        exact absurd ⟨aligned, unmapped, room⟩ failed

theorem toUInt32_inj {first second : Int32} : first.toUInt32 = second.toUInt32 ↔ first = second := by
  constructor
  · intro same
    cases first
    cases second
    cases same
    rfl
  · rintro rfl
    rfl

theorem nextSyscall_int {fuel : Nat} (found : start[context.eip]? = some .int) :
    nextSyscall startup (fuel + 1) context = some context.eax := by
  rw [nextSyscall, found]

theorem nextSyscall_step {fuel : Nat} {instr : Instr} (found : start[context.eip]? = some instr)
    (other : instr ≠ .int) :
    nextSyscall startup (fuel + 1) context = nextSyscall startup fuel (execute startup context instr) := by
  rw [nextSyscall, found]
  cases instr <;> first | rfl | exact absurd rfl other

theorem nextSyscall_result (fuel : Nat) (returned esp : UInt32) (zeroFlag : Bool) (memory : UInt32 → UInt8) :
    nextSyscall startup (fuel + 5) ⟨returned, esp, zeroFlag, 2, memory⟩ =
      some (if returned = 0 then 1 else returned) := by
  have tested : execute startup ⟨returned, esp, zeroFlag, 2, memory⟩ .testEax =
      ⟨returned, esp, decide (returned = 0), 3, memory⟩ := by
    rw [execute, UInt32.and_self, beq_eq_decide]
  rw [nextSyscall_step rfl Instr.noConfusion, tested, nextSyscall_step rfl Instr.noConfusion]
  by_cases zero : returned = 0
  · have falls : execute startup ⟨returned, esp, decide (returned = 0), 3, memory⟩ (.jnz 6) =
        ⟨returned, esp, decide (returned = 0), 4, memory⟩ := by
      rw [execute, if_pos (decide_eq_true zero)]
    rw [if_pos zero, falls, nextSyscall_step rfl Instr.noConfusion, nextSyscall_step rfl Instr.noConfusion,
      nextSyscall_int rfl]
    rfl
  · have jumps : execute startup ⟨returned, esp, decide (returned = 0), 3, memory⟩ (.jnz 6) =
        ⟨returned, esp, decide (returned = 0), 6, memory⟩ := by
      rw [execute, if_neg (by simpa using zero)]
    rw [if_neg zero, jumps, nextSyscall_int rfl]

/-- `pre_main` is given the stack pointer of the entry, and only its zero is replaced. -/
theorem nextSyscall_eq (entry : context.eip = 0) {fuel : Nat} (enough : start.length ≤ fuel) :
    nextSyscall startup fuel context =
      some (if preMain startup context.esp = 0 then 1 else (preMain startup context.esp).toUInt32) := by
  obtain ⟨more, rfl⟩ : ∃ more, fuel = more + 5 + 1 + 1 := ⟨fuel - 7, by simp [start] at enough; omega⟩
  obtain ⟨eax, esp, zeroFlag, eip, memory⟩ := context
  cases entry
  have argument : load32 id (esp - 4) (store32 id (esp - 4) esp memory) = esp :=
    load32_store32 Function.injective_id _ _ _
  have zero : (preMain startup esp).toUInt32 = 0 ↔ preMain startup esp = 0 := @toUInt32_inj _ 0
  rw [nextSyscall_step rfl Instr.noConfusion, nextSyscall_step rfl Instr.noConfusion, execute, execute]
  dsimp only
  rw [argument, nextSyscall_result]
  simp only [zero]

theorem syscallHandler_valid_iff : syscallHandler true number ≠ .error .invalidSyscall ↔ number < 12 := by
  have size : number < 12 ↔ number.toNat < kSyscalls.length := UInt32.lt_iff_toNat_lt
  rw [size, syscallHandler, require_of rfl, ok_bind]
  by_cases inside : number.toNat < kSyscalls.length
  · rw [require_of inside, ok_bind, peek_eq _ inside]
    exact ⟨fun _ => inside, fun _ failed => by cases failed⟩
  · rw [require, if_neg inside]
    exact ⟨fun known => absurd rfl known, fun impossible => absurd impossible inside⟩

/-- The program ends through the exit call exactly if the heap was set up and `main` returned zero or
one. -/
theorem start_exits_iff (startup : Startup) (context : Context) (entry : context.eip = 0) {fuel : Nat}
    (enough : start.length ≤ fuel) :
    ∃ number, nextSyscall startup fuel context = some number ∧
      (number = 1 ∧ syscallHandler true number = .ok .exitUserTask ↔
        startup.HeapReady ∧ (startup.main context.esp = 0 ∨ startup.main context.esp = 1)) ∧
      (syscallHandler true number ≠ .error .invalidSyscall ↔
        startup.HeapReady ∧ (startup.main context.esp).toUInt32 < 12) := by
  refine ⟨_, nextSyscall_eq entry enough, ?_, ?_⟩
  · by_cases ready : startup.HeapReady
    · have one : (startup.main context.esp).toUInt32 = 1 ↔ startup.main context.esp = 1 := @toUInt32_inj _ 1
      rw [preMain_ready ready, and_iff_right ready]
      by_cases success : startup.main context.esp = 0
      · rw [if_pos success]
        exact ⟨fun _ => .inl success, fun _ => ⟨rfl, rfl⟩⟩
      · rw [if_neg success, one, or_iff_right success]
        refine ⟨And.left, fun same => ⟨same, ?_⟩⟩
        rw [same]
        rfl
    · rw [preMain_failure ready]
      exact ⟨fun impossible => absurd impossible.1 (by decide), fun impossible => absurd impossible.1 ready⟩
  · rw [syscallHandler_valid_iff]
    by_cases ready : startup.HeapReady
    · rw [preMain_ready ready, and_iff_right ready]
      by_cases success : startup.main context.esp = 0
      · rw [if_pos success, success]
        decide
      · rw [if_neg success]
    · rw [preMain_failure ready]
      exact ⟨fun impossible => absurd impossible (by decide), fun impossible => absurd impossible.1 ready⟩

/-- `main` returns -1 after the heap was set up. -/
theorem start_failure_number :
    nextSyscall ⟨0, fun _ => -1⟩ start.length ⟨0, 0xBFFFFFFC, false, 0, fun _ => 0⟩ = some 4294967295 ∧
      syscallHandler true 4294967295 = .error .invalidSyscall := by
  refine ⟨?_, rfl⟩
  rw [nextSyscall_eq rfl (Nat.le_refl _)]
  rfl

/-- `main` returns zero. -/
theorem start_exits_iff_zero : ∃ number,
    nextSyscall ⟨0, fun _ => 0⟩ start.length ⟨0, 0xBFFFFFFC, false, 0, fun _ => 0⟩ = some number ∧
      number = 1 ∧ syscallHandler true number = .ok .exitUserTask := by
  obtain ⟨number, next, exits, _⟩ :=
    start_exits_iff ⟨0, fun _ => 0⟩ ⟨0, 0xBFFFFFFC, false, 0, fun _ => 0⟩ rfl (Nat.le_refl _)
  exact ⟨number, next, exits.mpr ⟨⟨by decide, by decide, by decide⟩, .inl rfl⟩⟩

end Exit

end ToyKernel.Libc
