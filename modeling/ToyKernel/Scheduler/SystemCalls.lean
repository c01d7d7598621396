import ToyKernel.Libc.Start
import ToyKernel.Scheduler.Interrupts

/-!
System calls on the machine: the wrappers of `libc/_syscalls.cpp`, the way through the gate and the stub to
`SyscallHandler` of `kernel/syscall.cpp`, and back. What the called function of the kernel does is a parameter.
-/

namespace ToyKernel

open Library

inductive Invocation
  | debugPrint (str : UInt32)
  | exitTask
  | debugRead (c : UInt32)
  | createTask (entry codesize arg handle entryOffset : UInt32)
  | destroyTask (handle : UInt32)
  | copyFromTask (handle dst src size : UInt32)
  | getParentTask (handle : UInt32)
  | getParentTaskId (id : UInt32)
  | mapPage (addr : UInt32)
  | sharePage (handle dst src : UInt32)
  | unmapPage (dst : UInt32)
  | getCurrentTask (handle : UInt32)
deriving DecidableEq, Repr

namespace Invocation

def registers (cpu : Cpu) : Invocation → Cpu
  | debugPrint str => { cpu with eax := 0, ebx := str }
  | exitTask => { cpu with eax := 1 }
  | debugRead c => { cpu with eax := 2, ebx := c }
  | createTask entry codesize arg handle entryOffset =>
      { cpu with eax := 3, ebx := entry, ecx := codesize, edx := arg, esi := handle, edi := entryOffset }
  | destroyTask handle => { cpu with eax := 4, ebx := handle }
  | copyFromTask handle dst src size => { cpu with eax := 5, ebx := handle, ecx := dst, edx := src, esi := size }
  | getParentTask handle => { cpu with eax := 6, ebx := handle }
  | getParentTaskId id => { cpu with eax := 7, ebx := id }
  | mapPage addr => { cpu with eax := 8, ebx := addr }
  | sharePage handle dst src => { cpu with eax := 9, ebx := handle, ecx := dst, edx := src }
  | unmapPage dst => { cpu with eax := 10, ebx := dst }
  | getCurrentTask handle => { cpu with eax := 11, ebx := handle }

def syscall : Invocation → Libc.Syscall
  | debugPrint _ => .debugWrite
  | exitTask => .exitUserTask
  | debugRead _ => .debugRead
  | createTask _ _ _ _ _ => .createUserTask
  | destroyTask _ => .destroyUserTask
  | copyFromTask _ _ _ _ => .copyFromTask
  | getParentTask _ => .getParentTask
  | getParentTaskId _ => .getParentTaskId
  | mapPage _ => .mapPage
  | sharePage _ _ _ => .sharePage
  | unmapPage _ => .unmapPage
  | getCurrentTask _ => .getCurrentTask

def arguments : Invocation → List UInt32
  | debugPrint str => [str]
  | exitTask => []
  | debugRead c => [c]
  | createTask entry codesize arg handle entryOffset => [entry, codesize, arg, handle, entryOffset]
  | destroyTask handle => [handle]
  | copyFromTask handle dst src size => [handle, dst, src, size]
  | getParentTask handle => [handle]
  | getParentTaskId id => [id]
  | mapPage addr => [addr]
  | sharePage handle dst src => [handle, dst, src]
  | unmapPage dst => [dst]
  | getCurrentTask handle => [handle]

end Invocation

inductive SystemCallFault
  | trap (fault : TrapFault)
  | handler (fault : Libc.HandlerFault)
  | panic (panic : Panic)
  | otherHandler
deriving DecidableEq, Repr

/-- A function of the kernel, which takes as many of the words on the stack as it has parameters. -/
abbrev Routines := Libc.Syscall → List UInt32 → Machine → Except SystemCallFault (UInt32 × Machine)

namespace Machine

def invoke (invocation : Invocation) (machine : Machine) : Machine :=
  { machine with cpu := invocation.registers machine.cpu }

def storeWord (address value : UInt32) (machine : Machine) : Machine :=
  { machine with memory := store32 machine.view address value machine.memory }

/-- The handler pushes the registers from `edi` to `ebx`; the last word pushed is the first parameter. -/
def pushedParameters (regs : X86Registers) : List UInt32 := [regs.edi, regs.esi, regs.edx, regs.ecx, regs.ebx]

def syscallHandler (routines : Routines) (pointer : UInt32) (entered : Machine) :
    Except SystemCallFault Machine := do
  let regs := entered.readRegisters pointer
  let current ← entered.scheduler.getCurrentTask.mapError .panic
  let entry ← (entered.scheduler.getTask current).mapError .panic
  let syscall ← (Libc.syscallHandler entry.isUserTask regs.eax).mapError .handler
  let result ← routines syscall (pushedParameters regs).reverse entered
  return result.2.storeWord (pointer + 32) result.1

def systemCall (code : StubCode) (routines : Routines) (limit : Nat) (scratch : Scratch) (machine : Machine) :
    Except SystemCallFault Machine := do
  let answer ← (machine.intInstruction code limit scratch 128).mapError .trap
  match answer with
  | .calls .syscallHandler entered => do
      let pointer := entered.cpu.esp + 4
      let answered ← syscallHandler routines pointer entered
      return answered.restoreRegisters pointer
  | _ => .error .otherHandler

section Calls

variable {machine left : Machine} {code : StubCode} {routines : Routines} {limit : Nat} {scratch : Scratch}
  {invocation : Invocation}

theorem invoke_syscall (cpu : Cpu) :
    Libc.syscallHandler true (invocation.registers cpu).eax = .ok invocation.syscall := by
  cases invocation <;> rfl

def parameterWords (cpu : Cpu) : List UInt32 := [cpu.ebx, cpu.ecx, cpu.edx, cpu.esi, cpu.edi]

theorem invoke_arguments (cpu : Cpu) : ∃ rest, parameterWords (invocation.registers cpu) = invocation.arguments ++ rest := by
  cases invocation with
  | debugPrint str => exact ⟨[cpu.ecx, cpu.edx, cpu.esi, cpu.edi], rfl⟩
  | exitTask => exact ⟨parameterWords cpu, rfl⟩
  | debugRead c => exact ⟨[cpu.ecx, cpu.edx, cpu.esi, cpu.edi], rfl⟩
  | createTask entry codesize arg handle entryOffset => exact ⟨[], rfl⟩
  | destroyTask handle => exact ⟨[cpu.ecx, cpu.edx, cpu.esi, cpu.edi], rfl⟩
  | copyFromTask handle dst src size => exact ⟨[cpu.edi], rfl⟩
  | getParentTask handle => exact ⟨[cpu.ecx, cpu.edx, cpu.esi, cpu.edi], rfl⟩
  | getParentTaskId id => exact ⟨[cpu.ecx, cpu.edx, cpu.esi, cpu.edi], rfl⟩
  | mapPage addr => exact ⟨[cpu.ecx, cpu.edx, cpu.esi, cpu.edi], rfl⟩
  | sharePage handle dst src => exact ⟨[cpu.esi, cpu.edi], rfl⟩
  | unmapPage dst => exact ⟨[cpu.ecx, cpu.edx, cpu.esi, cpu.edi], rfl⟩
  | getCurrentTask handle => exact ⟨[cpu.ecx, cpu.edx, cpu.esi, cpu.edi], rfl⟩

theorem invoke_same : SameSystem machine (machine.invoke invocation) := ⟨rfl, rfl, rfl, rfl⟩

theorem invoke_stackTop : (machine.invoke invocation).stackTop = machine.stackTop := by
  cases invocation <;> rfl

theorem isrHandler_systemCall : isrHandler limit scratch (machine.interrupt.trapStub 0 128) =
    .ok (.calls .syscallHandler ((machine.interrupt.trapStub 0 128).call scratch)) := by
  have pointer : (machine.interrupt.trapStub 0 128).cpu.esp + 4 = machine.base - 56 := by
    rw [trap_esp]
    grind
  rw [isrHandler, require_of (trap_interruptsAreEnabled 0 128), ok_bind, pointer, trap_readRegisters]
  rfl

/-- The way in: the handler calls the function that the call is meant for, with the arguments in their places. -/
theorem syscallHandler_calls {current : Nat} {entry : ScheduledTask}
    (isCurrent : machine.scheduler.currentTask = some current) (found : machine.scheduler.tasks current = some entry)
    (isUser : entry.isUserTask = true) : ∃ rest, syscallHandler routines ((machine.invoke invocation).base - 56)
      (((machine.invoke invocation).interrupt.trapStub 0 128).call scratch) =
        (routines invocation.syscall (invocation.arguments ++ rest)
          (((machine.invoke invocation).interrupt.trapStub 0 128).call scratch)).map
            fun result => result.2.storeWord ((machine.invoke invocation).base - 56 + 32) result.1 := by
  obtain ⟨rest, isWords⟩ := @invoke_arguments invocation machine.cpu
  have same := (@invoke_same machine invocation).trans
    ((@trap_same (machine.invoke invocation) 0 128).trans (call_same scratch))
  refine ⟨rest, ?_⟩
  rw [syscallHandler, same.scheduler, Scheduler.getCurrentTask_eq isCurrent, Except.mapError, ok_bind,
    Scheduler.getTask_eq found, Except.mapError, ok_bind, isUser, trap_readRegisters]
  have number : Libc.syscallHandler true (machine.invoke invocation).cpu.eax = .ok invocation.syscall :=
    invoke_syscall machine.cpu
  dsimp only
  rw [number, Except.mapError, ok_bind, ← isWords]
  rfl

/-- A system call of a user task reaches the function of the kernel that it is meant for, with every argument
in the place of the parameter it is meant for; and when that function returns, without having written to the
frame of the interrupt, the task goes on behind the call with the answer in `eax` and all its other registers
as they were. -/
theorem systemCall_roundTrip (machine : Machine) (code : StubCode) (routines : Routines) (limit : Nat)
    (scratch : Scratch) (invocation : Invocation) {current : Nat} {entry : ScheduledTask}
    (isCurrent : machine.scheduler.currentTask = some current)
    (found : machine.scheduler.tasks current = some entry) (isUser : entry.isUserTask = true) :
    ∃ rest entered, SameSystem machine entered ∧
      (∀ location, ¬Below machine.view machine.stackTop (136 + scratch.depth) location →
        entered.memory location = machine.memory location) ∧
      (∀ fault, routines invocation.syscall (invocation.arguments ++ rest) entered = .error fault →
        (machine.invoke invocation).systemCall code routines limit scratch = .error fault) ∧
      ∀ ret left, routines invocation.syscall (invocation.arguments ++ rest) entered = .ok (ret, left) →
        Keeps (machine.invoke invocation) entered left →
        ∃ after, (machine.invoke invocation).systemCall code routines limit scratch = .ok after ∧
          after.cpu = continued (invocation.registers machine.cpu) ret ∧ SameSystem left after ∧
          ∀ location, ¬Below machine.view machine.stackTop (136 + scratch.depth) location →
            after.memory location = left.memory location := by
  obtain ⟨rest, called⟩ :=
    @syscallHandler_calls machine routines scratch invocation current entry isCurrent found isUser
  have same := (@invoke_same machine invocation).trans
    ((@trap_same (machine.invoke invocation) 0 128).trans (call_same scratch))
  have returns : (machine.invoke invocation).systemCall code routines limit scratch = ((routines invocation.syscall
      (invocation.arguments ++ rest) (((machine.invoke invocation).interrupt.trapStub 0 128).call scratch)).map
        fun result => result.2.storeWord ((machine.invoke invocation).base - 56 + 32) result.1).map
          (restoreRegisters ((machine.invoke invocation).base - 56)) := by
    have pointer : (((machine.invoke invocation).interrupt.trapStub 0 128).call scratch).cpu.esp + 4 =
        (machine.invoke invocation).base - 56 := by
      change ((machine.invoke invocation).interrupt.trapStub 0 128).cpu.esp + 4 = _
      rw [trap_esp]
      grind
    rw [systemCall, intInstruction, raise_systemCall]
    dsimp only
    rw [isrHandler_systemCall, Except.mapError, ok_bind]
    dsimp only
    rw [pointer, called]
    cases routines invocation.syscall (invocation.arguments ++ rest)
      (((machine.invoke invocation).interrupt.trapStub 0 128).call scratch) with
    | error fault => rfl
    | ok result => rfl
  have enters (location : Location) (outside : ¬Below machine.view machine.stackTop (136 + scratch.depth) location) :
      (((machine.invoke invocation).interrupt.trapStub 0 128).call scratch).memory location =
        machine.memory location := by
    rw [← @invoke_stackTop machine invocation] at outside
    exact call_trap_other 128 outside
  refine ⟨rest, _, same, enters, ?_, ?_⟩
  · intro fault failed
    rw [returns, failed]
    rfl
  · intro ret left done keeps
    have view : left.view = machine.view := keeps.view
    have slot : (machine.invoke invocation).base - 56 + 32 = (machine.invoke invocation).base - 24 := by grind
    rw [returns, done]
    refine ⟨_, rfl, ?_⟩
    dsimp only
    rw [slot, storeWord, keeps.answers]
    refine ⟨rfl, ⟨rfl, rfl, rfl, rfl⟩, fun location outside => ?_⟩
    obtain ⟨skipped, few, isBase, _⟩ := @base_stackTop (machine.invoke invocation)
    have address : (machine.invoke invocation).base - 24 =
        machine.stackTop - UInt32.ofNat (skipped + 20) - 4 := by
      rw [isBase, invoke_stackTop, UInt32.ofNat_add, show UInt32.ofNat 20 = 20 from rfl]
      grind
    dsimp only
    rw [address, view]
    exact store32_other fun below => outside (below.shift.mono (by omega))

def onlyTask : Machine where
  cpu := { kernelCpu with cs := kUserCodeSegment }
  memory _ := 0
  pageDirectory := .region 0
  esp0 := 0x2001000
  tick := 0
  scheduler :=
    { Scheduler.uninitialized.setTask 1 (some userTask.entry) with currentTask := some 1 }

theorem systemCall_roundTrip_mapPage : ∃ after,
    (onlyTask.invoke (.mapPage 0x40000000)).systemCall stubCode (fun _ _ entered => .ok (7, entered)) 2 noScratch =
      .ok after ∧
    after.cpu = continued ((Invocation.mapPage 0x40000000).registers onlyTask.cpu) 7 := by
  obtain ⟨rest, entered, _, _, _, returns⟩ := @systemCall_roundTrip onlyTask stubCode
    (fun _ _ entered => .ok (7, entered)) 2 noScratch (.mapPage 0x40000000) 1 userTask.entry rfl rfl rfl
  obtain ⟨after, done, cpu, _⟩ := returns 7 entered rfl ⟨rfl, rfl, rfl, fun _ _ => rfl⟩
  exact ⟨after, done, cpu⟩

end Calls

end Machine

end ToyKernel
