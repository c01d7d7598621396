import ToyKernel.Library.Stack
import ToyKernel.Scheduler.Model

/-!
The processor side of a context switch: the interrupt frame, the stub of
`kernel/interrupt.S`, the timer handler and the routines of `kernel/task.S`. Segments
are flat, and every address is mapped: replicated kernel addresses are the same bytes
in all address spaces, all others belong to one page directory.
-/

namespace ToyKernel

open Library

abbrev Location := PageDirPtr × UInt32

def locate (pd : PageDirPtr) (address : UInt32) : Location :=
  if isReplicated address then (.kernel, address) else (pd, address)

structure Cpu where
  eax : UInt32
  ecx : UInt32
  edx : UInt32
  ebx : UInt32
  esp : UInt32
  ebp : UInt32
  esi : UInt32
  edi : UInt32
  eip : UInt32
  eflags : UInt32
  cs : UInt16
  ds : UInt16
  es : UInt16
  fs : UInt16
  gs : UInt16
  ss : UInt16
deriving DecidableEq, Repr

structure Machine where
  cpu : Cpu
  memory : Location → UInt8
  pageDirectory : PageDirPtr
  esp0 : UInt32
  tick : UInt32
  scheduler : Scheduler

def X86TaskRegs.word (regs : X86TaskRegs) : Nat → UInt32
  | 0 => regs.esp
  | 4 => regs.ebp
  | 8 => regs.eax
  | 12 => regs.ebx
  | 16 => regs.ecx
  | 20 => regs.edx
  | 24 => regs.esi
  | 28 => regs.edi
  | 32 => regs.eflags
  | 36 => regs.eip
  | _ => 0

def X86TaskRegs.half (regs : X86TaskRegs) : Nat → UInt16
  | 40 => regs.ds
  | 42 => regs.es
  | 44 => regs.fs
  | 46 => regs.gs
  | 48 => regs.cs
  | _ => 0

/-- The stack that compiled code used below the stack pointer it was called with, and
the bytes it left there. It never reaches around the address space to its own frame. -/
structure Scratch where
  depth : Nat
  bytes : Location → UInt8
  fits : depth + 68 < 4294967296

namespace Machine

def view (machine : Machine) : UInt32 → Location := locate machine.pageDirectory

def cpl (machine : Machine) : Nat := machine.cpu.cs.toNat % 4

def interruptsAreEnabled (machine : Machine) : Bool := machine.cpu.eflags &&& 0x200 != 0

def push (words : List UInt32) (machine : Machine) : Machine :=
  { machine with
    cpu := { machine.cpu with esp := machine.cpu.esp - UInt32.ofNat (4 * words.length) }
    memory := pushes machine.view words machine.cpu.esp machine.memory }

def load (machine : Machine) (address : UInt32) : UInt32 :=
  load32 machine.view address machine.memory

/-- From ring 3 the processor first changes to the stack of the task state segment. -/
def enterRing0 (machine : Machine) : Machine :=
  let cpu := machine.cpu
  if machine.cpl = 0 then machine
  else { machine with cpu := { cpu with esp := machine.esp0, ss := kKernelDataSegment } }.push
    [cpu.ss.toUInt32, cpu.esp]

def interrupt (machine : Machine) : Machine :=
  let cpu := machine.cpu
  let framed := machine.enterRing0.push [cpu.eflags, cpu.cs.toUInt32, cpu.eip]
  { framed with cpu := { framed.cpu with
      cs := kKernelCodeSegment
      eflags := framed.cpu.eflags &&& ~~~0x34300 } }

def pusha (machine : Machine) : Machine :=
  let cpu := machine.cpu
  machine.push [cpu.eax, cpu.ecx, cpu.edx, cpu.ebx, cpu.esp, cpu.ebp, cpu.esi, cpu.edi]

def loadKernelSegments (machine : Machine) : Machine :=
  { machine with cpu := { machine.cpu with
      eax := (machine.cpu.eax &&& 0xFFFF0000) ||| kKernelDataSegment.toUInt32
      ds := kKernelDataSegment
      es := kKernelDataSegment
      fs := kKernelDataSegment
      gs := kKernelDataSegment } }

def saveRegisters (machine : Machine) : Machine :=
  let machine := machine.pusha
  let dataSegment := (machine.cpu.eax &&& 0xFFFF0000) ||| machine.cpu.ds.toUInt32
  let machine := (machine.push [dataSegment]).loadKernelSegments
  machine.push [machine.cpu.esp]

def irqStub (machine : Machine) : Machine := (machine.push [0, irq0]).saveRegisters

def call (scratch : Scratch) (machine : Machine) : Machine :=
  { machine with memory := fun location =>
      let below := (machine.cpu.esp - location.2).toNat
      if location = machine.view location.2 ∧ 0 < below ∧ below ≤ scratch.depth
      then scratch.bytes location else machine.memory location }

def readRegisters (machine : Machine) (pointer : UInt32) : X86Registers where
  ds := machine.load pointer
  edi := machine.load (pointer + 4)
  esi := machine.load (pointer + 8)
  ebp := machine.load (pointer + 12)
  esp := machine.load (pointer + 16)
  ebx := machine.load (pointer + 20)
  edx := machine.load (pointer + 24)
  ecx := machine.load (pointer + 28)
  eax := machine.load (pointer + 32)
  intNo := machine.load (pointer + 36)
  errCode := machine.load (pointer + 40)
  eip := machine.load (pointer + 44)
  cs := machine.load (pointer + 48)
  eflags := machine.load (pointer + 52)
  useresp := machine.load (pointer + 56)
  ss := machine.load (pointer + 60)

def timerRegs (machine : Machine) (pointer : UInt32) : TimerRegs :=
  let regs := machine.readRegisters pointer
  { regs, stack := fun index => machine.load (regs.esp + UInt32.ofNat (4 * index)) }

def iret (machine : Machine) : Machine :=
  let cpu := machine.cpu
  let cs := (machine.load (cpu.esp + 4)).toUInt16
  let popped := { cpu with
    eip := machine.load cpu.esp
    cs
    eflags := machine.load (cpu.esp + 8)
    esp := cpu.esp + 12 }
  if machine.cpl < cs.toNat % 4 then
    { machine with cpu := { popped with
        esp := machine.load (cpu.esp + 12)
        ss := (machine.load (cpu.esp + 16)).toUInt16 } }
  else { machine with cpu := popped }

def popRegisters (pointer : UInt32) (machine : Machine) : Machine :=
  let regs := machine.readRegisters pointer
  let ds := regs.ds.toUInt16
  { machine with cpu := { machine.cpu with
      ds, es := ds, fs := ds, gs := ds
      edi := regs.edi
      esi := regs.esi
      ebp := regs.ebp
      ebx := regs.ebx
      edx := regs.edx
      ecx := regs.ecx
      eax := regs.eax
      esp := pointer + 44
      eflags := machine.cpu.eflags ||| 0x200 } }

def restoreRegisters (pointer : UInt32) (machine : Machine) : Machine :=
  (machine.popRegisters pointer).iret

def swapTasks (regs : X86TaskRegs) (machine : Machine) : Machine :=
  { machine with cpu := { machine.cpu with
      esp := regs.word 0
      ebp := regs.word 4
      ebx := regs.word 12
      ecx := regs.word 16
      edx := regs.word 20
      esi := regs.word 24
      edi := regs.word 28
      ds := regs.half 40
      es := regs.half 42
      fs := regs.half 44
      gs := regs.half 46 } }

def setEax (value : UInt32) (machine : Machine) : Machine :=
  { machine with cpu := { machine.cpu with eax := value } }

def runRoutine (regs : X86TaskRegs) (machine : Machine) : Routine → Machine
  | .switchKernelTaskRun =>
      (((machine.swapTasks regs).push [regs.word 32, 0x08, regs.word 36]).setEax (regs.word 8)).iret
  | .switchFirstKernelTaskRun => ((machine.swapTasks regs).setEax (regs.word 8)).iret
  | .switchFirstUserTaskRun => ((machine.swapTasks regs).setEax (regs.word 8)).iret
  | .switchUserTaskRun =>
      (((machine.swapTasks regs).push [0x23, regs.word 0, regs.word 32, 0x1b, regs.word 36]).setEax
        (regs.word 8)).iret

def switchTasks (switch : Switch) (machine : Machine) : Except Panic Machine := do
  let task ← machine.scheduler.getTask switch.task
  let machine := if task.isUserTask then { machine with esp0 := task.esp0 } else machine
  return { machine with pageDirectory := task.pageDirectory }.runRoutine task.regs switch.routine

def kQuanta : UInt32 := 2

def timerInterrupt (limit : Nat) (scratch : Scratch) (machine : Machine) : Except Panic Machine := do
  let machine := machine.interrupt.irqStub
  let pointer := machine.cpu.esp + 4
  let machine := machine.call scratch
  let machine := { machine with tick := machine.tick + 1 }
  if machine.tick % kQuanta = 0 then do
    let (scheduler, switch) ← machine.scheduler.schedule limit machine.interruptsAreEnabled
      (some (machine.timerRegs pointer))
    let machine := { machine with scheduler }
    match switch with
    | some switch => machine.switchTasks switch
    | none => return machine.restoreRegisters pointer
  else return machine.restoreRegisters pointer

def exitTask (limit : Nat) (scratch : Scratch) (machine : Machine) : Except Panic Machine := do
  let machine := machine.call scratch
  let (scheduler, switch) ← machine.scheduler.exitThisTask limit
  { machine with scheduler }.switchTasks switch

/-- What can happen next: the running task changes registers and memory in any way,
creates, destroys or exits in kernel code, or is interrupted by the timer. Saved
registers and the ready queue only change through the scheduler. -/
inductive Action
  | execute (cpu : Cpu) (memory : Location → UInt8)
  | create (task node : Nat) (new : Scheduler.NewTask) (cpu : Cpu) (memory : Location → UInt8)
  | destroy (task : Nat) (cpu : Cpu) (memory : Location → UInt8)
  | timer (limit : Nat) (scratch : Scratch)
  | exit (limit : Nat) (scratch : Scratch)

def Happens (before : Machine) : Action → Machine → Prop
  | .execute cpu memory, after => after = { before with cpu, memory }
  | .create task node new cpu memory, after => ∃ scheduler,
      before.scheduler.Happens (.create task node new) scheduler ∧
        after = { before with cpu, memory, scheduler }
  | .destroy task cpu memory, after => ∃ scheduler,
      before.scheduler.Happens (.destroy task) scheduler ∧
        after = { before with cpu, memory, scheduler }
  | .timer limit scratch, after => before.timerInterrupt limit scratch = .ok after
  | .exit limit scratch, after => before.cpl = 0 ∧
      before.scheduler.currentTask ≠ before.scheduler.mainKernelTask ∧
        before.exitTask limit scratch = .ok after

def runs : System Machine Action where
  initial machine := Scheduler.runs.initial machine.scheduler ∧ machine.pageDirectory = .kernel
  step := Happens

end Machine

end ToyKernel
