import ToyKernel.Kernel.Model
import ToyKernel.Library.LinkedList

/-!
The scheduler of `kernel/task.cpp`: the ready queue as a linked list of nodes, the
saved registers of every task, and `schedule` with its rotation, its save block and
its removal of an exiting task. The loops over the queue take a step limit, so that
a walk that never ends is an error of its own.
-/

namespace ToyKernel

open Library

inductive Panic
  | initializedTwice | notInitialized | danglingPointer | stepLimit | interruptsEnabled
  | notTimerInterrupt | errorCodeGiven | notFromKernelSpace | notFromUserspace | notFromKernelCode
  | quitMainTask | taskNotFound | notFrontOfQueue | noResumeAddress | shouldHaveJumped
deriving DecidableEq, Repr

structure X86TaskRegs where
  esp : UInt32
  ebp : UInt32
  eax : UInt32
  ebx : UInt32
  ecx : UInt32
  edx : UInt32
  esi : UInt32
  edi : UInt32
  eflags : UInt32
  eip : UInt32
  ds : UInt16
  es : UInt16
  fs : UInt16
  gs : UInt16
  cs : UInt16
deriving DecidableEq, Repr

structure X86Registers where
  ds : UInt32
  edi : UInt32
  esi : UInt32
  ebp : UInt32
  esp : UInt32
  ebx : UInt32
  edx : UInt32
  ecx : UInt32
  eax : UInt32
  intNo : UInt32
  errCode : UInt32
  eip : UInt32
  cs : UInt32
  eflags : UInt32
  useresp : UInt32
  ss : UInt32
deriving DecidableEq, Repr

def irq0 : UInt32 := 32

def kKernelDataSegment : UInt16 := 0x10
def kUserDataSegment : UInt16 := 0x23
def kKernelCodeSegment : UInt16 := 0x08
def kUserCodeSegment : UInt16 := 0x1b

structure ScheduledTask where
  isUserTask : Bool
  state : TaskState
  regs : X86TaskRegs
  userInKernelSpace : Bool
  pageDirectory : PageDirPtr
  esp0 : UInt32

structure Scheduler where
  tasks : Nat → Option ScheduledTask
  nodes : NodeHeap Nat
  readyQueue : Option Nat
  currentTask : Option Nat
  mainKernelTask : Option Nat

/-- What `schedule` was given: the pushed registers and the words at their `esp`. -/
structure TimerRegs where
  regs : X86Registers
  stack : Nat → UInt32

inductive Routine
  | switchFirstKernelTaskRun | switchFirstUserTaskRun | switchUserTaskRun | switchKernelTaskRun
deriving DecidableEq, Repr

structure Switch where
  routine : Routine
  task : Nat
deriving DecidableEq, Repr

namespace Scheduler

def getTask (scheduler : Scheduler) (task : Nat) : Except Panic ScheduledTask :=
  match scheduler.tasks task with
  | some entry => .ok entry
  | none => .error .danglingPointer

def setTask (task : Nat) (entry : Option ScheduledTask) (scheduler : Scheduler) : Scheduler :=
  { scheduler with tasks := fun query => if query = task then entry else scheduler.tasks query }

def getNode (scheduler : Scheduler) (node : Nat) : Except Panic (Node Nat) :=
  match scheduler.nodes node with
  | some item => .ok item
  | none => .error .danglingPointer

def getCurrentTask (scheduler : Scheduler) : Except Panic Nat :=
  match scheduler.currentTask with
  | some task => .ok task
  | none => .error .danglingPointer

def lastNode (scheduler : Scheduler) : Nat → Nat → Except Panic Nat
  | 0, _ => .error .stepLimit
  | limit + 1, node => do
      let item ← scheduler.getNode node
      match item.next with
      | none => return node
      | some next => lastNode scheduler limit next

def findNode (scheduler : Scheduler) (task : Nat) : Nat → Option Nat → Option Nat →
    Except Panic (Option Nat × Option Nat)
  | 0, _, _ => .error .stepLimit
  | _ + 1, none, prev => return (none, prev)
  | limit + 1, some node, prev => do
      let item ← scheduler.getNode node
      if item.value = task then return (some node, prev)
      else findNode scheduler task limit item.next (some node)

def adjustedEsp (timer : TimerRegs) (isUserTask : Bool) : Except Panic (UInt32 × Bool) := do
  require (timer.stack 0 = irq0) .notTimerInterrupt
  require (timer.stack 1 = 0) .errorCodeGiven
  if isUserTask = false then
    require (timer.stack 3 = kKernelCodeSegment.toUInt32) .notFromKernelSpace
    return (timer.regs.esp + 20, false)
  else if timer.stack 3 = kUserCodeSegment.toUInt32 then
    require (timer.stack 6 = kUserDataSegment.toUInt32) .notFromUserspace
    return (timer.regs.useresp, false)
  else
    require (timer.stack 3 = kKernelCodeSegment.toUInt32) .notFromKernelCode
    return (timer.regs.esp + 20, true)

def withSavedRegs (regs : X86Registers) (esp : UInt32) (inKernelSpace : Bool)
    (entry : ScheduledTask) : ScheduledTask :=
  { entry with
    userInKernelSpace := entry.userInKernelSpace || inKernelSpace
    regs :=
      { esp, ebp := regs.ebp, eax := regs.eax, ebx := regs.ebx, ecx := regs.ecx, edx := regs.edx,
        esi := regs.esi, edi := regs.edi, eip := regs.eip, eflags := regs.eflags,
        cs := regs.cs.toUInt16, ds := regs.ds.toUInt16, es := regs.ds.toUInt16,
        fs := regs.ds.toUInt16, gs := regs.ds.toUInt16 } }

def saveRegs (timer : TimerRegs) (current : Nat) (scheduler : Scheduler) : Except Panic Scheduler := do
  let entry ← scheduler.getTask current
  let (esp, inKernelSpace) ← adjustedEsp timer entry.isUserTask
  return scheduler.setTask current (some (withSavedRegs timer.regs esp inKernelSpace entry))

def deleteNode (limit : Nat) (current : Nat) (scheduler : Scheduler) : Except Panic Scheduler := do
  require (scheduler.mainKernelTask ≠ some current) .quitMainTask
  let (node, prev) ← scheduler.findNode current limit scheduler.readyQueue none
  let some node := node | .error .taskNotFound
  let item ← scheduler.getNode node
  match prev with
  | some prev => return { scheduler with
      nodes := (scheduler.nodes.setNext prev item.next).set node none }
  | none => do
      require (scheduler.readyQueue = some node) .notFrontOfQueue
      return { scheduler with readyQueue := item.next, nodes := scheduler.nodes.set node none }

def routine (firstTaskRun jumpToUser : Bool) : Routine :=
  match firstTaskRun, jumpToUser with
  | true, false => .switchFirstKernelTaskRun
  | true, true => .switchFirstUserTaskRun
  | false, true => .switchUserTaskRun
  | false, false => .switchKernelTaskRun

def rotate (front last : Nat) (next : Option Nat) (scheduler : Scheduler) : Scheduler :=
  if last ≠ front then { scheduler with
    readyQueue := next
    nodes := (scheduler.nodes.setNext last (some front)).setNext front none }
  else scheduler

/-- The end of `schedule`: the selected task becomes the current one. That `SetupBeforeTaskRun` finds
the entry point on the stack of a user task that was never run is not checked here. -/
def switchTo (task : Nat) (jumpToUser : Bool) (scheduler : Scheduler) :
    Except Panic (Scheduler × Option Switch) := do
  let selected ← scheduler.getTask task
  let firstTaskRun := decide (selected.state = .ready)
  require (firstTaskRun = true ∨ selected.regs.eip ≠ 0) .noResumeAddress
  let scheduler := scheduler.setTask task (some { selected with state := .running })
  return ({ scheduler with currentTask := some task },
    some { routine := routine firstTaskRun jumpToUser, task })

/-- Without a switch as its result `schedule` returned to its caller. -/
def schedule (limit : Nat) (interruptsAreEnabled : Bool) (regs : Option TimerRegs)
    (scheduler : Scheduler) : Except Panic (Scheduler × Option Switch) := do
  let some front := scheduler.readyQueue | return (scheduler, none)
  let taskNode ← scheduler.getNode front
  if taskNode.next = none then return (scheduler, none)
  require (interruptsAreEnabled = false) .interruptsEnabled
  let last ← scheduler.lastNode limit front
  let scheduler := scheduler.rotate front last taskNode.next
  let task := taskNode.value
  let isUserTask := (← scheduler.getTask task).isUserTask
  let current ← scheduler.getCurrentTask
  let entry ← scheduler.getTask current
  let scheduler := scheduler.setTask current (some { entry with userInKernelSpace := false })
  let jumpToUser := isUserTask && !(← scheduler.getTask task).userInKernelSpace
  let scheduler ← match regs with
    | some timer => scheduler.saveRegs timer current
    | none => scheduler.deleteNode limit current
  scheduler.switchTo task jumpToUser

def exitThisTask (limit : Nat) (scheduler : Scheduler) : Except Panic (Scheduler × Switch) := do
  let current ← scheduler.getCurrentTask
  let entry ← scheduler.getTask current
  let (scheduler, switch) ← schedule limit false none
    (scheduler.setTask current (some { entry with state := .completed }))
  let some switch := switch | .error .shouldHaveJumped
  return (scheduler, switch)

def zeroRegs : X86TaskRegs := ⟨0, 0, 0, 0, 0, 0, 0, 0, 0, 0, 0, 0, 0, 0, 0⟩

/-- What the constructors of tasks decide, with the value that the memory of the new
object happens to have for `user_in_kernel_space_`, which none of them initializes. -/
structure NewTask where
  isUserTask : Bool
  userInKernelSpace : Bool
  esp : UInt32
  pageDirectory : PageDirPtr
  esp0 : UInt32

def NewTask.entry (new : NewTask) : ScheduledTask where
  isUserTask := new.isUserTask
  state := .ready
  regs := { zeroRegs with
    esp := new.esp
    ds := if new.isUserTask then kUserDataSegment else kKernelDataSegment
    cs := if new.isUserTask then kUserCodeSegment else kKernelCodeSegment }
  userInKernelSpace := new.userInKernelSpace
  pageDirectory := new.pageDirectory
  esp0 := new.esp0

def addToQueue (task node : Nat) (scheduler : Scheduler) : Scheduler :=
  { scheduler with
    readyQueue := some node
    nodes := scheduler.nodes.set node (some ⟨task, scheduler.readyQueue⟩) }

def createTask (task node : Nat) (new : NewTask) (scheduler : Scheduler) : Except Panic Scheduler := do
  let _ ← scheduler.getCurrentTask
  require (scheduler.readyQueue ≠ none) .notInitialized
  return (scheduler.setTask task (some new.entry)).addToQueue task node

def uninitialized : Scheduler := ⟨fun _ => none, fun _ => none, none, none, none⟩

def initScheduler (task node : Nat) (userInKernelSpace : Bool) (scheduler : Scheduler) :
    Except Panic Scheduler := do
  require (scheduler.readyQueue = none ∧ scheduler.currentTask = none ∧
    scheduler.mainKernelTask = none) .initializedTwice
  let main : ScheduledTask :=
    { isUserTask := false, state := .running, regs := zeroRegs, userInKernelSpace,
      pageDirectory := .kernel, esp0 := 0 }
  return { scheduler.setTask task (some main) with
    currentTask := some task
    mainKernelTask := some task
    readyQueue := some node
    nodes := scheduler.nodes.set node (some ⟨task, none⟩) }

inductive Event
  | create (task node : Nat) (new : NewTask)
  | timer (limit : Nat) (regs : TimerRegs)
  | exit (limit : Nat)
  | destroy (task : Nat)

/-- The scheduler's part of an event. New objects get memory that is not in use, the
main kernel task never exits, and a task is destroyed after it completed. -/
def Happens (before : Scheduler) : Event → Scheduler → Prop
  | .create task node new, after => before.tasks task = none ∧ before.nodes node = none ∧
      before.createTask task node new = .ok after
  | .timer limit regs, after => ∃ switch, before.schedule limit false (some regs) = .ok (after, switch)
  | .exit limit, after => before.currentTask ≠ before.mainKernelTask ∧
      ∃ switch, before.exitThisTask limit = .ok (after, switch)
  | .destroy task, after => (∃ entry, before.tasks task = some entry ∧ entry.state = .completed) ∧
      after = before.setTask task none

def runs : System Scheduler Event where
  initial scheduler := ∃ task node userInKernelSpace,
    uninitialized.initScheduler task node userInKernelSpace = .ok scheduler
  step := Happens

end Scheduler

end ToyKernel
