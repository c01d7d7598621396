import ToyKernel.Library.Memory
import ToyKernel.Library.Run
import ToyKernel.Paging.Model

/-!
The address-space side of tasks and system calls: `kernel/task.cpp`,
`kernel/syscall.cpp` and the heap growth of `kernel/kmalloc.cpp`. Page directories
and task objects are structured state and physical memory holds everything else.
When an allocation grows the kernel heap is decided by the allocator, so each
allocation takes the list of its `ksbrk` requests as an argument.
-/

namespace ToyKernel

open Library

inductive TaskState
  | ready | running | completed
deriving DecidableEq, Repr

structure Task where
  pageDirectory : PageDirPtr
  isUserTask : Bool
  state : TaskState
  parent : Option Nat
  children : List Nat

structure Kernel where
  paging : Paging
  memory : Memory
  heap : UInt32
  tasks : Nat → Option Task
  nextTid : Nat

/-- Writes an argument for a new task through the current page directory and
returns the value for the stack. -/
abbrev CopyArgFunc :=
  UInt32 → UInt32 → UInt32 → PageDirectory → Memory → Except Fault (Memory × UInt32)

/-- The `ksbrk` requests made by the four allocations of a task's construction. -/
structure Growth where
  object : List UInt32
  child : List UInt32
  stack : List UInt32
  node : List UInt32

namespace Kernel

def mainKernelTask : Nat := 0

def kUserDataSegment : UInt32 := 0x23
def kUserCodeSegment : UInt32 := 0x1b

def translate (pd : PageDirectory) (vaddr : UInt32) : Except Fault Nat := do
  let entry := pd (pageIndex4M vaddr)
  require (present entry = true) .pageFault
  return (entry &&& kPageMask4M).toNat + (vaddr % kPageSize4M).toNat

def writeBytes (pd : PageDirectory) : UInt32 → List UInt8 → Memory → Except Fault Memory
  | _, [], memory => pure memory
  | dst, byte :: rest, memory => do
      let address ← translate pd dst
      writeBytes pd (dst + 1) rest (store memory address byte)

def memcpyVirtual (pd : PageDirectory) : UInt32 → UInt32 → Nat → Memory → Except Fault Memory
  | _, _, 0, memory => pure memory
  | dst, src, size + 1, memory => do
      let source ← translate pd src
      let target ← translate pd dst
      memcpyVirtual pd (dst + 1) (src + 1) size (store memory target (memory source))

def wordBytes (word : UInt32) : List UInt8 :=
  [word.toUInt8, (word >>> 8).toUInt8, (word >>> 16).toUInt8, (word >>> 24).toUInt8]

def ksbrkPages : Nat → UInt32 → Paging → Except Fault (Paging × UInt32)
  | 0, heap, paging => pure (paging, heap)
  | pages + 1, heap, paging => do
      let paddr ← paging.physicalBitmap.nextFreePhysicalPage 1
      let paging ← paging.addPage .kernel heap paddr 0 false
      ksbrkPages pages (heap + kPageSize4M) paging

def ksbrkPage (pages : UInt32) (heap : UInt32) (paging : Paging) :
    Except Fault (Paging × Option UInt32) :=
  if kernHeapEnd < heap + pages * kPageSize4M then pure (paging, none)
  else do
    let (paging, heap) ← ksbrkPages pages.toNat heap paging
    return (paging, some heap)

def ksbrk (bytes : UInt32) (heap : UInt32) (paging : Paging) :
    Except Fault (Paging × Option UInt32) :=
  if bytes < kPageSize4M then ksbrkPage 1 heap paging
  else if bytes % kPageSize4M = 0 then ksbrkPage (bytes / kPageSize4M) heap paging
  else ksbrkPage (bytes / kPageSize4M + 1) heap paging

def growHeap (bytes : UInt32) (kernel : Kernel) : Except Fault Kernel := do
  let (paging, heap) ← ksbrk bytes kernel.heap kernel.paging
  let some heap := heap | .error .noMemory
  return { kernel with paging, heap }

def kmalloc : List UInt32 → Kernel → Except Fault Kernel
  | [], kernel => pure kernel
  | bytes :: rest, kernel => do
      let kernel ← growHeap bytes kernel
      kmalloc rest kernel

def getTask (kernel : Kernel) (handle : Nat) : Except Fault Task :=
  match kernel.tasks handle with
  | some task => .ok task
  | none => .error .noSuchTask

def setTask (handle : Nat) (task : Option Task) (kernel : Kernel) : Kernel :=
  { kernel with tasks := fun query => if query = handle then task else kernel.tasks query }

/-- The other task's page, mapped into the current page directory for one copy. The
copy runs in the current address space and is given the address of the mapped data. -/
def taskMemcpy (task current : PageDirPtr) (vaddr : UInt32)
    (copy : UInt32 → PageDirectory → Memory → Except Fault Memory) (kernel : Kernel) :
    Except Fault Kernel := do
  let page := pageAddr4M (pageIndex4M vaddr)
  let paddr ← kernel.paging.getPhysicalAddr task page
  let paging ← kernel.paging.addPage current tmpSharedTaskMemStart paddr 0 true
  let memory ← copy (tmpSharedTaskMemStart + vaddr % kPageSize4M) (paging.pageDirs current)
    kernel.memory
  let paging ← paging.removePage current tmpSharedTaskMemStart
  return { kernel with paging, memory }

def writeWord (task current : PageDirPtr) (dst word : UInt32) (kernel : Kernel) :
    Except Fault Kernel :=
  taskMemcpy task current dst (fun shared pd => writeBytes pd shared (wordBytes word)) kernel

def write (task current : PageDirPtr) (dst src size : UInt32) (kernel : Kernel) :
    Except Fault Kernel :=
  if size = 0 then pure kernel
  else taskMemcpy task current dst (fun shared pd => memcpyVirtual pd shared src size.toNat) kernel

def copyArgDefault : CopyArgFunc := fun arg _ dstEnd pd memory => do
  let memory ← writeBytes pd (dstEnd - 4) (wordBytes arg) memory
  return (memory, arg)

def copyInitrd (data size : UInt32) : CopyArgFunc := fun _ dstStart dstEnd pd memory => do
  require (size + 4 ≤ dstEnd - dstStart) .initrdTooLarge
  let memory ← writeBytes pd dstStart (wordBytes size) memory
  let memory ← memcpyVirtual pd (dstStart + 4) data size.toNat memory
  return (memory, dstStart)

def initialStack (stackArg entryOffset : UInt32) : List (UInt32 × UInt32) :=
  [(userSharedSpaceEnd - 4, stackArg),
    (userSharedSpaceEnd - 8, kUserDataSegment),
    (userSharedSpaceEnd - 12, userSharedSpaceEnd - 4),
    (userSharedSpaceEnd - 16, 0x202),
    (userSharedSpaceEnd - 20, kUserCodeSegment),
    (userSharedSpaceEnd - 24, userStart + entryOffset)]

def writeStack (task current : PageDirPtr) : List (UInt32 × UInt32) → Kernel → Except Fault Kernel
  | [], kernel => pure kernel
  | (dst, word) :: rest, kernel => do
      let kernel ← writeWord task current dst word kernel
      writeStack task current rest kernel

def addChildTask (parent child : Nat) (kernel : Kernel) : Except Fault Kernel := do
  let task ← kernel.getTask parent
  return kernel.setTask parent (some { task with children := task.children ++ [child] })

def setupSharedSpace (slot : Nat) (current : PageDirPtr) (arg entryOffset : UInt32)
    (copyfunc : CopyArgFunc) (kernel : Kernel) : Except Fault Kernel := do
  let paddr ← kernel.paging.physicalBitmap.nextFreePhysicalPage 1
  require (kernel.paging.isVirtualMapped (.region slot) userSharedSpaceStart = false)
    .sharedSpaceReserved
  let paging ← kernel.paging.addPage (.region slot) userSharedSpaceStart paddr pgUser.toUInt8 false
  let paging ← paging.addPage .kernel userSharedSpaceStart paddr 0 true
  let (memory, stackArg) ← copyfunc arg userSharedSpaceStart userSharedSpaceEnd
    (paging.pageDirs current) kernel.memory
  let kernel ← writeStack (.region slot) current (initialStack stackArg entryOffset)
    { kernel with paging, memory }
  let paging ← kernel.paging.removePage .kernel userSharedSpaceStart
  return { kernel with paging }

def setupCode (slot : Nat) (current : PageDirPtr) (func codesize : UInt32) (kernel : Kernel) :
    Except Fault Kernel := do
  let paddr ← kernel.paging.physicalBitmap.nextFreePhysicalPage 0
  let paging ← kernel.paging.addPage (.region slot) userStart paddr pgUser.toUInt8 false
  let mapped ← paging.getPhysicalAddr (.region slot) userStart
  require (mapped = paddr) .wrongCodePage
  write (.region slot) current userStart func codesize { kernel with paging }

def userTask (caller : Nat) (func codesize arg : UInt32) (copyfunc : CopyArgFunc)
    (entryOffset : UInt32) (growth : Growth) (kernel : Kernel) : Except Fault (Kernel × Nat) := do
  let current ← kernel.getTask caller
  let kernel ← kmalloc growth.object kernel
  let (paging, slot) ← kernel.paging.clone .kernel
  let handle := kernel.nextTid
  let task : Task :=
    { pageDirectory := .region slot, isUserTask := true, state := .ready, parent := some caller,
      children := [] }
  let kernel ← addChildTask caller handle { kernel with paging, nextTid := kernel.nextTid + 1 }
  let kernel ← kmalloc growth.child (kernel.setTask handle (some task))
  let kernel ← kmalloc growth.stack kernel
  let kernel ← setupSharedSpace slot current.pageDirectory arg entryOffset copyfunc kernel
  let kernel ← kmalloc growth.node kernel
  let kernel ← setupCode slot current.pageDirectory func codesize kernel
  return (kernel, handle)

def createUserTask (caller : Nat) (entry codesize arg entryOffset : UInt32) (growth : Growth)
    (kernel : Kernel) : Except Fault (Kernel × Nat) :=
  userTask caller entry codesize arg copyArgDefault entryOffset growth kernel

def kernelJumpToUserEntry (vfsData vfsSize arg : UInt32) (growth : Growth) (kernel : Kernel) :
    Except Fault (Kernel × Nat) :=
  userTask mainKernelTask vfsData vfsSize arg (copyInitrd vfsData vfsSize) 0 growth kernel

def removeChildTask (parent child : Nat) (kernel : Kernel) : Except Fault Kernel := do
  let task ← kernel.getTask parent
  require (child ∈ task.children) .notAChild
  return kernel.setTask parent (some { task with children := task.children.erase child })

/-- The part of `destroy_user_task` after its `Join`: the task has completed. -/
def destroyUserTask (handle : Nat) (kernel : Kernel) : Except Fault Kernel := do
  let task ← kernel.getTask handle
  require (task.isUserTask = true) .notUserTask
  let paging ← kernel.paging.reclaimPageDirRegion task.pageDirectory
  let kernel := { kernel with paging }
  require (task.children = []) .childrenLeft
  match task.parent with
  | some parent => do
      let kernel ← removeChildTask parent handle kernel
      return kernel.setTask handle none
  | none => return kernel.setTask handle none

def exitThisTask (caller : Nat) (kernel : Kernel) : Except Fault Kernel := do
  let task ← kernel.getTask caller
  return kernel.setTask caller (some { task with state := .completed })

def sharePage (caller handle : Nat) (src : UInt32) (kernel : Kernel) :
    Except Fault (Kernel × UInt32) := do
  let task ← kernel.getTask handle
  require (task.isUserTask = true) .notUserTask
  require (handle ≠ caller) .sameTask
  let current ← kernel.getTask caller
  let some dst := kernel.paging.getNextFreeVirtualUser current.pageDirectory
    | .error .noFreeVirtualPage
  require (dst % kPageSize4M = 0) .unalignedVirtual
  require (src % kPageSize4M = 0) .unalignedVirtual
  let paddr ← kernel.paging.getPhysicalAddr task.pageDirectory src
  let paging ← kernel.paging.addPage current.pageDirectory dst paddr pgUser.toUInt8 true
  return ({ kernel with paging }, dst)

def unmapPage (caller : Nat) (vaddr : UInt32) (kernel : Kernel) : Except Fault Kernel := do
  let current ← kernel.getTask caller
  require (vaddr % kPageSize4M = 0) .unalignedVirtual
  let paging ← kernel.paging.removePage current.pageDirectory vaddr
  return { kernel with paging }

inductive MapResult
  | success | unalignedAddr | alreadyMapped | oom
deriving DecidableEq, Repr

def mapPage (caller : Nat) (vaddr : UInt32) (kernel : Kernel) : Except Fault (Kernel × MapResult) := do
  if vaddr % kPageSize4M ≠ 0 then return (kernel, .unalignedAddr)
  let current ← kernel.getTask caller
  if kernel.paging.isVirtualMapped current.pageDirectory vaddr = true then
    return (kernel, .alreadyMapped)
  let paddr ← kernel.paging.physicalBitmap.nextFreePhysicalPage 1
  if paddr = 0 then return (kernel, .oom)
  let paging ← kernel.paging.addPage current.pageDirectory vaddr paddr pgUser.toUInt8 false
  return ({ kernel with paging }, .success)

/-- `KernelSetup`: paging, the first page of the heap, the main kernel task and, when
there is an initrd, the allocation made while the first page of memory is mapped. -/
def kernelSetup (highMemKB : UInt32) (slots : Nat → PageDirectory) (memory : Memory)
    (scheduler : List UInt32) (initrd : Option (List UInt32)) : Except Fault Kernel := do
  let paging ← Paging.initializePaging highMemKB slots
  let main : Task :=
    { pageDirectory := .kernel, isUserTask := false, state := .running, parent := none,
      children := [] }
  let kernel ← growHeap 1 { paging, memory, heap := kernHeapBegin, tasks := fun _ => none, nextTid := 0 }
  let kernel ← kmalloc scheduler kernel
  let kernel := { kernel.setTask mainKernelTask (some main) with nextTid := 1 }
  match initrd with
  | none => return kernel
  | some growth => do
      let paging ← kernel.paging.addPage .kernel 0 0 0 true
      let kernel ← kmalloc growth { kernel with paging }
      let paging ← kernel.paging.removePage .kernel 0
      return { kernel with paging }

/-- What tasks and the kernel allocator can do, one uninterrupted action at a time. -/
inductive Call
  | createUserTask (caller : Nat) (entry codesize arg entryOffset : UInt32) (growth : Growth)
  | kernelJumpToUserEntry (vfsData vfsSize arg : UInt32) (growth : Growth)
  | destroyUserTask (handle : Nat)
  | exit (caller : Nat)
  | mapPage (caller : Nat) (vaddr : UInt32)
  | unmapPage (caller : Nat) (vaddr : UInt32)
  | sharePage (caller handle : Nat) (src : UInt32)
  | growHeap (bytes : UInt32)

def perform (kernel : Kernel) : Call → Except Fault Kernel
  | .createUserTask caller entry codesize arg entryOffset growth =>
      return (← kernel.createUserTask caller entry codesize arg entryOffset growth).1
  | .kernelJumpToUserEntry vfsData vfsSize arg growth =>
      return (← kernel.kernelJumpToUserEntry vfsData vfsSize arg growth).1
  | .destroyUserTask handle => kernel.destroyUserTask handle
  | .exit caller => kernel.exitThisTask caller
  | .mapPage caller vaddr => return (← kernel.mapPage caller vaddr).1
  | .unmapPage caller vaddr => kernel.unmapPage caller vaddr
  | .sharePage caller handle src => return (← kernel.sharePage caller handle src).1
  | .growHeap bytes => kernel.growHeap bytes

def RunningUser (kernel : Kernel) (caller : Nat) : Prop :=
  ∃ task, kernel.tasks caller = some task ∧ task.isUserTask = true ∧ task.state ≠ .completed

/-- System calls come from running user tasks, and a task is only destroyed after
its `Join` returned. -/
def Enabled (kernel : Kernel) : Call → Prop
  | .createUserTask caller _ _ _ _ _ => kernel.RunningUser caller
  | .kernelJumpToUserEntry _ _ _ _ => True
  | .destroyUserTask handle => ∃ task, kernel.tasks handle = some task ∧ task.state = .completed
  | .exit caller => kernel.RunningUser caller
  | .mapPage caller _ => kernel.RunningUser caller
  | .unmapPage caller _ => kernel.RunningUser caller
  | .sharePage caller _ _ => kernel.RunningUser caller
  | .growHeap _ => True

def runs (Condition : Kernel → Call → Prop) : System Kernel Call where
  initial kernel := ∃ highMemKB slots memory scheduler initrd,
    kernelSetup highMemKB slots memory scheduler initrd = .ok kernel
  step kernel call after :=
    kernel.Enabled call ∧ Condition kernel call ∧ kernel.perform call = .ok after

end Kernel

end ToyKernel
