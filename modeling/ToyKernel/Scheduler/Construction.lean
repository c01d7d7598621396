import ToyKernel.Kernel.Copies
import ToyKernel.Scheduler.Machine

/-!
The constructor of `UserTask` in `kernel/task.cpp`, one step for each of its changes to
the page tables, to memory and to the ready queue, when kernel tasks run it with
interrupts enabled. Between any two steps a timer interrupt may call `schedule`, and
user tasks write to their own pages while they run.
-/

namespace ToyKernel

open Library Paging Kernel

/-- What the constructor does next. After the last word of the initial stack it takes the shared
page out of the kernel's page directory. -/
inductive Stage
  | addSharedPage (paddr : UInt32)
  | addKernelPage (paddr : UInt32)
  | copyArg
  | writeStack (words : List (UInt32 × UInt32))
  | addToQueue
  | findCodePage
  | addCodePage (paddr : UInt32)
  | writeCode

def Stage.isQueued : Stage → Bool
  | .findCodePage | .addCodePage _ | .writeCode => true
  | _ => false

structure Constructor where
  task : Nat
  slot : Nat
  func : UInt32
  codesize : UInt32
  arg : UInt32
  entryOffset : UInt32
  copier : ArgCopier
  userInKernelSpace : Bool
  esp0 : UInt32
  stage : Stage

namespace Constructor

def newTask (job : Constructor) : Scheduler.NewTask where
  isUserTask := true
  userInKernelSpace := job.userInKernelSpace
  esp := userSharedSpaceEnd - 24
  pageDirectory := .region job.slot
  esp0 := job.esp0

def advance (job : Constructor) (kernel : Kernel) : Except Fault (Kernel × Option Stage) :=
  match job.stage with
  | .addSharedPage paddr => do
      let paging ← kernel.paging.addPage (.region job.slot) userSharedSpaceStart paddr pgUser.toUInt8
        false
      return ({ kernel with paging }, some (.addKernelPage paddr))
  | .addKernelPage paddr => do
      let paging ← kernel.paging.addPage .kernel userSharedSpaceStart paddr 0 true
      return ({ kernel with paging }, some .copyArg)
  | .copyArg => do
      let (memory, stackArg) ← job.copier.copy job.arg userSharedSpaceStart userSharedSpaceEnd
        (kernel.paging.pageDirs .kernel) kernel.memory
      return ({ kernel with memory }, some (.writeStack (initialStack stackArg job.entryOffset)))
  | .writeStack ((dst, word) :: rest) => do
      let kernel ← writeWord (.region job.slot) .kernel dst word kernel
      return (kernel, some (.writeStack rest))
  | .writeStack [] => do
      let paging ← kernel.paging.removePage .kernel userSharedSpaceStart
      return ({ kernel with paging }, some .addToQueue)
  | .addToQueue => return (kernel, some .findCodePage)
  | .findCodePage => do
      let paddr ← kernel.paging.physicalBitmap.nextFreePhysicalPage 0
      return (kernel, some (.addCodePage paddr))
  | .addCodePage paddr => do
      let paging ← kernel.paging.addPage (.region job.slot) userStart paddr pgUser.toUInt8 false
      let mapped ← paging.getPhysicalAddr (.region job.slot) userStart
      require (mapped = paddr) .wrongCodePage
      return ({ kernel with paging }, some .writeCode)
  | .writeCode => do
      let kernel ← write (.region job.slot) .kernel userStart job.func job.codesize kernel
      return (kernel, none)

def enqueue (job : Constructor) (node : Nat) (scheduler : Scheduler) : Except Panic Scheduler :=
  match job.stage with
  | .addToQueue => scheduler.createTask job.task node job.newTask
  | _ => pure scheduler

def finish (kernel : Kernel) (job : Constructor) : Nat → Except Fault Kernel
  | 0 => pure kernel
  | limit + 1 => do
      let (kernel, stage) ← job.advance kernel
      match stage with
      | some stage => finish kernel { job with stage } limit
      | none => return kernel

theorem finish_some {kernel after : Kernel} {job : Constructor} {stage : Stage} (limit : Nat)
    (run : job.advance kernel = .ok (after, some stage)) :
    finish kernel job (limit + 1) = finish after { job with stage } limit := by
  rw [finish, run, ok_bind]

theorem finish_none {kernel after : Kernel} {job : Constructor} (limit : Nat)
    (run : job.advance kernel = .ok (after, none)) : finish kernel job (limit + 1) = .ok after := by
  rw [finish, run, ok_bind]
  rfl

theorem finish_writeStack (job : Constructor) {words : List (UInt32 × UInt32)}
    {kernel written : Kernel} {paging : Paging} (limit : Nat)
    (run : writeStack (.region job.slot) .kernel words kernel = .ok written)
    (removed : written.paging.removePage .kernel userSharedSpaceStart = .ok paging) :
    finish kernel { job with stage := .writeStack words } (limit + words.length + 1) =
      finish { written with paging } { job with stage := .addToQueue } limit := by
  induction words generalizing kernel with
  | nil =>
      obtain rfl := pure_eq_ok.mp run
      apply finish_some
      exact bind_eq_ok.mpr ⟨paging, removed, rfl⟩
  | cons word rest ih =>
      obtain ⟨middle, wrote, later⟩ := bind_eq_ok.mp run
      rw [← ih later]
      apply finish_some
      exact bind_eq_ok.mpr ⟨middle, wrote, rfl⟩

/-- Without an interruption the stages are the two halves of the constructor. -/
theorem finish_eq_setup {job : Constructor} {kernel shared after : Kernel}
    (setup : setupSharedSpace job.slot .kernel job.arg job.entryOffset job.copier.copy kernel = .ok shared)
    (code : setupCode job.slot .kernel job.func job.codesize shared = .ok after) :
    ∃ paddr, kernel.paging.physicalBitmap.nextFreePhysicalPage 1 = .ok paddr ∧
      finish kernel { job with stage := .addSharedPage paddr } 14 = .ok after := by
  obtain ⟨paddr, found, rest⟩ := bind_eq_ok.mp setup
  obtain ⟨_, _, rest⟩ := bind_eq_ok.mp rest
  obtain ⟨first, added, rest⟩ := bind_eq_ok.mp rest
  obtain ⟨second, doubled, rest⟩ := bind_eq_ok.mp rest
  obtain ⟨⟨memory, stackArg⟩, copied, rest⟩ := bind_eq_ok.mp rest
  obtain ⟨written, stacked, rest⟩ := bind_eq_ok.mp rest
  obtain ⟨paging, removed, done⟩ := bind_eq_ok.mp rest
  obtain rfl := pure_eq_ok.mp done
  obtain ⟨codePage, free, rest⟩ := bind_eq_ok.mp code
  obtain ⟨third, mapped, rest⟩ := bind_eq_ok.mp rest
  obtain ⟨address, translated, rest⟩ := bind_eq_ok.mp rest
  obtain ⟨_, same, wrote⟩ := bind_eq_ok.mp rest
  refine ⟨paddr, found, ?_⟩
  calc finish kernel { job with stage := .addSharedPage paddr } 14
      = finish { kernel with paging := first } { job with stage := .addKernelPage paddr } 13 :=
        finish_some 13 (bind_eq_ok.mpr ⟨first, added, rfl⟩)
    _ = finish { kernel with paging := second } { job with stage := .copyArg } 12 :=
        finish_some 12 (bind_eq_ok.mpr ⟨second, doubled, rfl⟩)
    _ = finish { kernel with paging := second, memory } { job with
          stage := .writeStack (initialStack stackArg job.entryOffset) } 11 :=
        finish_some 11 (bind_eq_ok.mpr ⟨(memory, stackArg), copied, rfl⟩)
    _ = finish { written with paging } { job with stage := .addToQueue } 4 :=
        finish_writeStack job 4 stacked removed
    _ = finish { written with paging } { job with stage := .findCodePage } 3 := finish_some 3 rfl
    _ = finish { written with paging } { job with stage := .addCodePage codePage } 2 :=
        finish_some 2 (bind_eq_ok.mpr ⟨codePage, free, rfl⟩)
    _ = finish { written with paging := third } { job with stage := .writeCode } 1 :=
        finish_some 1 (bind_eq_ok.mpr ⟨third, mapped, bind_eq_ok.mpr ⟨address, translated,
          bind_eq_ok.mpr ⟨_, same, rfl⟩⟩⟩)
    _ = .ok after := finish_none 0 (bind_eq_ok.mpr ⟨after, wrote, rfl⟩)

end Constructor

namespace Kernel

/-- The constructor up to its first `AddPage`: the clone of the kernel's page directory, the object
with its link to the creator, and the frame for the shared page. -/
def startUserTask (caller : Nat) (kernel : Kernel) : Except Fault (Kernel × Nat × UInt32) := do
  let (paging, slot) ← kernel.paging.clone .kernel
  let task : Task :=
    { pageDirectory := .region slot, isUserTask := true, state := .ready, parent := some caller,
      children := [] }
  let handle := kernel.nextTid
  let kernel ← addChildTask caller handle { kernel with paging, nextTid := kernel.nextTid + 1 }
  let kernel := kernel.setTask handle (some task)
  let paddr ← kernel.paging.physicalBitmap.nextFreePhysicalPage 1
  require (kernel.paging.isVirtualMapped (.region slot) userSharedSpaceStart = false)
    .sharedSpaceReserved
  return (kernel, slot, paddr)

def startKernelTask (caller : Nat) (kernel : Kernel) : Except Fault Kernel := do
  let task : Task :=
    { pageDirectory := .kernel, isUserTask := false, state := .ready, parent := some caller,
      children := [] }
  let handle := kernel.nextTid
  let kernel ← addChildTask caller handle { kernel with nextTid := kernel.nextTid + 1 }
  return kernel.setTask handle (some task)

end Kernel

/-- `userfunc_` and `usercode_size_` of a user task, with the bytes that were there when its
constructor was called. The kernel does not keep the bytes; the loaded page is compared with them. -/
structure UserCode where
  userfunc : UInt32
  usercodeSize : UInt32
  bytes : List UInt8
  length_eq : bytes.length = usercodeSize.toNat

def UserCode.read (pd : PageDirectory) (memory : Memory) (func codesize : UInt32) : Except Fault UserCode :=
  match found : readBytes pd memory func codesize.toNat with
  | .ok bytes => .ok
      { userfunc := func, usercodeSize := codesize, bytes, length_eq := (readBytes_holds found).1 }
  | .error fault => .error fault

structure TaskSystem where
  kernel : Kernel
  scheduler : Scheduler
  tick : UInt32
  constructors : Nat → Option Constructor
  usercode : Nat → UserCode

inductive Action
  | construct (func codesize arg entryOffset : UInt32) (copier : ArgCopier) (userInKernelSpace : Bool)
      (esp0 : UInt32)
  | advance (node : Nat)
  | createKernelTask (node : Nat) (esp : UInt32) (userInKernelSpace : Bool)
  | growHeap (bytes : UInt32)
  | store (vaddr : UInt32) (byte : UInt8)
  | timer (limit : Nat) (regs : TimerRegs)
  | exit (limit : Nat)

namespace TaskSystem

def setConstructor (task : Nat) (job : Option Constructor) (system : TaskSystem) : TaskSystem :=
  { system with constructors := fun query => if query = task then job else system.constructors query }

def construct (func codesize arg entryOffset : UInt32) (copier : ArgCopier) (userInKernelSpace : Bool)
    (esp0 : UInt32) (system : TaskSystem) : Option TaskSystem := do
  let current ← system.scheduler.currentTask
  let code ← (UserCode.read (system.kernel.paging.pageDirs .kernel) system.kernel.memory func
    codesize).toOption
  let (kernel, slot, paddr) ← (system.kernel.startUserTask current).toOption
  let task := system.kernel.nextTid
  let usercode := fun query => if query = task then code else system.usercode query
  return setConstructor current (some
    { task, slot, func, codesize, arg, entryOffset, copier, userInKernelSpace, esp0,
      stage := .addSharedPage paddr }) { system with kernel, usercode }

def advance (node : Nat) (system : TaskSystem) : Option TaskSystem := do
  let current ← system.scheduler.currentTask
  let job ← system.constructors current
  let (kernel, stage) ← (job.advance system.kernel).toOption
  let scheduler ← (job.enqueue node system.scheduler).toOption
  return setConstructor current (stage.map fun stage => { job with stage })
    { system with kernel, scheduler }

def createKernelTask (node : Nat) (esp : UInt32) (userInKernelSpace : Bool) (system : TaskSystem) :
    Option TaskSystem := do
  let current ← system.scheduler.currentTask
  let kernel ← (system.kernel.startKernelTask current).toOption
  let scheduler ← (system.scheduler.createTask system.kernel.nextTid node
    { isUserTask := false, userInKernelSpace, esp, pageDirectory := .kernel, esp0 := 0 }).toOption
  return { system with kernel, scheduler }

def store (vaddr : UInt32) (byte : UInt8) (system : TaskSystem) : Option TaskSystem := do
  let current ← system.scheduler.currentTask
  let entry ← system.scheduler.tasks current
  let pd := system.kernel.paging.pageDirs entry.pageDirectory
  if userAccessible (pd (pageIndex4M vaddr)) = true then
    let address ← (translate pd vaddr).toOption
    return { system with
      kernel := { system.kernel with memory := Library.store system.kernel.memory address byte } }
  else none

def timerCallback (limit : Nat) (regs : TimerRegs) (system : TaskSystem) : Option TaskSystem :=
  let system := { system with tick := system.tick + 1 }
  if system.tick % Machine.kQuanta = 0 then do
    let (scheduler, _) ← (system.scheduler.schedule limit false (some regs)).toOption
    return { system with scheduler }
  else some system

def perform (system : TaskSystem) : Action → Option TaskSystem
  | .construct func codesize arg entryOffset copier userInKernelSpace esp0 =>
      system.construct func codesize arg entryOffset copier userInKernelSpace esp0
  | .advance node => system.advance node
  | .createKernelTask node esp userInKernelSpace => system.createKernelTask node esp userInKernelSpace
  | .growHeap bytes => do
      let kernel ← (system.kernel.growHeap bytes).toOption
      return { system with kernel }
  | .store vaddr byte => system.store vaddr byte
  | .timer limit regs => system.timerCallback limit regs
  | .exit limit => do
      let (scheduler, _) ← (system.scheduler.exitThisTask limit).toOption
      return { system with scheduler }

def Runs (system : TaskSystem) (isUserTask : Bool) : Prop :=
  ∃ current, system.scheduler.currentTask = some current ∧
    ∃ entry, system.scheduler.tasks current = some entry ∧ entry.isUserTask = isUserTask

def Idle (system : TaskSystem) : Prop :=
  ∀ current, system.scheduler.currentTask = some current → system.constructors current = none

/-- Kernel tasks run one constructor at a time, new nodes get memory that is not in use, and the
main kernel task never exits. -/
def Enabled (system : TaskSystem) : Action → Prop
  | .construct _ _ _ _ _ _ _ => system.Runs false ∧ system.Idle
  | .advance node => system.scheduler.nodes node = none
  | .createKernelTask node _ _ => system.Runs false ∧ system.Idle ∧ system.scheduler.nodes node = none
  | .growHeap _ => True
  | .store _ _ => system.Runs true
  | .timer _ _ => True
  | .exit _ => system.Idle ∧ system.scheduler.currentTask ≠ system.scheduler.mainKernelTask

def Booted (system : TaskSystem) : Prop :=
  (∃ highMemKB slots memory requests initrd,
    kernelSetup highMemKB slots memory requests initrd = .ok system.kernel) ∧
  (∃ node userInKernelSpace, Scheduler.uninitialized.initScheduler mainKernelTask node
    userInKernelSpace = .ok system.scheduler) ∧
  ∀ task, system.constructors task = none

def runs (Condition : TaskSystem → Action → Prop) : System TaskSystem Action where
  initial := Booted
  step system action after :=
    system.Enabled action ∧ Condition system action ∧ system.perform action = some after

def FirstRun (before after : TaskSystem) (task : Nat) : Prop :=
  after.scheduler.currentTask = some task ∧ ∃ entry, before.scheduler.tasks task = some entry ∧
    entry.isUserTask = true ∧ entry.state = .ready

def CodeLoaded (system : TaskSystem) (task : Nat) : Prop :=
  ∃ entry, system.scheduler.tasks task = some entry ∧
    system.kernel.paging.isVirtualMapped entry.pageDirectory userStart = true ∧
    Holds (system.kernel.paging.pageDirs entry.pageDirectory) system.kernel.memory userStart
      (system.usercode task).bytes

/-- No timer interrupt calls `schedule` between `AddToQueue` and the end of the constructor. -/
def Undisturbed (system : TaskSystem) : Action → Prop
  | .timer _ _ => (system.tick + 1) % Machine.kQuanta = 0 →
      ∀ current job, system.scheduler.currentTask = some current →
        system.constructors current = some job → job.stage.isQueued = false
  | _ => True

end TaskSystem

end ToyKernel
