import ToyKernel.Scheduler.Frames
import ToyKernel.Scheduler.Queue

/-!
The round trip of a context switch over whole runs: a task that is preempted keeps its
saved registers while other tasks run, and goes on with the registers it had.
-/

namespace ToyKernel

open Library

namespace Machine

variable {machine after : Machine} {queue : List (Nat × Nat)} {limit : Nat} {scratch : Scratch}

theorem iret_same : SameSystem machine machine.iret := by
  unfold iret
  dsimp only
  split
  · exact ⟨rfl, rfl, rfl, rfl⟩
  · exact ⟨rfl, rfl, rfl, rfl⟩

theorem iret_memory : machine.iret.memory = machine.memory := by
  unfold iret
  dsimp only
  split
  · rfl
  · rfl

theorem swapTasks_same (regs : X86TaskRegs) : SameSystem machine (machine.swapTasks regs) :=
  ⟨rfl, rfl, rfl, rfl⟩

theorem setEax_same (value : UInt32) : SameSystem machine (machine.setEax value) :=
  ⟨rfl, rfl, rfl, rfl⟩

theorem runRoutine_same (regs : X86TaskRegs) (routine : Routine) :
    SameSystem machine (machine.runRoutine regs routine) := by
  have swapped := @swapTasks_same machine regs
  cases routine with
  | switchFirstKernelTaskRun => exact (swapped.trans (setEax_same _)).trans iret_same
  | switchFirstUserTaskRun => exact (swapped.trans (setEax_same _)).trans iret_same
  | switchUserTaskRun => exact ((swapped.trans (push_same _)).trans (setEax_same _)).trans iret_same
  | switchKernelTaskRun => exact ((swapped.trans (push_same _)).trans (setEax_same _)).trans iret_same

/-- The switch routines only write below the stack pointer they restore. -/
theorem runRoutine_memory {regs : X86TaskRegs} {routine : Routine} {location : Location}
    (ring0 : machine.cpl = 0)
    (outside : ¬Below machine.view (machine.runRoutine regs routine).cpu.esp 20 location) :
    (machine.runRoutine regs routine).memory location = machine.memory location := by
  cases routine with
  | switchFirstKernelTaskRun => exact congrFun iret_memory location
  | switchFirstUserTaskRun => exact congrFun iret_memory location
  | switchUserTaskRun =>
      rw [runRoutine_user regs ring0] at outside ⊢
      exact pushes_other outside
  | switchKernelTaskRun =>
      rw [runRoutine_kernel regs ring0] at outside ⊢
      apply pushes_other
      intro below
      exact outside (below.mono (by simp))

structure Resumes (after : Machine) (memory : Location → UInt8) (selected : ScheduledTask)
    (switch : Switch) (prepared : Machine) : Prop where
  ring0 : prepared.cpl = 0
  pageDirectory : prepared.pageDirectory = selected.pageDirectory
  memory : prepared.memory = memory
  scheduler : prepared.scheduler = after.scheduler
  routine : after = prepared.runRoutine selected.regs switch.routine

theorem switchTasks_eq {switch : Switch} {entry : ScheduledTask} (selected : ScheduledTask)
    (run : machine.switchTasks switch = .ok after)
    (found : machine.scheduler.tasks switch.task = some entry) (regs : entry.regs = selected.regs)
    (pageDirectory : entry.pageDirectory = selected.pageDirectory) (ring0 : machine.cpl = 0) :
    ∃ prepared, Resumes after machine.memory selected switch prepared ∧
      after.scheduler = machine.scheduler := by
  obtain ⟨task, isTask, done⟩ := bind_eq_ok.mp run
  rw [Scheduler.getTask_eq found] at isTask
  injection isTask with isTask
  have isAfter := (pure_eq_ok.mp done).symm
  rw [← isTask] at isAfter
  generalize sets : (if entry.isUserTask then { machine with esp0 := entry.esp0 } else machine) = base
    at isAfter
  have same : base.cpu = machine.cpu ∧ base.memory = machine.memory ∧
      base.scheduler = machine.scheduler := by
    rw [← sets]
    split
    · exact ⟨rfl, rfl, rfl⟩
    · exact ⟨rfl, rfl, rfl⟩
  have keeps := @runRoutine_same { base with pageDirectory := entry.pageDirectory } entry.regs
    switch.routine
  rw [← isAfter] at keeps
  refine ⟨{ base with pageDirectory := entry.pageDirectory }, ⟨?_, pageDirectory, same.2.1, ?_, ?_⟩, ?_⟩
  · rw [cpl]
    dsimp only
    rw [same.1]
    exact ring0
  · exact keeps.scheduler.symm
  · rw [isAfter, regs]
  · exact keeps.scheduler.trans same.2.2

structure Switches (before after : Machine) (memory : Location → UInt8) (current task : Nat)
    (entry selected saved : ScheduledTask) : Prop where
  running : before.scheduler.currentTask = some current
  switched : ∃ switch prepared,
    Scheduler.Switched before.scheduler after.scheduler current task entry selected saved switch ∧
      Resumes after memory selected switch prepared

def handlerMemory (machine : Machine) (scratch : Scratch) : Location → UInt8 :=
  (machine.interrupt.irqStub.call scratch).memory

def handlerRegs (machine : Machine) (scratch : Scratch) : TimerRegs :=
  (machine.interrupt.irqStub.call scratch).timerRegs (machine.base - 56)

theorem popRegisters_same (pointer : UInt32) : SameSystem machine (machine.popRegisters pointer) :=
  ⟨rfl, rfl, rfl, rfl⟩

theorem restoreRegisters_same (pointer : UInt32) :
    SameSystem machine (machine.restoreRegisters pointer) :=
  (popRegisters_same pointer).trans iret_same

theorem restoreRegisters_memory (pointer : UInt32) :
    (machine.restoreRegisters pointer).memory = machine.memory :=
  iret_memory.trans rfl

theorem timer_cases (queued : Scheduler.Queued machine.scheduler queue)
    (run : machine.timerInterrupt limit scratch = .ok after) :
    (after.scheduler = machine.scheduler ∧ after.pageDirectory = machine.pageDirectory ∧
      after.memory = machine.handlerMemory scratch) ∨
    ∃ current task entry selected saved next,
      Switches machine after (machine.handlerMemory scratch) current task entry selected saved ∧
        Scheduler.Saves (some (machine.handlerRegs scratch)) entry saved ∧
        task ∈ queue.map Prod.snd ∧ Scheduler.Queued after.scheduler next := by
  unfold timerInterrupt at run
  dsimp only at run
  have stubbed := (@interrupt_same machine).trans ((irqStub_same).trans (call_same scratch))
  have pointer : machine.interrupt.irqStub.cpu.esp + 4 = machine.base - 56 := by
    rw [stub_esp]
    grind
  rw [pointer] at run
  have ring0 : (machine.interrupt.irqStub.call scratch).cpl = 0 := stub_cpl
  have disabled : (machine.interrupt.irqStub.call scratch).interruptsAreEnabled = false :=
    stub_interruptsAreEnabled
  generalize called : machine.interrupt.irqStub.call scratch = handler at run stubbed ring0 disabled
  have isMemory : handler.memory = machine.handlerMemory scratch := by rw [← called, handlerMemory]
  have isRegs : handler.timerRegs (machine.base - 56) = machine.handlerRegs scratch := by
    rw [← called, handlerRegs]
  split at run
  · obtain ⟨⟨scheduler, switch⟩, scheduled, rest⟩ := bind_eq_ok.mp run
    have scheduled : machine.scheduler.schedule limit false (some (machine.handlerRegs scratch)) =
        .ok (scheduler, switch) := by
      rw [← isRegs, ← stubbed.scheduler, ← disabled]
      exact scheduled
    rcases queued.timer.of_ok scheduled with ⟨same, _⟩ |
      ⟨current, task, entry, selected, saved, switch, next, isSwitch, isCurrent, listed, switched, saves,
        later⟩
    · obtain ⟨rfl, rfl⟩ := Prod.mk.inj same
      obtain rfl := pure_eq_ok.mp rest
      refine Or.inl ⟨?_, ?_, ?_⟩
      · rw [(restoreRegisters_same _).scheduler]
      · rw [(restoreRegisters_same _).pageDirectory, stubbed.pageDirectory]
      · rw [restoreRegisters_memory, isMemory]
    · obtain rfl : _ = some switch := isSwitch
      have found : scheduler.tasks switch.task = some { selected with state := .running } := by
        rw [switched.routine, switched.tasks, if_pos rfl]
      obtain ⟨prepared, resumes, sameScheduler⟩ := switchTasks_eq selected rest found rfl rfl ring0
      have isScheduler : after.scheduler = scheduler := sameScheduler
      rw [isMemory] at resumes
      refine Or.inr ⟨current, task, entry, selected, saved, next,
        ⟨isCurrent, switch, prepared, ?_, resumes⟩, saves, listed, ?_⟩
      · rw [isScheduler]
        exact switched
      · rw [isScheduler]
        exact later
  · obtain rfl := pure_eq_ok.mp run
    refine Or.inl ⟨?_, ?_, ?_⟩
    · rw [(restoreRegisters_same _).scheduler]
      exact stubbed.scheduler
    · rw [(restoreRegisters_same _).pageDirectory]
      exact stubbed.pageDirectory
    · rw [restoreRegisters_memory]
      exact isMemory

theorem exit_cases (queued : Scheduler.Queued machine.scheduler queue) (ring0 : machine.cpl = 0)
    (notMain : machine.scheduler.currentTask ≠ machine.scheduler.mainKernelTask)
    (run : machine.exitTask limit scratch = .ok after) :
    ∃ current task entry selected saved next,
      Switches machine after (machine.call scratch).memory current task entry selected saved ∧
        task ∈ queue.map Prod.snd ∧ Scheduler.Queued after.scheduler next := by
  obtain ⟨⟨scheduler, switch⟩, exited, rest⟩ := bind_eq_ok.mp run
  obtain ⟨current, task, entry, selected, saved, next, isCurrent, listed, switched, _, later⟩ :=
    (queued.exit notMain).of_ok exited
  dsimp only at switched later rest
  have found : scheduler.tasks switch.task = some { selected with state := .running } := by
    rw [switched.routine, switched.tasks, if_pos rfl]
  obtain ⟨prepared, resumes, sameScheduler⟩ := switchTasks_eq selected rest found rfl rfl ring0
  have isScheduler : after.scheduler = scheduler := sameScheduler
  refine ⟨current, task, entry, selected, saved, next,
    ⟨isCurrent, switch, prepared, ?_, resumes⟩, listed, ?_⟩
  · rw [isScheduler]
    exact switched
  · rw [isScheduler]
    exact later

structure Scheduled (machine : Machine) : Prop where
  queued : ∃ queue, Scheduler.Queued machine.scheduler queue
  space : ∀ task entry, machine.scheduler.currentTask = some task →
    machine.scheduler.tasks task = some entry → machine.pageDirectory = entry.pageDirectory

theorem Switches.pageDirectory {memory : Location → UInt8} {current task : Nat}
    {entry selected saved : ScheduledTask}
    (switches : Switches machine after memory current task entry selected saved) :
    after.pageDirectory = selected.pageDirectory := by
  obtain ⟨switch, prepared, _, resumes⟩ := switches.switched
  rw [resumes.routine, (runRoutine_same _ _).pageDirectory, resumes.pageDirectory]

theorem Switches.space {memory : Location → UInt8} {current task : Nat}
    {entry selected saved : ScheduledTask}
    (switches : Switches machine after memory current task entry selected saved) :
    ∀ query found, after.scheduler.currentTask = some query →
      after.scheduler.tasks query = some found → after.pageDirectory = found.pageDirectory := by
  intro query found isCurrent isFound
  obtain ⟨switch, prepared, switched, _⟩ := switches.switched
  rw [switched.currentTask] at isCurrent
  rw [← Option.some.inj isCurrent, switched.tasks, if_pos rfl] at isFound
  rw [switches.pageDirectory, ← Option.some.inj isFound]

/-- What one step does to the task that is not running, and to the invariant. -/
theorem step_cases {action : Action} (scheduled : Scheduled machine)
    (happens : machine.Happens action after) :
    Scheduled after ∧
      ((after.scheduler.currentTask = machine.scheduler.currentTask ∧
        ∀ task entry, machine.scheduler.tasks task = some entry → entry.state ≠ .completed →
          after.scheduler.tasks task = some entry) ∨
      ∃ memory current task entry selected saved,
        Switches machine after memory current task entry selected saved) := by
  obtain ⟨queue, queued⟩ := scheduled.queued
  cases action with
  | execute cpu memory =>
      obtain rfl : after = _ := happens
      exact ⟨⟨⟨queue, queued⟩, scheduled.space⟩, Or.inl ⟨rfl, fun _ _ found _ => found⟩⟩
  | create task node new cpu memory =>
      obtain ⟨scheduler, ⟨freshTask, freshNode, run⟩, rfl⟩ := happens
      have later := queued.create freshTask freshNode run
      obtain ⟨_, _, rest⟩ := bind_eq_ok.mp run
      obtain ⟨_, _, done⟩ := bind_eq_ok.mp rest
      obtain rfl := pure_eq_ok.mp done
      have kept : ∀ query entry, machine.scheduler.tasks query = some entry →
          ((machine.scheduler.setTask task (some new.entry)).addToQueue task node).tasks query =
            some entry := by
        intro query entry found
        have other : query ≠ task := by
          rintro rfl
          rw [freshTask] at found
          cases found
        exact (if_neg other).trans found
      refine ⟨⟨⟨_, later⟩, ?_⟩, Or.inl ⟨rfl, fun query entry found _ => kept query entry found⟩⟩
      intro query entry isCurrent found
      obtain ⟨before, known⟩ := queued.linked.known query
        (List.mem_of_getLast? (queued.current.symm.trans isCurrent))
      have same := kept query before known
      rw [same] at found
      rw [← Option.some.inj found]
      exact scheduled.space query before isCurrent known
  | destroy task cpu memory =>
      obtain ⟨scheduler, ⟨⟨entry, found, completed⟩, rfl⟩, rfl⟩ := happens
      refine ⟨⟨⟨queue, queued.destroy found completed⟩, ?_⟩, Or.inl ⟨rfl, ?_⟩⟩
      · intro query other isCurrent isOther
        rw [Scheduler.tasks_setTask] at isOther
        split at isOther
        · cases isOther
        · exact scheduled.space query other isCurrent isOther
      · intro query other isOther alive
        have different : query ≠ task := by
          rintro rfl
          rw [found] at isOther
          rw [← Option.some.inj isOther] at alive
          exact alive completed
        rw [Scheduler.tasks_setTask, if_neg different, isOther]
  | timer limit scratch =>
      rcases timer_cases queued happens with ⟨sameScheduler, samePage, _⟩ |
        ⟨current, task, entry, selected, saved, next, switches, _, _, later⟩
      · refine ⟨⟨⟨queue, by rw [sameScheduler]; exact queued⟩, ?_⟩, Or.inl ⟨?_, ?_⟩⟩
        · rw [sameScheduler, samePage]
          exact scheduled.space
        · rw [sameScheduler]
        · intro query entry found _
          rw [sameScheduler, found]
      · exact ⟨⟨⟨next, later⟩, switches.space⟩, Or.inr ⟨_, _, _, _, _, _, switches⟩⟩
  | exit limit scratch =>
      obtain ⟨ring0, notMain, run⟩ := happens
      obtain ⟨current, task, entry, selected, saved, next, switches, _, later⟩ :=
        exit_cases queued ring0 notMain run
      exact ⟨⟨⟨next, later⟩, switches.space⟩, Or.inr ⟨_, _, _, _, _, _, switches⟩⟩

theorem reachable_scheduled (reachable : runs.Reachable machine) : Scheduled machine := by
  refine reachable.invariant Scheduled ?_ ?_
  · rintro state ⟨⟨task, node, userInKernelSpace, run⟩, isKernel⟩
    refine ⟨⟨_, Scheduler.initScheduler_queued run⟩, ?_⟩
    obtain ⟨_, _, done⟩ := bind_eq_ok.mp run
    rw [← pure_eq_ok.mp done]
    intro query entry isCurrent found
    change (if query = task then _ else none) = some entry at found
    rw [if_pos (Option.some.inj isCurrent).symm] at found
    rw [isKernel, ← Option.some.inj found]
  · intro state action next scheduled happens
    exact (step_cases scheduled happens).1

def Away (task : Nat) : Machine → Machine → Prop :=
  Relation.ReflTransGen fun before after =>
    (∃ action, before.Happens action after) ∧ after.scheduler.currentTask ≠ some task

theorem Away.keeps {task : Nat} {entry : ScheduledTask} (away : Away task machine after)
    (scheduled : Scheduled machine) (waits : machine.scheduler.currentTask ≠ some task)
    (found : machine.scheduler.tasks task = some entry) (alive : entry.state ≠ .completed) :
    Scheduled after ∧ after.scheduler.currentTask ≠ some task ∧
      after.scheduler.tasks task = some entry := by
  induction away with
  | refl => exact ⟨scheduled, waits, found⟩
  | tail _ step ih =>
      obtain ⟨⟨action, happens⟩, stillWaits⟩ := step
      obtain ⟨before, waited, known⟩ := ih
      obtain ⟨later, ⟨_, kept⟩ | ⟨_, current, next, _, _, _, switches⟩⟩ := step_cases before happens
      · exact ⟨later, stillWaits, kept task entry known alive⟩
      · obtain ⟨switch, prepared, switched, _⟩ := switches.switched
        refine ⟨later, stillWaits, ?_⟩
        have notNext : task ≠ next := by
          rintro rfl
          exact stillWaits switched.currentTask
        have notCurrent : task ≠ current := by
          rintro rfl
          exact waited switches.running
        rw [switched.tasks, if_neg notNext, if_neg notCurrent, known]

/-- The registers that a program can tell apart. -/
structure SameContext (restored interrupted : Cpu) : Prop where
  eax : restored.eax = interrupted.eax
  ebx : restored.ebx = interrupted.ebx
  ecx : restored.ecx = interrupted.ecx
  edx : restored.edx = interrupted.edx
  esi : restored.esi = interrupted.esi
  edi : restored.edi = interrupted.edi
  ebp : restored.ebp = interrupted.ebp
  esp : restored.esp = interrupted.esp
  eip : restored.eip = interrupted.eip
  eflags : restored.eflags = interrupted.eflags
  cs : restored.cs = interrupted.cs
  ds : restored.ds = interrupted.ds

theorem saves_context {entry saved : ScheduledTask} (ss : UInt16)
    (saves : Scheduler.Saves (some (machine.handlerRegs scratch)) entry saved) :
    SameContext (resumedCpu saved.regs
      (if saved.isUserTask && !saved.userInKernelSpace then kUserCodeSegment else kKernelCodeSegment) ss)
      machine.cpu := by
  obtain ⟨esp, inKernelSpace, adjusted, rfl⟩ := saves
  obtain ⟨isEsp, isCs⟩ := adjustedEsp_context adjusted
  have regs : (machine.handlerRegs scratch).regs =
      (machine.interrupt.irqStub.call scratch).readRegisters (machine.base - 56) := rfl
  rw [regs, stub_readRegisters, isEsp]
  refine ⟨rfl, rfl, rfl, rfl, rfl, rfl, rfl, rfl, rfl, rfl, ?_, ?_⟩
  · rw [isCs]
    rfl
  · exact dataSegment_toUInt16 _ _

theorem Resumes.cpu {memory : Location → UInt8} {selected : ScheduledTask} {switch : Switch}
    {prepared : Machine} (resumes : Resumes after memory selected switch prepared)
    (routine : switch.routine =
      Scheduler.routine false (selected.isUserTask && !selected.userInKernelSpace)) :
    ∃ ss, after.cpu = resumedCpu selected.regs
      (if selected.isUserTask && !selected.userInKernelSpace then kUserCodeSegment
        else kKernelCodeSegment) ss := by
  cases jump : selected.isUserTask && !selected.userInKernelSpace with
  | true =>
      rw [jump] at routine
      rw [resumes.routine, routine]
      exact ⟨_, congrArg Machine.cpu (runRoutine_user selected.regs resumes.ring0)⟩
  | false =>
      rw [jump] at routine
      rw [resumes.routine, routine]
      exact ⟨_, congrArg Machine.cpu (runRoutine_kernel selected.regs resumes.ring0)⟩

def FrameArea (machine : Machine) (scratch : Scratch) (location : Location) : Prop :=
  Below machine.view (if machine.cpl = 0 then machine.cpu.esp else machine.esp0) (68 + scratch.depth)
    location

def ResumeArea (machine : Machine) (location : Location) : Prop :=
  Below machine.view machine.cpu.esp 20 location

def stackTop (machine : Machine) : UInt32 := if machine.cpl = 0 then machine.cpu.esp else machine.esp0

theorem base_stackTop : ∃ skipped ≤ 8, machine.base = machine.stackTop - UInt32.ofNat skipped ∧
    ∀ location, ¬Below machine.view machine.stackTop 8 location →
      machine.enterRing0.memory location = machine.memory location := by
  unfold base stackTop
  by_cases ring0 : machine.cpl = 0
  · refine ⟨0, by decide, ?_, fun location _ => ?_⟩
    · rw [enterRing0, if_pos ring0, if_pos ring0, show UInt32.ofNat 0 = 0 from rfl, UInt32.sub_zero]
    · rw [enterRing0, if_pos ring0]
  · refine ⟨8, by decide, ?_, fun location outside => ?_⟩
    · rw [enterRing0, if_neg ring0, if_neg ring0]
      rfl
    · rw [if_neg ring0] at outside
      rw [enterRing0, if_neg ring0]
      apply pushes_other
      exact outside

theorem trap_memory_other (errCode intNo : UInt32) {location : Location}
    (outside : ¬Below machine.view machine.stackTop 68 location) :
    (machine.interrupt.trapStub errCode intNo).memory location = machine.memory location := by
  obtain ⟨skipped, few, isBase, kept⟩ := @base_stackTop machine
  rw [trap_memory, pushes_other]
  · exact kept location (fun below => outside (below.mono (by decide)))
  · intro below
    rw [isBase] at below
    refine outside (below.shift.mono ?_)
    simp only [trapFrame, List.length_append, List.length_cons, List.length_nil]
    omega

theorem handlerMemory_other {location : Location} (outside : ¬FrameArea machine scratch location) :
    machine.handlerMemory scratch location = machine.memory location := by
  have above : ¬Below machine.view machine.stackTop (68 + scratch.depth) location := outside
  obtain ⟨skipped, few, isBase, _⟩ := @base_stackTop machine
  have stubView : machine.interrupt.irqStub.view = machine.view :=
    (interrupt_same.trans irqStub_same).view
  rw [handlerMemory, call_other]
  · exact trap_memory_other 0 irq0 (fun below => above (below.mono (by omega)))
  · intro below
    rw [stubView, stub_esp, show (60 : UInt32) = UInt32.ofNat 60 from rfl, isBase] at below
    exact above (below.shift.shift.mono (by omega))

theorem Switches.memory_other {memory : Location → UInt8} {current task : Nat}
    {entry selected saved : ScheduledTask}
    (switches : Switches machine after memory current task entry selected saved) {location : Location}
    (outside : ¬ResumeArea after location) : after.memory location = memory location := by
  obtain ⟨switch, prepared, _, resumes⟩ := switches.switched
  have view : after.view = prepared.view := by
    rw [resumes.routine, (runRoutine_same _ _).view]
  rw [ResumeArea, view] at outside
  rw [resumes.routine] at outside ⊢
  rw [runRoutine_memory resumes.ring0 outside, resumes.memory]

def Action.FrameArea (machine : Machine) : Action → Location → Prop
  | .timer _ scratch => machine.FrameArea scratch
  | .exit _ scratch => machine.FrameArea scratch
  | _ => fun _ => False

/-- A step to another task only writes the frames of the one and of the other. -/
theorem switch_memory {action : Action} {location : Location} (scheduled : Scheduled machine)
    (happens : machine.Happens action after)
    (switched : after.scheduler.currentTask ≠ machine.scheduler.currentTask)
    (frameOutside : ¬action.FrameArea machine location)
    (resumeOutside : ¬ResumeArea after location) : after.memory location = machine.memory location := by
  obtain ⟨queue, queued⟩ := scheduled.queued
  cases action with
  | execute cpu memory =>
      obtain rfl : after = _ := happens
      exact absurd rfl switched
  | create task node new cpu memory =>
      obtain ⟨scheduler, ⟨_, _, run⟩, rfl⟩ := happens
      obtain ⟨_, _, rest⟩ := bind_eq_ok.mp run
      obtain ⟨_, _, done⟩ := bind_eq_ok.mp rest
      obtain rfl := pure_eq_ok.mp done
      exact absurd rfl switched
  | destroy task cpu memory =>
      obtain ⟨scheduler, ⟨_, rfl⟩, rfl⟩ := happens
      exact absurd rfl switched
  | timer limit scratch =>
      rcases timer_cases queued happens with ⟨same, _, _⟩ | ⟨_, _, _, _, _, _, switches, _, _, _⟩
      · rw [same] at switched
        exact absurd rfl switched
      · rw [switches.memory_other resumeOutside, handlerMemory_other frameOutside]
  | exit limit scratch =>
      obtain ⟨ring0, notMain, run⟩ := happens
      obtain ⟨_, _, _, _, _, _, switches, _, _⟩ := exit_cases queued ring0 notMain run
      rw [switches.memory_other resumeOutside, call_other]
      intro below
      rw [Action.FrameArea, Machine.FrameArea, if_pos ring0] at frameOutside
      exact frameOutside (below.mono (by omega))

/-- A task that was preempted and is selected again goes on with the registers it was
interrupted with, whichever tasks ran in between. The bytes of its stack from its stack
pointer on are those of before: the two switches of the task write elsewhere, as long as
the stacks of the other tasks, and its own one for interrupts from user mode, are
elsewhere. -/
theorem contextSwitch_roundTrip {interrupted left right resumed : Machine} {task : Nat}
    {action : Action} (reachable : runs.Reachable interrupted)
    (runsTask : interrupted.scheduler.currentTask = some task)
    (preempted : interrupted.timerInterrupt limit scratch = .ok left)
    (waits : left.scheduler.currentTask ≠ some task) (away : Away task left right)
    (selected : right.Happens action resumed) (back : resumed.scheduler.currentTask = some task) :
    SameContext resumed.cpu interrupted.cpu ∧ resumed.pageDirectory = interrupted.pageDirectory ∧
      ∀ above, above + scratch.depth + 68 < 4294967296 →
        let location := interrupted.view (interrupted.cpu.esp + UInt32.ofNat above)
        ((interrupted.cpl ≠ 0 → ¬FrameArea interrupted scratch location) → ¬ResumeArea left location →
          left.memory location = interrupted.memory location) ∧
        (¬action.FrameArea right location → resumed.memory location = right.memory location) := by
  have scheduled := reachable_scheduled reachable
  obtain ⟨queue, queued⟩ := scheduled.queued
  have preemption : interrupted.Happens (.timer limit scratch) left := preempted
  rcases timer_cases queued preempted with ⟨same, _, _⟩ |
    ⟨current, next, entry, selectedEntry, saved, nextQueue, switches, saves, _, later⟩
  · rw [same] at waits
    exact absurd runsTask waits
  · obtain ⟨switch, prepared, switched, _⟩ := switches.switched
    obtain rfl : current = task := Option.some.inj (switches.running.symm.trans runsTask)
    have running := queued.running current entry runsTask switched.left
    have savedFound : left.scheduler.tasks current = some saved := by
      rw [switched.tasks, if_neg (Ne.symm switched.different), if_pos rfl]
    have savedState : saved.state = .running := saves.state.trans running
    have scheduledLeft := (step_cases scheduled preemption).1
    obtain ⟨scheduledRight, waitsRight, found⟩ :=
      away.keeps scheduledLeft waits savedFound (by rw [savedState]; decide)
    obtain ⟨_, ⟨same, _⟩ | ⟨_, _, other, _, chosen, _, resumption⟩⟩ := step_cases scheduledRight selected
    · rw [same] at back
      exact absurd back waitsRight
    · obtain ⟨switchBack, preparedBack, switchedBack, resumes⟩ := resumption.switched
      obtain rfl : other = current := Option.some.inj (switchedBack.currentTask.symm.trans back)
      obtain rfl : saved = chosen := Option.some.inj (found.symm.trans switchedBack.chosen)
      have routine : switchBack.routine =
          Scheduler.routine false (saved.isUserTask && !saved.userInKernelSpace) := by
        rw [switchedBack.routine, savedState]
        rfl
      obtain ⟨ss, isCpu⟩ := resumes.cpu routine
      have context : SameContext resumed.cpu interrupted.cpu := by
        rw [isCpu]
        exact saves_context ss saves
      have samePage : saved.pageDirectory = entry.pageDirectory := by
        obtain ⟨_, _, _, rfl⟩ := saves
        rfl
      have page : resumed.pageDirectory = interrupted.pageDirectory := by
        rw [resumption.pageDirectory, samePage,
          scheduled.space other entry runsTask switched.left]
      refine ⟨context, page, ?_⟩
      intro above bound location
      constructor
      · intro ring3 resumeOutside
        refine switch_memory scheduled preemption ?_ ?_ resumeOutside
        · rw [runsTask]
          exact waits
        · by_cases ring0 : interrupted.cpl = 0
          · change ¬FrameArea interrupted scratch location
            rw [FrameArea, if_pos ring0]
            exact not_below_of_above (locate_injective _) (by omega)
          · exact ring3 ring0
      · intro frameOutside
        refine switch_memory scheduledRight selected ?_ frameOutside ?_
        · rw [back]
          exact Ne.symm waitsRight
        · have isLocation : location = resumed.view (resumed.cpu.esp + UInt32.ofNat above) := by
            rw [context.esp, view, page]
            rfl
          rw [isLocation]
          exact not_below_of_above (locate_injective _) (by omega)

def kernelCpu : Cpu where
  eax := 1
  ecx := 2
  edx := 3
  ebx := 4
  esp := 0x2000800
  ebp := 0x2000900
  esi := 5
  edi := 6
  eip := 0x400000
  eflags := 0x202
  cs := kKernelCodeSegment
  ds := kKernelDataSegment
  es := kKernelDataSegment
  fs := kKernelDataSegment
  gs := kKernelDataSegment
  ss := kKernelDataSegment

def noScratch : Scratch := ⟨0, fun _ => 0, by decide⟩

def kernelMachine (scheduler : Scheduler) : Machine :=
  { cpu := kernelCpu, memory := fun _ => 0, pageDirectory := .kernel, esp0 := 0, tick := 1, scheduler }

def thereAndBack : Except Panic (Machine × Machine × Machine × Machine) := do
  let scheduler ← Scheduler.uninitialized.initScheduler 0 0 false
  let scheduler ← scheduler.createTask 1 1 Scheduler.secondTask
  let left ← (kernelMachine scheduler).timerInterrupt 2 noScratch
  let right ← { left with cpu := kernelCpu }.timerInterrupt 2 noScratch
  let resumed ← right.timerInterrupt 2 noScratch
  return (kernelMachine scheduler, left, right, resumed)

def inOrder : Machine × Machine × Machine × Machine → Bool
  | (interrupted, left, right, resumed) =>
      interrupted.scheduler.currentTask = some 0 && left.scheduler.currentTask = some 1 &&
        right.scheduler.currentTask = some 1 && resumed.scheduler.currentTask = some 0

theorem contextSwitch_roundTrip_kernelTasks : ∃ interrupted left resumed : Machine,
    interrupted.timerInterrupt 2 noScratch = .ok left ∧ interrupted.cpu = kernelCpu ∧
      left.scheduler.currentTask = some 1 ∧ resumed.scheduler.currentTask = some 0 ∧
      SameContext resumed.cpu interrupted.cpu := by
  have passed : thereAndBack.toOption.any inOrder = true := by
    decide +kernel
  obtain ⟨states, run, ordered⟩ := toOption_any.mp passed
  obtain ⟨first, initialized, rest⟩ := bind_eq_ok.mp run
  obtain ⟨second, created, rest⟩ := bind_eq_ok.mp rest
  obtain ⟨left, preempted, rest⟩ := bind_eq_ok.mp rest
  obtain ⟨right, returned, rest⟩ := bind_eq_ok.mp rest
  obtain ⟨resumed, selected, done⟩ := bind_eq_ok.mp rest
  obtain rfl := pure_eq_ok.mp done
  simp only [inOrder, Bool.and_eq_true, decide_eq_true_eq] at ordered
  obtain ⟨⟨⟨runsTask, inLeft⟩, inRight⟩, back⟩ := ordered
  have fresh : first.tasks 1 = none ∧ first.nodes 1 = none := by
    obtain rfl := pure_eq_ok.mp initialized
    exact ⟨rfl, rfl⟩
  have start : runs.Reachable (kernelMachine first) := .start ⟨⟨0, 0, false, initialized⟩, rfl⟩
  have creates : runs.step (kernelMachine first)
      (.create 1 1 Scheduler.secondTask kernelCpu fun _ => 0) (kernelMachine second) :=
    ⟨second, ⟨fresh.1, fresh.2, created⟩, rfl⟩
  have executes : left.Happens (.execute kernelCpu left.memory) { left with cpu := kernelCpu } := rfl
  have interrupts : ({ left with cpu := kernelCpu } : Machine).Happens (.timer 2 noScratch) right :=
    returned
  have resumes : right.Happens (.timer 2 noScratch) resumed := selected
  have waits : left.scheduler.currentTask ≠ some 0 := by
    rw [inLeft]
    decide
  have away : Away 0 left right := by
    refine (Relation.ReflTransGen.single ⟨⟨_, executes⟩, waits⟩).tail ⟨⟨_, interrupts⟩, ?_⟩
    rw [inRight]
    decide
  have trip := contextSwitch_roundTrip (start.next creates) runsTask preempted waits away resumes back
  exact ⟨_, left, resumed, preempted, rfl, inLeft, back, trip.1⟩

end Machine

end ToyKernel
