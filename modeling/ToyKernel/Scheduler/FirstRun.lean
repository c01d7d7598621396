import ToyKernel.Scheduler.Loading
import ToyKernel.Scheduler.Queue

/-!
First runs of user tasks. `AddToQueue` makes a new task visible to the scheduler before
its code page is mapped and filled, so a timer interrupt in between runs a task without
code. Without such an interrupt, every task has its code when it runs first.
-/

namespace ToyKernel

open Library Paging Kernel

namespace TaskSystem

structure InConstructor (system : TaskSystem) (job : Constructor) : Prop where
  owner : system.kernel.owner job.task = some (.region job.slot, true)
  unqueued : job.stage.isQueued = false → system.scheduler.tasks job.task = none
  length : (system.usercode job.task).bytes.length = job.codesize.toNat
  source : Source system.kernel job.func (system.usercode job.task).bytes
  reached : StageReached system.kernel.paging job.slot job.stage

def Waiting (system : TaskSystem) (task : Nat) : Prop :=
  (∃ slot, system.kernel.owner task = some (.region slot, true) ∧
    Loaded system.kernel slot (system.usercode task).bytes) ∨
  ∃ creator job, system.constructors creator = some job ∧ job.task = task ∧ job.stage.isQueued = true

structure Valid (system : TaskSystem) : Prop where
  owned : Owned system.kernel
  separated : Separated system.kernel.paging
  apart : HeapApart system.kernel.paging system.kernel.heap
  queue : ∃ queue, Scheduler.Queued system.scheduler queue
  known : ∀ task entry, system.scheduler.tasks task = some entry →
    system.kernel.owner task = some (entry.pageDirectory, entry.isUserTask)
  jobs : ∀ creator job, system.constructors creator = some job → system.InConstructor job
  distinct : ∀ left right job other, system.constructors left = some job →
    system.constructors right = some other → job.task = other.task → left = right
  ready : ∀ task entry, system.scheduler.tasks task = some entry → entry.isUserTask = true →
    entry.state = .ready → system.Waiting task
  creating : ∀ creator job, system.constructors creator = some job → job.stage.isQueued = true →
    system.scheduler.currentTask = some creator

variable {system after : TaskSystem}

theorem Owned.listed {kernel : Kernel} {task slot : Nat} (owned : Owned kernel)
    (uses : kernel.owner task = some (.region slot, true)) : slot ∈ kernel.paging.slots := by
  obtain ⟨other, listed, same⟩ := owned.userTasks task _ uses
  injection same with same
  rw [same]
  exact listed

theorem InConstructor.kept {closes : Prop} {writer : Option Nat} {job : Constructor}
    (inside : system.InConstructor job) (valid : system.Valid)
    (progress : Progress closes writer system.kernel after.kernel)
    (owner : after.kernel.owner job.task = system.kernel.owner job.task)
    (tasks : job.stage.isQueued = false → after.scheduler.tasks job.task = system.scheduler.tasks job.task)
    (usercode : after.usercode job.task = system.usercode job.task)
    (stays : opensShared job.stage = true → Extends False system.kernel.paging after.kernel.paging) :
    after.InConstructor job := by
  have listed := Owned.listed valid.owned inside.owner
  constructor
  · rw [owner]
    exact inside.owner
  · intro unqueued
    rw [tasks unqueued]
    exact inside.unqueued unqueued
  · rw [usercode]
    exact inside.length
  · rw [usercode]
    exact progress.source valid.separated inside.source
  · exact inside.reached.kept progress.extension listed stays

theorem Loaded.kept {closes : Prop} {writer : Option Nat} {task slot : Nat} (valid : system.Valid)
    (uses : system.kernel.owner task = some (.region slot, true))
    (loaded : Loaded system.kernel slot (system.usercode task).bytes)
    (progress : Progress closes writer system.kernel after.kernel) (other : writer ≠ some slot)
    (usercode : after.usercode task = system.usercode task) :
    Loaded after.kernel slot (after.usercode task).bytes := by
  rw [usercode]
  exact progress.loaded valid.separated (Owned.listed valid.owned uses) other loaded

/-- A step on page tables and memory alone, by the heap or by a running user task. -/
theorem Valid.of_progress {writer : Option Nat} {kernel : Kernel} (valid : system.Valid)
    (same : SameTasks system.kernel kernel) (slots : kernel.paging.slots = system.kernel.paging.slots)
    (separated : Separated kernel.paging) (apart : HeapApart kernel.paging kernel.heap)
    (progress : Progress False writer system.kernel kernel)
    (running : ∀ slot, writer = some slot → ∀ task entry, system.scheduler.tasks task = some entry →
      entry.state = .ready → entry.pageDirectory ≠ .region slot) :
    Valid { system with kernel } := by
  have owner : ∀ task, kernel.owner task = system.kernel.owner task := same.owner
  constructor
  · exact same.owned valid.owned slots
  · exact separated
  · exact apart
  · exact valid.queue
  · intro task entry found
    exact (owner task).trans (valid.known task entry found)
  · intro creator job running
    exact (valid.jobs creator job running).kept valid progress (owner _) (fun _ => rfl) rfl
      fun _ => progress.extension
  · exact valid.distinct
  · intro task entry found isUser isReady
    rcases valid.ready task entry found isUser isReady with ⟨slot, uses, loaded⟩ | unfinished
    · refine Or.inl ⟨slot, (owner task).trans uses, Loaded.kept valid uses loaded progress ?_ rfl⟩
      intro isWriter
      refine running slot isWriter task entry found isReady ?_
      have known := valid.known task entry found
      rw [uses] at known
      exact (Prod.mk.inj (Option.some.inj known)).1.symm
    · exact Or.inr unfinished
  · exact valid.creating

theorem Valid.growHeap {bytes : UInt32} {kernel : Kernel} (valid : system.Valid)
    (run : system.kernel.growHeap bytes = .ok kernel) : Valid { system with kernel } := by
  obtain ⟨grown, same, memory⟩ := growHeap_separated valid.separated valid.apart run
  refine valid.of_progress same grown.slots grown.separated grown.apart
    (.of_same grown.extension memory : Progress False none _ _) ?_
  intro slot impossible
  cases impossible

/-- The page directory of a user task is not that of a waiting task. -/
theorem Valid.running_apart {current task slot : Nat} {entry other : ScheduledTask} (valid : system.Valid)
    (isCurrent : system.scheduler.currentTask = some current)
    (found : system.scheduler.tasks current = some entry) (isUser : entry.isUserTask = true)
    (uses : entry.pageDirectory = .region slot) (otherFound : system.scheduler.tasks task = some other)
    (isReady : other.state = .ready) : other.pageDirectory ≠ .region slot := by
  intro same
  have owner := valid.known current entry found
  have otherOwner := valid.known task other otherFound
  rw [uses, isUser] at owner
  rw [same] at otherOwner
  cases otherUser : other.isUserTask with
  | false =>
      rw [otherUser] at otherOwner
      cases valid.owned.kernelTasks task _ otherOwner
  | true =>
      rw [otherUser] at otherOwner
      obtain rfl := valid.owned.distinct current task _ owner otherOwner
      obtain ⟨queue, queued⟩ := valid.queue
      have running := queued.running current other isCurrent otherFound
      rw [isReady] at running
      cases running

theorem Valid.store {vaddr : UInt32} {byte : UInt8} (valid : system.Valid) (runs : system.Runs true)
    (run : system.store vaddr byte = some after) : after.Valid := by
  obtain ⟨current, isCurrent, rest⟩ := bind_eq_some.mp run
  obtain ⟨entry, found, rest⟩ := bind_eq_some.mp rest
  obtain ⟨other, sameTask, running, otherFound, isUser⟩ := runs
  obtain rfl : current = other := Option.some.inj (isCurrent.symm.trans sameTask)
  obtain rfl : entry = running := Option.some.inj (found.symm.trans otherFound)
  dsimp only at rest
  split at rest
  · rename_i accessible
    obtain ⟨address, translated, done⟩ := bind_eq_some.mp rest
    obtain rfl := Option.some.inj done
    obtain ⟨frame, maps, rfl⟩ := translate_eq_ok.mp (toOption_eq_some.mp translated)
    have owner := valid.known current entry found
    rw [isUser] at owner
    obtain ⟨slot, listed, uses⟩ := valid.owned.userTasks current _ owner
    rw [uses] at accessible maps
    have changed : ChangedIn frame system.kernel.memory
        (Library.store system.kernel.memory (frame * 4194304 + vaddr.toNat % 4194304) byte) := by
      intro query outside
      apply store_other
      omega
    have userMaps : system.kernel.paging.UserMaps (.region slot) (pageIndex4M vaddr) frame :=
      ⟨pageIndex4M_lt vaddr, accessible, maps⟩
    refine valid.of_progress ⟨rfl, rfl⟩ rfl valid.separated valid.apart
      ⟨.refl _ _, frame, changed, Or.inr ⟨slot, listed, rfl, _, userMaps⟩⟩ ?_
    rintro _ ⟨⟩ task waiting waitingFound isReady
    exact valid.running_apart isCurrent found isUser uses waitingFound isReady
  · cases rest

theorem constructors_setConstructor (task : Nat) (job : Option Constructor) (query : Nat) :
    (system.setConstructor task job).constructors query =
      if query = task then job else system.constructors query := rfl

theorem Valid.closes_own {creator other : Nat} {job running : Constructor} (valid : system.Valid)
    (isJob : system.constructors creator = some job) (isOther : system.constructors other = some running)
    (different : other ≠ creator) (opened : SharedOpen system.kernel.paging job.slot) :
    opensShared running.stage = false := by
  cases opens : opensShared running.stage with
  | false => rfl
  | true =>
      have inside := valid.jobs other running isOther
      have reached := inside.reached
      have alsoOpen : SharedOpen system.kernel.paging running.slot := by
        cases stage : running.stage with
        | copyArg =>
            rw [stage] at reached
            exact reached
        | writeStack words =>
            rw [stage] at reached
            exact reached.1
        | _ =>
            rw [stage] at opens
            cases opens
      obtain ⟨frame, maps, kernelMaps⟩ := opened
      obtain ⟨otherFrame, otherMaps, otherKernelMaps⟩ := alsoOpen
      obtain rfl : frame = otherFrame := Option.some.inj (kernelMaps.symm.trans otherKernelMaps)
      have owner := (valid.jobs creator job isJob).owner
      have otherLive := region_mem_live.mpr (Owned.listed valid.owned inside.owner)
      rcases valid.separated.owned job.slot (Owned.listed valid.owned owner) _ _ maps _ otherLive _
        otherMaps.1 otherMaps.2.2 with ⟨same, _⟩ | ⟨impossible, _⟩
      · have otherOwner := inside.owner
        rw [same] at otherOwner
        have sameTask := valid.owned.distinct _ _ _ otherOwner owner
        exact absurd (valid.distinct other creator running job isOther isJob sameTask) different
      · cases impossible

theorem createTask_tasks {task node : Nat} {new : Scheduler.NewTask} {scheduler scheduler' : Scheduler}
    (run : scheduler.createTask task node new = .ok scheduler') :
    scheduler'.currentTask = scheduler.currentTask ∧ ∀ query, scheduler'.tasks query =
      if query = task then some new.entry else scheduler.tasks query := by
  obtain ⟨_, _, rest⟩ := bind_eq_ok.mp run
  obtain ⟨_, _, done⟩ := bind_eq_ok.mp rest
  obtain rfl := pure_eq_ok.mp done
  exact ⟨rfl, fun _ => rfl⟩

/-- `AddToQueue` is the only stage that the scheduler sees. -/
theorem enqueue_cases {job : Constructor} {node : Nat} {scheduler scheduler' : Scheduler}
    (run : job.enqueue node scheduler = .ok scheduler') :
    (job.stage ≠ .addToQueue ∧ scheduler' = scheduler) ∨
      (job.stage = .addToQueue ∧ scheduler.createTask job.task node job.newTask = .ok scheduler') := by
  unfold Constructor.enqueue at run
  cases isStage : job.stage with
  | addToQueue =>
      rw [isStage] at run
      exact Or.inr ⟨rfl, run⟩
  | _ =>
      rw [isStage] at run
      refine Or.inl ⟨by simp, (pure_eq_ok.mp run).symm⟩

structure Enqueued (old new : Scheduler) (job : Constructor) : Prop where
  currentTask : new.currentTask = old.currentTask
  queue : ∃ queue, Scheduler.Queued new queue
  others : ∀ task, task ≠ job.task → new.tasks task = old.tasks task
  unchanged : job.stage ≠ .addToQueue → new.tasks = old.tasks
  added : job.stage = .addToQueue → new.tasks job.task = some job.newTask.entry

theorem Valid.enqueue {job : Constructor} {node : Nat} {scheduler : Scheduler} (valid : system.Valid)
    (inside : system.InConstructor job) (fresh : system.scheduler.nodes node = none)
    (run : job.enqueue node system.scheduler = .ok scheduler) :
    Enqueued system.scheduler scheduler job := by
  obtain ⟨queue, queued⟩ := valid.queue
  rcases enqueue_cases run with ⟨other, rfl⟩ | ⟨isStage, created⟩
  · exact ⟨rfl, ⟨queue, queued⟩, fun _ _ => rfl, fun _ => rfl, fun isStage => absurd isStage other⟩
  · obtain ⟨current, tasks⟩ := createTask_tasks created
    have unknown := inside.unqueued (by rw [isStage]; rfl)
    refine ⟨current, ⟨_, queued.create unknown fresh created⟩, ?_, ?_, ?_⟩
    · intro task different
      rw [tasks, if_neg different]
    · intro other
      exact absurd isStage other
    · intro _
      rw [tasks, if_pos rfl]

theorem advance_constructors {creator query : Nat} {kernel : Kernel} {scheduler : Scheduler}
    {job running : Constructor} {next : Option Stage}
    (found : (setConstructor creator (next.map fun stage => { job with stage })
      { system with kernel, scheduler }).constructors query = some running) :
    (query = creator ∧ ∃ stage, next = some stage ∧ running = { job with stage }) ∨
      (query ≠ creator ∧ system.constructors query = some running) := by
  rw [constructors_setConstructor] at found
  by_cases isCreator : query = creator
  · rw [if_pos isCreator, Option.map_eq_some_iff] at found
    obtain ⟨stage, isNext, isRunning⟩ := found
    exact Or.inl ⟨isCreator, stage, isNext, isRunning.symm⟩
  · rw [if_neg isCreator] at found
    exact Or.inr ⟨isCreator, found⟩

theorem Valid.advance {node : Nat} (valid : system.Valid) (fresh : system.scheduler.nodes node = none)
    (run : system.advance node = some after) : after.Valid := by
  obtain ⟨creator, isCurrent, rest⟩ := bind_eq_some.mp run
  obtain ⟨job, isJob, rest⟩ := bind_eq_some.mp rest
  obtain ⟨⟨kernel, next⟩, advanced, rest⟩ := bind_eq_some.mp rest
  obtain ⟨scheduler, enqueued, done⟩ := bind_eq_some.mp rest
  obtain rfl := Option.some.inj done
  have inside := valid.jobs creator job isJob
  have listed := Owned.listed valid.owned inside.owner
  have spec := advance_spec valid.separated valid.apart listed inside.reached inside.length inside.source
    (toOption_eq_some.mp advanced)
  have seen := valid.enqueue inside fresh (toOption_eq_some.mp enqueued)
  have owner : ∀ task, kernel.owner task = system.kernel.owner task := by
    intro task
    rw [Kernel.owner, Kernel.owner, spec.same.tasks]
  have queuedOf : ∀ entry, scheduler.tasks job.task = some entry →
      job.stage.isQueued = true ∨ job.stage = .addToQueue := by
    intro entry found
    by_contra neither
    rw [not_or, Bool.not_eq_true] at neither
    rw [seen.unchanged neither.2, inside.unqueued neither.1] at found
    cases found
  have otherTask : ∀ query running, query ≠ creator → system.constructors query = some running →
      running.task ≠ job.task := by
    intro query running different isRunning same
    exact different (valid.distinct query creator running job isRunning isJob same)
  constructor
  · exact spec.same.owned valid.owned spec.slots
  · exact spec.separated
  · exact spec.apart
  · exact seen.queue
  · intro task entry found
    change kernel.owner task = _
    rw [owner]
    by_cases isNew : task = job.task
    · subst isNew
      by_cases isStage : job.stage = .addToQueue
      · have same : some entry = some job.newTask.entry := found.symm.trans (seen.added isStage)
        rw [Option.some.inj same]
        exact inside.owner
      · change scheduler.tasks job.task = some entry at found
        rw [seen.unchanged isStage] at found
        exact valid.known job.task entry found
    · exact valid.known task entry ((seen.others task isNew).symm.trans found)
  · intro query running isRunning
    rcases advance_constructors isRunning with ⟨_, stage, isNext, rfl⟩ | ⟨different, before⟩
    · -- the constructor itself
      obtain ⟨reached, queued⟩ := spec.reached stage isNext
      refine ⟨(owner job.task).trans inside.owner, ?_, inside.length,
        spec.progress.source valid.separated inside.source, reached⟩
      intro unqueued
      have neither : ¬(job.stage.isQueued = true ∨ job.stage = .addToQueue) := by
        rw [← queued, Bool.not_eq_true]
        exact unqueued
      rw [not_or, Bool.not_eq_true] at neither
      exact (congrFun (seen.unchanged neither.2) job.task).trans (inside.unqueued neither.1)
    · -- a constructor that another kernel task is in
      refine (valid.jobs query running before).kept valid spec.progress (owner _) ?_ rfl ?_
      · intro _
        exact seen.others _ (otherTask query running different before)
      · intro opens
        refine spec.progress.extension.opened ?_
        intro isStage
        have reached := inside.reached
        rw [isStage] at reached
        rw [valid.closes_own isJob before different reached.1] at opens
        cases opens
  · intro left right leftJob rightJob isLeft isRight same
    rcases advance_constructors isLeft with ⟨rfl, _, _, rfl⟩ | ⟨leftOther, leftBefore⟩
    · rcases advance_constructors isRight with ⟨rfl, _⟩ | ⟨rightOther, rightBefore⟩
      · rfl
      · exact absurd same.symm (otherTask right rightJob rightOther rightBefore)
    · rcases advance_constructors isRight with ⟨rfl, _, _, rfl⟩ | ⟨_, rightBefore⟩
      · exact absurd same (otherTask left leftJob leftOther leftBefore)
      · exact valid.distinct left right leftJob rightJob leftBefore rightBefore same
  · intro task entry found isUser isReady
    by_cases isNew : task = job.task
    · subst isNew
      have queued := queuedOf entry found
      cases isNext : next with
      | none =>
          obtain ⟨_, loaded⟩ := spec.loaded isNext
          exact Or.inl ⟨job.slot, (owner job.task).trans inside.owner, loaded⟩
      | some stage =>
          refine Or.inr ⟨creator, { job with stage }, ?_, rfl, (spec.reached stage isNext).2.mpr queued⟩
          rw [constructors_setConstructor, if_pos rfl]
          rfl
    · have before := (seen.others task isNew).symm.trans found
      rcases valid.ready task entry before isUser isReady with ⟨slot, uses, loaded⟩ |
        ⟨query, running, isRunning, isTask, queued⟩
      · refine Or.inl ⟨slot, (owner task).trans uses, Loaded.kept valid uses loaded spec.progress ?_ rfl⟩
        intro same
        have itsOwner := inside.owner
        rw [Option.some.inj same] at itsOwner
        exact isNew (valid.owned.distinct task job.task _ uses itsOwner)
      · refine Or.inr ⟨query, running, ?_, isTask, queued⟩
        rw [constructors_setConstructor, if_neg]
        · exact isRunning
        · rintro rfl
          rw [isJob] at isRunning
          rw [← Option.some.inj isRunning] at isTask
          exact isNew isTask.symm
  · intro query running isRunning queued
    change scheduler.currentTask = _
    rw [seen.currentTask]
    rcases advance_constructors isRunning with ⟨rfl, _⟩ | ⟨_, before⟩
    · exact isCurrent
    · exact valid.creating query running before queued

theorem addChildTask_memory {parent child : Nat} {kernel after : Kernel}
    (run : addChildTask parent child kernel = .ok after) :
    after.memory = kernel.memory ∧ after.heap = kernel.heap := by
  obtain ⟨_, _, done⟩ := bind_eq_ok.mp run
  obtain rfl := pure_eq_ok.mp done
  exact ⟨rfl, rfl⟩

theorem startUserTask_spec {caller slot : Nat} {paddr : UInt32} {kernel after : Kernel}
    (run : kernel.startUserTask caller = .ok (after, slot, paddr)) :
    Cloned kernel.paging after.paging .kernel slot ∧ Created kernel after slot ∧
      after.memory = kernel.memory ∧ after.heap = kernel.heap ∧
      present (kernel.paging.pageDirs .kernel sharedIndex) = false := by
  obtain ⟨⟨paging, cloneSlot⟩, cloned, rest⟩ := bind_eq_ok.mp run
  obtain ⟨linked, child, rest⟩ := bind_eq_ok.mp rest
  obtain ⟨frame, _, rest⟩ := bind_eq_ok.mp rest
  obtain ⟨_, unmapped, done⟩ := bind_eq_ok.mp rest
  obtain ⟨rfl, pair⟩ := Prod.mk.inj (pure_eq_ok.mp done)
  obtain ⟨rfl, _⟩ := Prod.mk.inj pair
  have copied := (clone_spec kernel.paging .kernel).of_ok cloned
  have absent := require_eq_ok.mp unmapped
  obtain ⟨samePaging, sameTid, sameOwner⟩ := addChildTask_eq child
  obtain ⟨memory, heap⟩ := addChildTask_memory child
  have isClone : linked.paging = paging := samePaging
  change present (linked.paging.pageDirs (.region cloneSlot) (pageIndex4M userSharedSpaceStart)) = false
    at absent
  rw [isClone, copied.pageDirs, if_pos rfl] at absent
  refine ⟨?_, ⟨copied.fresh, ?_, ?_, sameTid⟩, memory, heap, absent⟩
  · change Cloned kernel.paging linked.paging .kernel cloneSlot
    rw [isClone]
    exact copied
  · change linked.paging.slots = _
    rw [isClone]
    exact copied.slots
  · intro handle
    rw [owner_setTask, sameOwner]
    rfl

theorem UserCode.read_spec {pd : PageDirectory} {memory : Memory} {func codesize : UInt32}
    {code : UserCode} (run : UserCode.read pd memory func codesize = .ok code) :
    code.bytes.length = codesize.toNat ∧ Holds pd memory func code.bytes := by
  unfold UserCode.read at run
  split at run
  · rename_i bytes found
    injection run with same
    rw [← same]
    exact readBytes_holds found
  · cases run

theorem Created.owner_known {old new : Kernel} {slot handle : Nat} {known : PageDirPtr × Bool}
    (created : Created old new slot) (owned : Owned old) (uses : old.owner handle = some known) :
    new.owner handle = some known := by
  have below := owned.known handle known uses
  rw [created.owner, if_neg (by omega), uses]

theorem Valid.construct {func codesize arg entryOffset : UInt32} {copier : ArgCopier}
    {userInKernelSpace : Bool} {esp0 : UInt32} (valid : system.Valid) (idle : system.Idle)
    (run : system.construct func codesize arg entryOffset copier userInKernelSpace esp0 = some after) :
    after.Valid := by
  obtain ⟨creator, isCurrent, rest⟩ := bind_eq_some.mp run
  obtain ⟨code, read, rest⟩ := bind_eq_some.mp rest
  obtain ⟨⟨kernel, slot, paddr⟩, started, done⟩ := bind_eq_some.mp rest
  obtain rfl := Option.some.inj done
  obtain ⟨cloned, created, memory, heap, closed⟩ := startUserTask_spec (toOption_eq_some.mp started)
  obtain ⟨length, holds⟩ := UserCode.read_spec (toOption_eq_some.mp read)
  have noJob := idle creator isCurrent
  have progress : Progress False none system.kernel kernel := .of_same (cloned.extends _) memory
  have freshTask : ∀ task known, system.kernel.owner task = some known → task ≠ system.kernel.nextTid := by
    intro task known uses
    have below := valid.owned.known task known uses
    omega
  have cases_ : ∀ query running, (if query = creator then some
      { task := system.kernel.nextTid, slot, func, codesize, arg, entryOffset, copier, userInKernelSpace,
        esp0, stage := .addSharedPage paddr : Constructor } else system.constructors query) = some running →
      (query = creator ∧ running.task = system.kernel.nextTid ∧ running.stage.isQueued = false) ∨
        (query ≠ creator ∧ system.constructors query = some running) := by
    intro query running found
    by_cases isCreator : query = creator
    · rw [if_pos isCreator] at found
      rw [← Option.some.inj found]
      exact Or.inl ⟨isCreator, rfl, rfl⟩
    · rw [if_neg isCreator] at found
      exact Or.inr ⟨isCreator, found⟩
  constructor
  · exact created.owned valid.owned
  · exact cloned.separated valid.separated closed
  · change HeapApart kernel.paging kernel.heap
    rw [heap]
    refine valid.apart.kept (cloned.extends False) ?_
    rw [cloned.pageDirs, if_neg (by simp)]
    exact valid.apart.gap
  · exact valid.queue
  · intro task entry found
    exact Created.owner_known created valid.owned (valid.known task entry found)
  · intro query running found
    rw [constructors_setConstructor] at found
    by_cases isCreator : query = creator
    · rw [if_pos isCreator] at found
      obtain rfl := Option.some.inj found
      refine ⟨?_, ?_, ?_, ?_, True.intro⟩
      · change kernel.owner system.kernel.nextTid = _
        rw [created.owner, if_pos rfl]
      · intro _
        change system.scheduler.tasks system.kernel.nextTid = none
        cases known : system.scheduler.tasks system.kernel.nextTid with
        | none => rfl
        | some entry => exact absurd rfl (freshTask _ _ (valid.known _ entry known))
      · change (if system.kernel.nextTid = system.kernel.nextTid then code else _).bytes.length = _
        rw [if_pos rfl]
        exact length
      · change Source kernel func (if system.kernel.nextTid = system.kernel.nextTid then code else _).bytes
        rw [if_pos rfl]
        refine progress.source valid.separated (holds.kept ?_ fun _ _ _ _ _ _ => rfl)
        intro index _ isPresent
        rw [restrict, if_pos]
        rw [bne_iff_ne]
        rintro rfl
        rw [closed] at isPresent
        cases isPresent
    · rw [if_neg isCreator] at found
      have inside := valid.jobs query running found
      refine inside.kept valid progress ?_ (fun _ => rfl) ?_ fun _ => progress.extension
      · rw [inside.owner]
        exact Created.owner_known created valid.owned inside.owner
      · exact if_neg (freshTask _ _ inside.owner)
  · intro left right leftJob rightJob isLeft isRight same
    rcases cases_ left leftJob isLeft with ⟨rfl, leftTask, _⟩ | ⟨_, leftBefore⟩
    · rcases cases_ right rightJob isRight with ⟨rfl, _⟩ | ⟨_, rightBefore⟩
      · rfl
      · exact absurd (same.symm.trans leftTask) (freshTask _ _ (valid.jobs right rightJob rightBefore).owner)
    · rcases cases_ right rightJob isRight with ⟨rfl, rightTask, _⟩ | ⟨_, rightBefore⟩
      · exact absurd (same.trans rightTask) (freshTask _ _ (valid.jobs left leftJob leftBefore).owner)
      · exact valid.distinct left right leftJob rightJob leftBefore rightBefore same
  · intro task entry found isUser isReady
    have isKnown := freshTask _ _ (valid.known task entry found)
    rcases valid.ready task entry found isUser isReady with ⟨itsSlot, uses, loaded⟩ |
      ⟨query, running, isRunning, isTask, queued⟩
    · refine Or.inl ⟨itsSlot, Created.owner_known created valid.owned uses, ?_⟩
      exact Loaded.kept valid uses loaded progress (by simp) (if_neg isKnown)
    · refine Or.inr ⟨query, running, ?_, isTask, queued⟩
      rw [constructors_setConstructor, if_neg]
      · exact isRunning
      · rintro rfl
        rw [noJob] at isRunning
        cases isRunning
  · intro query running found queued
    rcases cases_ query running found with ⟨_, _, unqueued⟩ | ⟨_, before⟩
    · rw [queued] at unqueued
      cases unqueued
    · exact valid.creating query running before queued

theorem startKernelTask_spec {caller : Nat} {kernel after : Kernel}
    (run : kernel.startKernelTask caller = .ok after) :
    after.paging = kernel.paging ∧ after.memory = kernel.memory ∧ after.heap = kernel.heap ∧
      after.nextTid = kernel.nextTid + 1 ∧ ∀ handle, after.owner handle =
        if handle = kernel.nextTid then some (.kernel, false) else kernel.owner handle := by
  obtain ⟨linked, child, done⟩ := bind_eq_ok.mp run
  obtain rfl := pure_eq_ok.mp done
  obtain ⟨samePaging, sameTid, sameOwner⟩ := addChildTask_eq child
  obtain ⟨memory, heap⟩ := addChildTask_memory child
  refine ⟨samePaging, memory, heap, sameTid, ?_⟩
  intro handle
  rw [owner_setTask, sameOwner]
  rfl

theorem Owned.startKernelTask {old new : Kernel} (owned : Owned old) (slots : new.paging.slots = old.paging.slots)
    (nextTid : new.nextTid = old.nextTid + 1) (owner : ∀ handle, new.owner handle =
      if handle = old.nextTid then some (.kernel, false) else old.owner handle) : Owned new := by
  have user : ∀ handle pd, new.owner handle = some (pd, true) → old.owner handle = some (pd, true) := by
    intro handle pd uses
    rw [owner] at uses
    split at uses
    · cases uses
    · exact uses
  constructor
  · intro handle pd uses
    rw [owner] at uses
    split at uses
    · exact (Prod.mk.inj (Option.some.inj uses)).1.symm
    · exact owned.kernelTasks handle pd uses
  · intro handle pd uses
    rw [slots]
    exact owned.userTasks handle pd (user handle pd uses)
  · intro left right pd leftUses rightUses
    exact owned.distinct left right pd (user left pd leftUses) (user right pd rightUses)
  · intro handle task uses
    rw [nextTid]
    rw [owner] at uses
    split at uses
    · omega
    · have below := owned.known handle task uses
      omega

theorem Valid.createKernelTask {node : Nat} {esp : UInt32} {userInKernelSpace : Bool}
    (valid : system.Valid) (fresh : system.scheduler.nodes node = none)
    (run : system.createKernelTask node esp userInKernelSpace = some after) : after.Valid := by
  obtain ⟨creator, isCurrent, rest⟩ := bind_eq_some.mp run
  obtain ⟨kernel, started, rest⟩ := bind_eq_some.mp rest
  obtain ⟨scheduler, created, done⟩ := bind_eq_some.mp rest
  obtain rfl := Option.some.inj done
  obtain ⟨paging, memory, heap, nextTid, owner⟩ := startKernelTask_spec (toOption_eq_some.mp started)
  obtain ⟨sameCurrent, tasks⟩ := createTask_tasks (toOption_eq_some.mp created)
  have freshTask : ∀ task known, system.kernel.owner task = some known → task ≠ system.kernel.nextTid := by
    intro task known uses
    have below := valid.owned.known task known uses
    omega
  have unknown : system.scheduler.tasks system.kernel.nextTid = none := by
    cases known : system.scheduler.tasks system.kernel.nextTid with
    | none => rfl
    | some entry => exact absurd rfl (freshTask _ _ (valid.known _ entry known))
  have progress : Progress False none system.kernel kernel := by
    refine .of_same ?_ memory
    rw [paging]
    exact .refl _ _
  obtain ⟨queue, queued⟩ := valid.queue
  constructor
  · exact Owned.startKernelTask valid.owned (by rw [paging]) nextTid owner
  · change Separated kernel.paging
    rw [paging]
    exact valid.separated
  · change HeapApart kernel.paging kernel.heap
    rw [paging, heap]
    exact valid.apart
  · exact ⟨_, queued.create unknown fresh (toOption_eq_some.mp created)⟩
  · intro task entry found
    change kernel.owner task = _
    change scheduler.tasks task = some entry at found
    rw [owner]
    rw [tasks] at found
    by_cases isNew : task = system.kernel.nextTid
    · rw [if_pos isNew] at found ⊢
      rw [← Option.some.inj found]
      rfl
    · rw [if_neg isNew] at found ⊢
      exact valid.known task entry found
  · intro query running found
    have inside := valid.jobs query running found
    have isOld := freshTask _ _ inside.owner
    refine inside.kept valid progress ?_ ?_ rfl fun _ => progress.extension
    · change kernel.owner running.task = _
      rw [owner, if_neg isOld]
    · intro _
      change scheduler.tasks running.task = _
      rw [tasks, if_neg isOld]
  · exact valid.distinct
  · intro task entry found isUser isReady
    change scheduler.tasks task = some entry at found
    rw [tasks] at found
    by_cases isNew : task = system.kernel.nextTid
    · rw [if_pos isNew] at found
      rw [← Option.some.inj found] at isUser
      cases isUser
    · rw [if_neg isNew] at found
      rcases valid.ready task entry found isUser isReady with ⟨slot, uses, loaded⟩ | unfinished
      · refine Or.inl ⟨slot, ?_, Loaded.kept valid uses loaded progress (by simp) rfl⟩
        change kernel.owner task = _
        rw [owner, if_neg isNew]
        exact uses
      · exact Or.inr unfinished
  · intro query running found isQueued
    exact sameCurrent.trans (valid.creating query running found isQueued)

/-- A switch between tasks while no constructor has its task in the queue without code. -/
theorem Valid.switched {scheduler : Scheduler} {current task : Nat} {entry selected saved : ScheduledTask}
    {switch : Switch} {queue : List (Nat × Nat)} (valid : system.Valid)
    (finished : ∀ creator job, system.constructors creator = some job → job.stage.isQueued = false)
    (switches : Scheduler.Switched system.scheduler scheduler current task entry selected saved switch)
    (queued : Scheduler.Queued scheduler queue) (kept : saved.isUserTask = entry.isUserTask ∧
      saved.pageDirectory = entry.pageDirectory ∧ saved.state ≠ .ready) :
    Valid { system with scheduler } := by
  have before : ∀ query new, scheduler.tasks query = some new → ∃ old,
      system.scheduler.tasks query = some old ∧ new.isUserTask = old.isUserTask ∧
        new.pageDirectory = old.pageDirectory ∧ (new.state = .ready → old.state = .ready) := by
    intro query new found
    rw [switches.tasks] at found
    by_cases isTask : query = task
    · rw [if_pos isTask] at found
      rw [isTask, ← Option.some.inj found]
      exact ⟨selected, switches.chosen, rfl, rfl, fun impossible => by cases impossible⟩
    · rw [if_neg isTask] at found
      by_cases isCurrent : query = current
      · rw [if_pos isCurrent] at found
        rw [isCurrent, ← Option.some.inj found]
        exact ⟨entry, switches.left, kept.1, kept.2.1, fun isReady => absurd isReady kept.2.2⟩
      · rw [if_neg isCurrent] at found
        exact ⟨new, found, rfl, rfl, id⟩
  have unknown : ∀ query, system.scheduler.tasks query = none → scheduler.tasks query = none := by
    intro query none
    cases found : scheduler.tasks query with
    | none => rfl
    | some new =>
        obtain ⟨old, oldFound, _⟩ := before query new found
        rw [none] at oldFound
        cases oldFound
  constructor
  · exact valid.owned
  · exact valid.separated
  · exact valid.apart
  · exact ⟨queue, queued⟩
  · intro query new found
    obtain ⟨old, oldFound, sameUser, samePd, _⟩ := before query new found
    rw [sameUser, samePd]
    exact valid.known query old oldFound
  · intro query running found
    have inside := valid.jobs query running found
    exact ⟨inside.owner, fun unqueued => unknown _ (inside.unqueued unqueued), inside.length,
      inside.source, inside.reached⟩
  · exact valid.distinct
  · intro query new found isUser isReady
    obtain ⟨old, oldFound, sameUser, _, wasReady⟩ := before query new found
    exact valid.ready query old oldFound (sameUser ▸ isUser) (wasReady isReady)
  · intro query running found isQueued
    rw [finished query running found] at isQueued
    cases isQueued

theorem Saves.kept {timer : TimerRegs} {entry saved : ScheduledTask}
    (saves : Scheduler.Saves (some timer) entry saved) :
    saved.isUserTask = entry.isUserTask ∧ saved.pageDirectory = entry.pageDirectory := by
  obtain ⟨_, _, _, rfl⟩ := saves
  exact ⟨rfl, rfl⟩

/-- No task is in the queue without its code when the current task is not creating one. -/
theorem Valid.finished (valid : system.Valid)
    (calm : ∀ current job, system.scheduler.currentTask = some current →
      system.constructors current = some job → job.stage.isQueued = false) :
    ∀ creator job, system.constructors creator = some job → job.stage.isQueued = false := by
  intro creator job isJob
  cases isQueued : job.stage.isQueued with
  | false => rfl
  | true =>
      have isCurrent := valid.creating creator job isJob isQueued
      rw [calm creator job isCurrent isJob] at isQueued
      cases isQueued

/-- A task that waits for its first run has its code, when no constructor is unfinished. -/
theorem Valid.codeLoaded {task : Nat} {entry : ScheduledTask} (valid : system.Valid)
    (finished : ∀ creator job, system.constructors creator = some job → job.stage.isQueued = false)
    (found : system.scheduler.tasks task = some entry) (isUser : entry.isUserTask = true)
    (isReady : entry.state = .ready) : system.CodeLoaded task := by
  rcases valid.ready task entry found isUser isReady with ⟨slot, uses, loaded⟩ |
    ⟨creator, job, isJob, _, isQueued⟩
  · have known := valid.known task entry found
    rw [uses] at known
    have pd : entry.pageDirectory = .region slot := (Prod.mk.inj (Option.some.inj known)).1.symm
    obtain ⟨frame, maps⟩ := loaded.page
    refine ⟨entry, found, ?_, ?_⟩
    · rw [pd]
      exact (frameOf_eq_some.mp maps.2.2).1
    · rw [pd]
      exact loaded.holds.of_restrict
  · rw [finished creator job isJob] at isQueued
    cases isQueued

/-- The task of a switch keeps its page directory, and nothing else changes for its code. -/
theorem CodeLoaded.switched {scheduler : Scheduler} {current task : Nat}
    {entry selected saved : ScheduledTask} {switch : Switch} (loaded : system.CodeLoaded task)
    (switches : Scheduler.Switched system.scheduler scheduler current task entry selected saved switch) :
    ({ system with scheduler } : TaskSystem).CodeLoaded task := by
  obtain ⟨known, found, mapped, holds⟩ := loaded
  obtain rfl : known = selected := Option.some.inj (found.symm.trans switches.chosen)
  refine ⟨{ known with state := .running }, ?_, mapped, holds⟩
  change scheduler.tasks task = _
  rw [switches.tasks, if_pos rfl]

structure Scheduled (before after : TaskSystem) : Prop where
  valid : after.Valid
  firstRun : ∀ task, FirstRun before after task → after.CodeLoaded task

theorem Valid.timer {limit : Nat} {regs : TimerRegs} (valid : system.Valid)
    (undisturbed : system.Undisturbed (.timer limit regs))
    (run : system.timerCallback limit regs = some after) : Scheduled system after := by
  obtain ⟨queue, queued⟩ := valid.queue
  have running : ∀ task, ¬FirstRun system { system with tick := system.tick + 1 } task := by
    rintro task ⟨isCurrent, entry, found, _, isReady⟩
    have state := queued.running task entry isCurrent found
    rw [isReady] at state
    cases state
  have ticked : Valid { system with tick := system.tick + 1 } := by
    refine ⟨valid.owned, valid.separated, valid.apart, valid.queue, valid.known, ?_, valid.distinct,
      valid.ready, valid.creating⟩
    intro creator job isJob
    obtain ⟨owner, unqueued, length, source, reached⟩ := valid.jobs creator job isJob
    exact ⟨owner, unqueued, length, source, reached⟩
  unfold timerCallback at run
  dsimp only at run
  split at run
  · rename_i calls
    obtain ⟨⟨scheduler, result⟩, scheduled, done⟩ := bind_eq_some.mp run
    obtain rfl := Option.some.inj done
    rcases queued.timer.of_ok (toOption_eq_some.mp scheduled) with ⟨same, _⟩ |
      ⟨current, task, entry, selected, saved, switch, next, _, isCurrent, _, switches, saves, later⟩
    · obtain ⟨rfl, _⟩ := Prod.mk.inj same
      exact ⟨ticked, fun task first => absurd first (running task)⟩
    · have finished := ticked.finished (undisturbed calls)
      obtain ⟨sameUser, samePd⟩ := Saves.kept saves
      have isRunning : saved.state = .running := by
        rw [saves.state]
        exact queued.running current entry isCurrent switches.left
      refine ⟨ticked.switched finished switches later ⟨sameUser, samePd, by rw [isRunning]; decide⟩, ?_⟩
      rintro first ⟨isFirst, waiting, found, isUser, isReady⟩
      obtain rfl : task = first := Option.some.inj (switches.currentTask.symm.trans isFirst)
      exact CodeLoaded.switched (ticked.codeLoaded finished found isUser isReady) switches
  · obtain rfl := Option.some.inj run
    exact ⟨ticked, fun task first => absurd first (running task)⟩

theorem Valid.exit {limit : Nat} (valid : system.Valid) (idle : system.Idle)
    (notMain : system.scheduler.currentTask ≠ system.scheduler.mainKernelTask) {scheduler : Scheduler}
    {switch : Switch} (run : system.scheduler.exitThisTask limit = .ok (scheduler, switch)) :
    Scheduled system { system with scheduler } := by
  obtain ⟨queue, queued⟩ := valid.queue
  obtain ⟨current, task, entry, selected, saved, next, isCurrent, _, switches, isSaved, later⟩ :=
    (queued.exit notMain).of_ok run
  have finished : ∀ creator job, system.constructors creator = some job → job.stage.isQueued = false := by
    apply valid.finished
    intro creator job isCreator isJob
    rw [idle creator isCreator] at isJob
    cases isJob
  refine ⟨valid.switched finished switches later ?_, ?_⟩
  · rw [isSaved]
    exact ⟨rfl, rfl, by simp⟩
  · rintro first ⟨isFirst, waiting, found, isUser, isReady⟩
    obtain rfl : task = first := Option.some.inj (switches.currentTask.symm.trans isFirst)
    exact CodeLoaded.switched (valid.codeLoaded finished found isUser isReady) switches

theorem Booted.valid (booted : system.Booted) : system.Valid := by
  obtain ⟨⟨highMemKB, slots, memory, requests, initrd, setup⟩, ⟨node, userInKernelSpace, started⟩,
    noJobs⟩ := booted
  obtain ⟨owned, _⟩ := kernelSetup_edits setup
  obtain ⟨separated, apart⟩ := kernelSetup_separated setup
  have isMain := kernelSetup_main setup
  have only : ∀ task entry, system.scheduler.tasks task = some entry → task = mainKernelTask ∧
      entry.pageDirectory = .kernel ∧ entry.isUserTask = false := by
    intro task entry found
    obtain ⟨_, _, done⟩ := bind_eq_ok.mp started
    rw [← pure_eq_ok.mp done] at found
    change (if task = mainKernelTask then _ else none) = some entry at found
    split at found
    · rw [← Option.some.inj found]
      exact ⟨by assumption, rfl, rfl⟩
    · cases found
  have noJob : ∀ creator job, system.constructors creator ≠ some job := by
    intro creator job found
    rw [noJobs creator] at found
    cases found
  constructor
  · exact owned
  · exact separated
  · exact apart
  · exact ⟨_, Scheduler.initScheduler_queued started⟩
  · intro task entry found
    obtain ⟨rfl, pd, isUser⟩ := only task entry found
    rw [pd, isUser]
    exact isMain
  · intro creator job found
    exact absurd found (noJob creator job)
  · intro left right job other found
    exact absurd found (noJob left job)
  · intro task entry found isUser
    rw [(only task entry found).2.2] at isUser
    cases isUser
  · intro creator job found
    exact absurd found (noJob creator job)

/-- Only a call of `schedule` makes another task the current one. -/
theorem not_firstRun {task : Nat} (valid : system.Valid)
    (same : after.scheduler.currentTask = system.scheduler.currentTask) : ¬FirstRun system after task := by
  rintro ⟨isCurrent, entry, found, _, isReady⟩
  obtain ⟨queue, queued⟩ := valid.queue
  have running := queued.running task entry (same.symm.trans isCurrent) found
  rw [isReady] at running
  cases running

theorem perform_scheduled {action : Action} (valid : system.Valid) (enabled : system.Enabled action)
    (undisturbed : system.Undisturbed action) (performed : system.perform action = some after) :
    Scheduled system after := by
  have calm : after.Valid → after.scheduler.currentTask = system.scheduler.currentTask →
      Scheduled system after := by
    intro later same
    exact ⟨later, fun task first => absurd first (not_firstRun valid same)⟩
  cases action with
  | construct func codesize arg entryOffset copier userInKernelSpace esp0 =>
      refine calm (valid.construct enabled.2 performed) ?_
      obtain ⟨_, _, rest⟩ := bind_eq_some.mp performed
      obtain ⟨_, _, rest⟩ := bind_eq_some.mp rest
      obtain ⟨_, _, done⟩ := bind_eq_some.mp rest
      rw [← Option.some.inj done]
      rfl
  | advance node =>
      refine calm (valid.advance enabled performed) ?_
      obtain ⟨creator, _, rest⟩ := bind_eq_some.mp performed
      obtain ⟨job, isJob, rest⟩ := bind_eq_some.mp rest
      obtain ⟨_, _, rest⟩ := bind_eq_some.mp rest
      obtain ⟨_, enqueued, done⟩ := bind_eq_some.mp rest
      rw [← Option.some.inj done]
      exact (valid.enqueue (valid.jobs creator job isJob) enabled (toOption_eq_some.mp enqueued)).currentTask
  | createKernelTask node esp userInKernelSpace =>
      refine calm (valid.createKernelTask enabled.2.2 performed) ?_
      obtain ⟨_, _, rest⟩ := bind_eq_some.mp performed
      obtain ⟨_, _, rest⟩ := bind_eq_some.mp rest
      obtain ⟨_, created, done⟩ := bind_eq_some.mp rest
      rw [← Option.some.inj done]
      exact (createTask_tasks (toOption_eq_some.mp created)).1
  | growHeap bytes =>
      obtain ⟨kernel, grown, done⟩ := bind_eq_some.mp performed
      obtain rfl := Option.some.inj done
      exact calm (valid.growHeap (toOption_eq_some.mp grown)) rfl
  | store vaddr byte =>
      refine calm (valid.store enabled performed) ?_
      obtain ⟨_, _, rest⟩ := bind_eq_some.mp performed
      obtain ⟨_, _, rest⟩ := bind_eq_some.mp rest
      dsimp only at rest
      split at rest
      · obtain ⟨_, _, done⟩ := bind_eq_some.mp rest
        rw [← Option.some.inj done]
      · cases rest
  | timer limit regs => exact valid.timer undisturbed performed
  | exit limit =>
      obtain ⟨⟨scheduler, switch⟩, exited, done⟩ := bind_eq_some.mp performed
      obtain rfl := Option.some.inj done
      exact valid.exit enabled.1 enabled.2 (toOption_eq_some.mp exited)

theorem reachable_valid (reachable : (runs Undisturbed).Reachable system) : system.Valid := by
  refine reachable.invariant Valid ?_ ?_
  · intro state booted
    exact Booted.valid booted
  · rintro state action after valid ⟨enabled, undisturbed, performed⟩
    exact (perform_scheduled valid enabled undisturbed performed).valid

/-- When no timer interrupt falls between `AddToQueue` and the end of a constructor, every user task
has its code page, with its code, when it runs for the first time. -/
theorem firstRun_codeLoaded {action : Action} {task : Nat}
    (reachable : (runs Undisturbed).Reachable system) (stepped : (runs Undisturbed).step system action after)
    (first : FirstRun system after task) : after.CodeLoaded task := by
  obtain ⟨enabled, undisturbed, performed⟩ := stepped
  exact (perform_scheduled (reachable_valid reachable) enabled undisturbed performed).firstRun task first

instance (system : TaskSystem) (isUserTask : Bool) : Decidable (system.Runs isUserTask) :=
  decidable_of_iff ((system.scheduler.currentTask.bind system.scheduler.tasks).any
      (fun entry => entry.isUserTask == isUserTask) = true) (by
    cases found : system.scheduler.currentTask <;> simp [Runs, found, Option.any_eq_true])

instance (system : TaskSystem) : Decidable system.Idle :=
  decidable_of_iff (system.scheduler.currentTask.all
      (fun current => (system.constructors current).isNone) = true) (by
    cases found : system.scheduler.currentTask <;> simp [Idle, found])

instance (system : TaskSystem) (action : Action) : Decidable (system.Enabled action) := by
  cases action <;> unfold Enabled <;> infer_instance

instance (system : TaskSystem) (action : Action) : Decidable (system.Undisturbed action) :=
  match action with
  | .timer _ _ => decidable_of_iff ((system.tick + 1) % Machine.kQuanta = 0 →
      system.scheduler.currentTask.all (fun current =>
        (system.constructors current).all fun job => !job.stage.isQueued) = true) (by
    cases found : system.scheduler.currentTask with
    | none => simp [Undisturbed, found]
    | some current =>
        simp only [Undisturbed, found, Option.all_some, Option.all_eq_true, Option.some.injEq]
        constructor
        · rintro calm calls _ job rfl isJob
          simpa using calm calls job isJob
        · intro calm calls job isJob
          simpa using calm calls current job rfl isJob)
  | .construct _ _ _ _ _ _ _ => inferInstanceAs (Decidable True)
  | .advance _ => inferInstanceAs (Decidable True)
  | .createKernelTask _ _ _ => inferInstanceAs (Decidable True)
  | .growHeap _ => inferInstanceAs (Decidable True)
  | .store _ _ => inferInstanceAs (Decidable True)
  | .exit _ => inferInstanceAs (Decidable True)

section Replay

variable {Condition : TaskSystem → Action → Prop} [∀ system action, Decidable (Condition system action)]

def act (Condition : TaskSystem → Action → Prop) [∀ system action, Decidable (Condition system action)]
    (system : TaskSystem) (action : Action) : Option TaskSystem :=
  if system.Enabled action ∧ Condition system action then system.perform action else none

def bootSystem : Option TaskSystem := do
  let kernel ← (kernelSetup 131072 (fun _ _ => 0) (fun address => UInt8.ofNat (address % 251)) []
    none).toOption
  let scheduler ← (Scheduler.uninitialized.initScheduler mainKernelTask 0 false).toOption
  return {
    kernel, scheduler
    tick := 0
    constructors := fun _ => none
    usercode := fun _ => ⟨0, 0, [], rfl⟩ }

theorem act_step {action : Action} (acts : act Condition system action = some after) :
    (runs Condition).step system action after := by
  unfold act at acts
  split at acts
  · rename_i allowed
    exact ⟨allowed.1, allowed.2, acts⟩
  · cases acts

theorem foldlM_reachable {actions : List Action} (acts : actions.foldlM (act Condition) system = some after)
    (reachable : (runs Condition).Reachable system) : (runs Condition).Reachable after := by
  induction actions generalizing system with
  | nil =>
      obtain rfl := Option.some.inj acts
      exact reachable
  | cons action rest ih =>
      rw [List.foldlM_cons] at acts
      obtain ⟨middle, first, later⟩ := bind_eq_some.mp acts
      exact ih later (reachable.next (act_step first))

def lastStepTest (Condition : TaskSystem → Action → Prop)
    [∀ system action, Decidable (Condition system action)] (actions : List Action) (last : Action)
    (test : TaskSystem → TaskSystem → Bool) : Bool :=
  match bootSystem >>= fun system => actions.foldlM (act Condition) system with
  | some before =>
      match act Condition before last with
      | some after => test before after
      | none => false
  | none => false

theorem lastStepTest_reachable {actions : List Action} {last : Action}
    {test : TaskSystem → TaskSystem → Bool} (passed : lastStepTest Condition actions last test = true) :
    ∃ before after, (runs Condition).Reachable before ∧ (runs Condition).step before last after ∧
      test before after = true := by
  unfold lastStepTest at passed
  split at passed
  · rename_i before replayed
    split at passed
    · rename_i after acts
      obtain ⟨boot, booted, actions⟩ := bind_eq_some.mp replayed
      refine ⟨before, after, foldlM_reachable actions (.start ?_), act_step acts, passed⟩
      obtain ⟨kernel, setup, rest⟩ := bind_eq_some.mp booted
      obtain ⟨scheduler, started, done⟩ := bind_eq_some.mp rest
      obtain rfl := Option.some.inj done
      exact ⟨⟨_, _, _, _, _, toOption_eq_some.mp setup⟩, ⟨_, _, toOption_eq_some.mp started⟩, fun _ => rfl⟩
    · cases passed
  · cases passed

end Replay

def untilQueued : List Action :=
  .construct kernHeapBegin 8 0 0 defaultCopier false 0 :: List.replicate 11 (.advance 1)

def firstRunTest (before after : TaskSystem) (task : Nat) : Bool :=
  after.scheduler.currentTask == some task && (before.scheduler.tasks task).any fun entry =>
    entry.isUserTask && decide (entry.state = .ready)

theorem firstRunTest_iff (before after : TaskSystem) (task : Nat) :
    firstRunTest before after task = true ↔ FirstRun before after task := by
  simp [firstRunTest, FirstRun, Option.any_eq_true]

theorem firstRun_codeLoaded_finished : ∃ before after action,
    (runs Undisturbed).Reachable before ∧ (runs Undisturbed).step before action after ∧
      FirstRun before after 1 ∧ (after.usercode 1).bytes = [31, 32, 33, 34, 35, 36, 37, 38] ∧ after.CodeLoaded 1 := by
  have passed : lastStepTest Undisturbed
      (untilQueued ++ List.replicate 3 (.advance 2) ++ [.timer 2 Scheduler.kernelTimer])
      (.timer 2 Scheduler.kernelTimer) (fun before after => firstRunTest before after 1 &&
        decide ((after.usercode 1).bytes = [31, 32, 33, 34, 35, 36, 37, 38])) = true := by
    decide +kernel
  obtain ⟨before, after, reachable, stepped, tested⟩ := lastStepTest_reachable passed
  rw [Bool.and_eq_true] at tested
  have first := (firstRunTest_iff before after 1).mp tested.1
  exact ⟨before, after, _, reachable, stepped, first, of_decide_eq_true tested.2,
    firstRun_codeLoaded reachable stepped first⟩

/-- A timer interrupt right after `AddToQueue` runs the task while `USER_START` is not mapped. -/
theorem firstRun_without_code : ¬∀ before action after task,
    (runs fun _ _ => True).Reachable before → (runs fun _ _ => True).step before action after →
      FirstRun before after task → after.CodeLoaded task := by
  intro loads
  have passed : lastStepTest (fun _ _ => True) (untilQueued ++ [.timer 2 Scheduler.kernelTimer])
      (.timer 2 Scheduler.kernelTimer) (fun before after => firstRunTest before after 1 &&
        (after.scheduler.tasks 1).all fun entry =>
          !after.kernel.paging.isVirtualMapped entry.pageDirectory userStart) = true := by
    decide +kernel
  obtain ⟨before, after, reachable, stepped, tested⟩ := lastStepTest_reachable passed
  rw [Bool.and_eq_true] at tested
  obtain ⟨entry, found, mapped, _⟩ :=
    loads before _ after 1 reachable stepped ((firstRunTest_iff before after 1).mp tested.1)
  have unmapped := tested.2
  rw [found, Option.all_some, mapped] at unmapped
  cases unmapped

end TaskSystem

end ToyKernel
