import ToyKernel.Scheduler.Model

/-!
The ready queue over whole runs. The current task is always the last of the queue, so
the task that `schedule` selects is another one, and a task that exits is found.
-/

namespace ToyKernel

open Library NodeHeap

namespace Scheduler

variable {scheduler : Scheduler} {limit : Nat}

theorem getNode_eq {node : Nat} {item : Node Nat} (found : scheduler.nodes node = some item) :
    scheduler.getNode node = .ok item := by
  simp [getNode, found]

theorem getTask_eq {task : Nat} {entry : ScheduledTask} (found : scheduler.tasks task = some entry) :
    scheduler.getTask task = .ok entry := by
  simp [getTask, found]

theorem getCurrentTask_eq {task : Nat} (current : scheduler.currentTask = some task) :
    scheduler.getCurrentTask = .ok task := by
  simp [getCurrentTask, current]

theorem tasks_setTask (task : Nat) (entry : Option ScheduledTask) (query : Nat) :
    (scheduler.setTask task entry).tasks query = if query = task then entry else scheduler.tasks query :=
  rfl

theorem lastNode_spec {start : Nat} {items : List (Nat × Nat)} {final : Nat × Nat}
    (segment : scheduler.nodes.Segment (some start) (items ++ [final]) none) :
    Returns (scheduler.lastNode limit start)
      (fun panic => panic = .stepLimit ∧ limit ≤ items.length) (fun node => node = final.1) := by
  induction items generalizing start limit with
  | nil =>
      obtain ⟨starts, next, found, ends⟩ := segment
      cases Option.some.inj starts
      cases limit with
      | zero => exact returns_error.mpr ⟨rfl, Nat.le_refl 0⟩
      | succ limit =>
          rw [lastNode, getNode_eq found, ok_bind]
          cases ends
          exact returns_pure.mpr rfl
  | cons item rest ih =>
      obtain ⟨starts, next, found, later⟩ := segment
      cases Option.some.inj starts
      cases limit with
      | zero => exact returns_error.mpr ⟨rfl, Nat.zero_le _⟩
      | succ limit =>
          rw [lastNode, getNode_eq found, ok_bind]
          cases next with
          | none =>
              cases rest with
              | nil => cases later.1
              | cons first more => cases later.1
          | some address =>
              refine (ih later).weaken ?_
              rintro panic ⟨isLimit, short⟩
              exact ⟨isLimit, Nat.succ_le_succ short⟩

theorem findNode_spec {task node : Nat} {start prev : Option Nat} {front back : List (Nat × Nat)}
    (segment : scheduler.nodes.Segment start (front ++ (node, task) :: back) none)
    (earlier : task ∉ front.map Prod.snd) :
    Returns (scheduler.findNode task limit start prev)
      (fun panic => panic = .stepLimit ∧ limit ≤ front.length)
      (fun result => result = (some node, ((front.map Prod.fst).getLast?).or prev)) := by
  induction front generalizing start prev limit with
  | nil =>
      obtain ⟨rfl, next, found, _⟩ := segment
      cases limit with
      | zero => exact returns_error.mpr ⟨rfl, Nat.le_refl 0⟩
      | succ limit =>
          rw [findNode, getNode_eq found, ok_bind, if_pos rfl]
          exact returns_pure.mpr rfl
  | cons item rest ih =>
      obtain ⟨rfl, next, found, later⟩ := segment
      rw [List.map_cons, List.mem_cons, not_or] at earlier
      cases limit with
      | zero => exact returns_error.mpr ⟨rfl, Nat.zero_le _⟩
      | succ limit =>
          rw [findNode, getNode_eq found, ok_bind, if_neg (Ne.symm earlier.1)]
          refine ((ih later earlier.2).weaken ?_).mono ?_
          · rintro panic ⟨isLimit, short⟩
            exact ⟨isLimit, Nat.succ_le_succ short⟩
          · rintro result rfl
            cases rest with
            | nil => rfl
            | cons first more =>
                rw [List.map_cons, List.map_cons, List.map_cons, List.getLast?_cons_cons,
                  List.getLast?_cons, Option.some_or, Option.some_or]

theorem deleteNode_spec {node task : Nat} {front back : List (Nat × Nat)}
    (segment : scheduler.nodes.Segment scheduler.readyQueue (front ++ (node, task) :: back) none)
    (addresses : ((front ++ (node, task) :: back).map Prod.fst).Nodup)
    (earlier : task ∉ front.map Prod.snd) (notMain : scheduler.mainKernelTask ≠ some task) :
    Returns (scheduler.deleteNode limit task) (fun panic => panic = .stepLimit ∧ limit ≤ front.length)
      (fun after => after.nodes.Segment after.readyQueue (front ++ back) none ∧
        after.tasks = scheduler.tasks ∧ after.currentTask = scheduler.currentTask ∧
        after.mainKernelTask = scheduler.mainKernelTask) := by
  refine returns_require_bind notMain ?_
  refine Returns.bind (findNode_spec segment earlier) ?_
  rintro result rfl
  obtain ⟨next, found⟩ := segment.found (show (node, task) ∈ front ++ (node, task) :: back by simp)
  dsimp only
  rw [getNode_eq found, ok_bind]
  cases front using List.reverseRec with
  | nil =>
      refine returns_require_bind segment.1 ?_
      have later := segment.unlink_front found (List.nodup_cons.mp addresses).1
      exact returns_pure.mpr ⟨later, rfl, rfl, rfl⟩
  | append_singleton items item =>
      rw [List.map_append, List.map_singleton, List.getLast?_concat, Option.some_or]
      rw [List.append_assoc, List.singleton_append] at segment addresses ⊢
      exact returns_pure.mpr ⟨segment.unlink found addresses, rfl, rfl, rfl⟩

structure Linked (scheduler : Scheduler) (queue : List (Nat × Nat)) : Prop where
  chain : scheduler.nodes.Segment scheduler.readyQueue queue none
  addresses : (queue.map Prod.fst).Nodup
  distinct : (queue.map Prod.snd).Nodup
  known : ∀ task ∈ queue.map Prod.snd, ∃ entry, scheduler.tasks task = some entry

def Saves (regs : Option TimerRegs) (entry saved : ScheduledTask) : Prop :=
  match regs with
  | some timer => ∃ esp inKernelSpace, adjustedEsp timer entry.isUserTask = .ok (esp, inKernelSpace) ∧
      saved = withSavedRegs timer.regs esp inKernelSpace { entry with userInKernelSpace := false }
  | none => saved = { entry with userInKernelSpace := false }

structure Switched (before after : Scheduler) (current task : Nat)
    (entry selected saved : ScheduledTask) (switch : Switch) : Prop where
  different : task ≠ current
  left : before.tasks current = some entry
  chosen : before.tasks task = some selected
  tasks : ∀ query, after.tasks query =
    if query = task then some { selected with state := .running }
    else if query = current then some saved else before.tasks query
  currentTask : after.currentTask = some task
  mainKernelTask : after.mainKernelTask = before.mainKernelTask
  resumes : selected.state = .ready ∨ selected.regs.eip ≠ 0
  routine : switch = ⟨Scheduler.routine (decide (selected.state = .ready))
    (selected.isUserTask && !selected.userInKernelSpace), task⟩

theorem switchTo_spec {task : Nat} {jumpToUser : Bool} {selected : ScheduledTask}
    (found : scheduler.tasks task = some selected) :
    Returns (scheduler.switchTo task jumpToUser) (fun panic => panic = .noResumeAddress)
      (fun result => (selected.state = .ready ∨ selected.regs.eip ≠ 0) ∧
        result = ({ scheduler.setTask task (some { selected with state := .running }) with
            currentTask := some task },
          some ⟨routine (decide (selected.state = .ready)) jumpToUser, task⟩)) := by
  rw [switchTo, getTask_eq found, ok_bind]
  refine returns_require (fun _ => rfl) fun resumes => ?_
  refine returns_pure.mpr ⟨?_, rfl⟩
  simpa using resumes

/-- The panics that `schedule` may end in: the checks on the interrupt's registers, a
task without an address to resume at, and a step limit below the length of the queue. -/
def ScheduleFault (limit length : Nat) (regs : Option TimerRegs) : Panic → Prop
  | .stepLimit => limit < length
  | .noResumeAddress => True
  | .notTimerInterrupt => regs ≠ none
  | .errorCodeGiven => regs ≠ none
  | .notFromKernelSpace => regs ≠ none
  | .notFromUserspace => regs ≠ none
  | .notFromKernelCode => regs ≠ none
  | _ => False

theorem adjustedEsp_spec (timer : TimerRegs) (isUserTask : Bool) (length : Nat) :
    Returns (adjustedEsp timer isUserTask) (ScheduleFault limit length (some timer))
      (fun result => adjustedEsp timer isUserTask = .ok result) := by
  have faults : Returns (adjustedEsp timer isUserTask) (ScheduleFault limit length (some timer))
      (fun _ => True) := by
    unfold adjustedEsp
    refine returns_require_or (by simp [ScheduleFault]) fun _ => ?_
    refine returns_require_or (by simp [ScheduleFault]) fun _ => ?_
    split
    · exact returns_require_or (by simp [ScheduleFault]) fun _ => returns_pure.mpr True.intro
    · split
      · exact returns_require_or (by simp [ScheduleFault]) fun _ => returns_pure.mpr True.intro
      · exact returns_require_or (by simp [ScheduleFault]) fun _ => returns_pure.mpr True.intro
  cases result : adjustedEsp timer isUserTask with
  | ok value => exact returns_ok.mpr rfl
  | error panic => exact returns_error.mpr (faults.of_error result)

theorem saveRegs_spec {timer : TimerRegs} {current : Nat} {entry : ScheduledTask} (length : Nat)
    (found : scheduler.tasks current = some { entry with userInKernelSpace := false }) :
    Returns (scheduler.saveRegs timer current) (ScheduleFault limit length (some timer))
      (fun after => ∃ saved, Saves (some timer) entry saved ∧
        after = scheduler.setTask current (some saved)) := by
  rw [saveRegs, getTask_eq found, ok_bind]
  refine (adjustedEsp_spec timer entry.isUserTask length).bind ?_
  rintro ⟨esp, inKernelSpace⟩ adjusted
  exact returns_pure.mpr ⟨_, ⟨esp, inKernelSpace, adjusted, rfl⟩, rfl⟩

def nextQueue (regs : Option TimerRegs) (front last : Nat × Nat) (middle : List (Nat × Nat)) :
    List (Nat × Nat) :=
  match regs with
  | some _ => middle ++ [last] ++ [front]
  | none => middle ++ [front]

theorem schedule_spec {front task last current : Nat} {middle : List (Nat × Nat)}
    {regs : Option TimerRegs} (linked : Linked scheduler ((front, task) :: (middle ++ [(last, current)])))
    (isCurrent : scheduler.currentTask = some current)
    (notMain : regs = none → scheduler.mainKernelTask ≠ some current) :
    Returns (scheduler.schedule limit false regs) (ScheduleFault limit (middle.length + 2) regs)
      (fun result => ∃ entry selected saved switch, result.2 = some switch ∧
        Switched scheduler result.1 current task entry selected saved switch ∧
        Saves regs entry saved ∧ result.1.nodes.Segment result.1.readyQueue
          (nextQueue regs (front, task) (last, current) middle) none) := by
  obtain ⟨starts, next, frontFound, rest⟩ := linked.chain
  obtain ⟨frontFresh, restDistinct⟩ := List.nodup_cons.mp linked.addresses
  obtain ⟨selected, taskFound⟩ := linked.known task (by simp)
  obtain ⟨entry, currentFound⟩ := linked.known current (by simp)
  have differentTasks : task ≠ current := by
    have fresh := (List.nodup_cons.mp linked.distinct).1
    simp only [List.map_append, List.map_cons, List.map_nil, List.mem_append, List.mem_singleton,
      not_or] at fresh
    exact fresh.2
  have differentNodes : last ≠ front := by
    simp only [List.map_append, List.map_cons, List.map_nil, List.mem_append, List.mem_singleton,
      not_or] at frontFresh
    exact Ne.symm frontFresh.2
  have isNext : next ≠ none := by
    rintro rfl
    cases middle with
    | nil => cases rest.1
    | cons item items => cases rest.1
  unfold schedule
  rw [starts]
  dsimp only
  rw [getNode_eq frontFound, ok_bind, if_neg isNext]
  refine returns_require_bind rfl ?_
  have whole : scheduler.nodes.Segment (some front) (((front, task) :: middle) ++ [(last, current)]) none := by
    rw [← starts]
    exact linked.chain
  refine Returns.bind ((lastNode_spec whole).weaken ?_) ?_
  · rintro panic ⟨rfl, short⟩
    simp only [List.length_cons] at short
    simp only [ScheduleFault]
    omega
  intro node isLast
  obtain rfl : last = node := isLast.symm
  have rotated := rest.rotate frontFound frontFresh restDistinct
  generalize atRotation : scheduler.rotate front _ next = turned
  rw [rotate, if_pos differentNodes] at atRotation
  have turnedTasks : turned.tasks = scheduler.tasks := by rw [← atRotation]
  have turnedCurrent : turned.currentTask = some current := by rw [← atRotation, isCurrent]
  rw [← turnedTasks] at taskFound currentFound
  rw [getTask_eq taskFound, ok_bind, getCurrentTask_eq turnedCurrent, ok_bind,
    getTask_eq currentFound, ok_bind]
  generalize atFlag : turned.setTask current _ = base
  have baseTasks : ∀ query, base.tasks query =
      if query = current then some { entry with userInKernelSpace := false }
      else scheduler.tasks query := by
    intro query
    rw [← atFlag, tasks_setTask, turnedTasks]
  have baseSegment : base.nodes.Segment base.readyQueue
      (middle ++ [(last, current)] ++ [(front, task)]) none := by
    rw [← atFlag, ← atRotation]
    exact rotated
  have baseMain : base.mainKernelTask = scheduler.mainKernelTask := by
    rw [← atFlag, ← atRotation]
    rfl
  rw [turnedTasks] at taskFound currentFound
  have baseTask : base.tasks task = some selected := by
    rw [baseTasks, if_neg differentTasks, taskFound]
  rw [getTask_eq baseTask, ok_bind]
  cases regs with
  | some timer =>
      have baseCurrent : base.tasks current = some { entry with userInKernelSpace := false } := by
        rw [baseTasks, if_pos rfl]
      refine (saveRegs_spec _ baseCurrent).bind ?_
      rintro after ⟨saved, saves, rfl⟩
      have afterTask : (base.setTask current (some saved)).tasks task = some selected := by
        rw [tasks_setTask, if_neg differentTasks, baseTask]
      refine ((switchTo_spec afterTask).weaken ?_).mono ?_
      · rintro panic rfl
        exact True.intro
      · rintro result ⟨resumes, rfl⟩
        refine ⟨entry, selected, saved, _, rfl, ?_, saves, baseSegment⟩
        refine ⟨differentTasks, currentFound, taskFound, ?_, rfl, baseMain, resumes, rfl⟩
        intro query
        change (if query = task then _ else if query = current then _ else base.tasks query) = _
        rw [baseTasks]
        by_cases isCurrentTask : query = current
        · simp [isCurrentTask]
        · simp [isCurrentTask]
  | none =>
      rw [List.append_assoc, List.singleton_append] at baseSegment
      have addresses : ((middle ++ (last, current) :: [(front, task)]).map Prod.fst).Nodup := by
        have listed := linked.addresses
        rw [← List.singleton_append, List.map_append, List.nodup_append_comm, ← List.map_append,
          List.append_assoc] at listed
        exact listed
      have earlier : current ∉ middle.map Prod.snd := by
        have listed := (List.nodup_cons.mp linked.distinct).2
        rw [List.map_append, List.nodup_append'] at listed
        exact fun inside => listed.2.2 inside (by simp)
      refine Returns.bind ((deleteNode_spec baseSegment addresses earlier ?_).weaken ?_) ?_
      · rw [baseMain]
        exact notMain rfl
      · rintro panic ⟨rfl, short⟩
        simp only [ScheduleFault]
        omega
      rintro after ⟨segment, sameTasks, _, sameMain⟩
      have afterTask : after.tasks task = some selected := by
        rw [sameTasks, baseTask]
      refine ((switchTo_spec afterTask).weaken ?_).mono ?_
      · rintro panic rfl
        exact True.intro
      · rintro result ⟨resumes, rfl⟩
        refine ⟨entry, selected, { entry with userInKernelSpace := false }, _, rfl, ?_, rfl, segment⟩
        refine ⟨differentTasks, currentFound, taskFound, ?_, rfl, sameMain.trans baseMain, resumes, rfl⟩
        intro query
        change (if query = task then _ else after.tasks query) = _
        rw [sameTasks, baseTasks]

/-- The queue holds the tasks that have not completed, each of them once, with the
current task at its end. -/
structure Queued (scheduler : Scheduler) (queue : List (Nat × Nat)) : Prop where
  linked : Linked scheduler queue
  main : ∃ task, scheduler.mainKernelTask = some task ∧ task ∈ queue.map Prod.snd
  ready : ∀ task, task ∈ queue.map Prod.snd ↔
    ∃ entry, scheduler.tasks task = some entry ∧ entry.state ≠ .completed
  current : scheduler.currentTask = (queue.map Prod.snd).getLast?
  running : ∀ task entry, scheduler.currentTask = some task → scheduler.tasks task = some entry →
    entry.state = .running

variable {queue : List (Nat × Nat)}

theorem Queued.shape (queued : Queued scheduler queue) :
    (∃ node task, queue = [(node, task)] ∧ scheduler.mainKernelTask = some task ∧
      scheduler.currentTask = some task) ∨
    ∃ front task middle last current, queue = (front, task) :: (middle ++ [(last, current)]) ∧
      scheduler.currentTask = some current := by
  obtain ⟨main, isMain, mainListed⟩ := queued.main
  have current := queued.current
  cases queue with
  | nil => cases mainListed
  | cons item rest =>
      cases rest using List.reverseRec with
      | nil =>
          have same : main = item.2 := by simpa using mainListed
          exact Or.inl ⟨item.1, item.2, rfl, same ▸ isMain, by simpa using current⟩
      | append_singleton middle last =>
          refine Or.inr ⟨item.1, item.2, middle, last.1, last.2, rfl, ?_⟩
          rw [current, List.map_cons, List.map_append, List.map_singleton, ← List.cons_append,
            List.getLast?_concat]

theorem Queued.after_switch {front task last current : Nat} {middle next : List (Nat × Nat)}
    {after : Scheduler} {selected saved : ScheduledTask}
    (queued : Queued scheduler ((front, task) :: (middle ++ [(last, current)])))
    (segment : after.nodes.Segment after.readyQueue (next ++ [(front, task)]) none)
    (tasks : ∀ query, after.tasks query =
      if query = task then some { selected with state := .running }
      else if query = current then some saved else scheduler.tasks query)
    (currentTask : after.currentTask = some task)
    (mainKernelTask : after.mainKernelTask = scheduler.mainKernelTask)
    (kept : next = middle ++ [(last, current)] ∧ saved.state ≠ .completed ∨
      next = middle ∧ saved.state = .completed ∧ scheduler.mainKernelTask ≠ some current) :
    Queued after (next ++ [(front, task)]) := by
  have rotated : ((front, task) :: (middle ++ [(last, current)])).Perm
      (middle ++ [(last, current)] ++ [(front, task)]) := (List.perm_append_singleton _ _).symm
  have shorter : (next ++ [(front, task)]).Sublist (middle ++ [(last, current)] ++ [(front, task)]) := by
    rcases kept with ⟨rfl, _⟩ | ⟨rfl, _⟩
    · exact List.Sublist.refl _
    · exact (List.sublist_append_left _ _).append_right _
  have addresses := (rotated.map Prod.fst).nodup_iff.mp queued.linked.addresses
  have distinct := (rotated.map Prod.snd).nodup_iff.mp queued.linked.distinct
  have currentOutside : current ∉ (middle ++ [(front, task)]).map Prod.snd := by
    intro listed
    rw [List.append_assoc, List.map_append, List.nodup_append'] at distinct
    rw [List.map_append, List.mem_append] at listed
    rcases listed with early | late
    · exact distinct.2.2 early (by simp)
    · have same : current = task := by simpa using late
      exact (List.nodup_cons.mp distinct.2.1).1 (by simp [same])
  have listed : ∀ query, query ∈ (next ++ [(front, task)]).map Prod.snd ↔
      query ∈ ((front, task) :: (middle ++ [(last, current)])).map Prod.snd ∧
        (query = current → saved.state ≠ .completed) := by
    intro query
    rw [(rotated.map Prod.snd).mem_iff]
    rcases kept with ⟨rfl, alive⟩ | ⟨rfl, completed, _⟩
    · simp [alive]
    · constructor
      · intro member
        refine ⟨(shorter.map Prod.snd).subset member, ?_⟩
        rintro rfl
        exact absurd member currentOutside
      · rintro ⟨member, alive⟩
        have other : query ≠ current := fun same => alive same completed
        simpa [other] using member
  have ready : ∀ query, query ∈ (next ++ [(front, task)]).map Prod.snd ↔
      ∃ entry, after.tasks query = some entry ∧ entry.state ≠ .completed := by
    intro query
    rw [listed, tasks]
    by_cases isTask : query = task
    · subst isTask
      rw [if_pos rfl]
      have different : query ≠ current := by
        rintro rfl
        exact currentOutside (by simp)
      simp [different]
    · rw [if_neg isTask]
      by_cases isCurrent : query = current
      · rw [if_pos isCurrent, isCurrent]
        simp
      · rw [if_neg isCurrent, queued.ready]
        simp [isCurrent]
  constructor
  · refine ⟨segment, ?_, ?_, ?_⟩
    · exact (shorter.map Prod.fst).nodup addresses
    · exact (shorter.map Prod.snd).nodup distinct
    · intro query member
      obtain ⟨entry, found, _⟩ := (ready query).mp member
      exact ⟨entry, found⟩
  · obtain ⟨main, isMain, mainListed⟩ := queued.main
    refine ⟨main, mainKernelTask.trans isMain, (listed main).mpr ⟨mainListed, ?_⟩⟩
    rintro rfl
    rcases kept with ⟨_, alive⟩ | ⟨_, _, notMain⟩
    · exact alive
    · exact absurd isMain notMain
  · exact ready
  · rw [currentTask, List.map_append, List.map_singleton, List.getLast?_concat]
  · intro query entry isCurrent found
    rw [currentTask] at isCurrent
    rw [tasks, if_pos (Option.some.inj isCurrent).symm] at found
    rw [← Option.some.inj found]

theorem schedule_single {node task : Nat} {interruptsAreEnabled : Bool} {regs : Option TimerRegs}
    (segment : scheduler.nodes.Segment scheduler.readyQueue [(node, task)] none) :
    scheduler.schedule limit interruptsAreEnabled regs = .ok (scheduler, none) := by
  obtain ⟨starts, next, found, rfl⟩ := segment
  unfold schedule
  rw [starts]
  dsimp only
  rw [getNode_eq found, ok_bind, if_pos rfl]
  rfl

def SelectsWaiting (scheduler : Scheduler) (switch : Switch) : Prop :=
  scheduler.currentTask ≠ some switch.task ∧
    ∃ entry, scheduler.tasks switch.task = some entry ∧ entry.state ≠ .completed

theorem Saves.state {regs : Option TimerRegs} {entry saved : ScheduledTask}
    (saves : Saves regs entry saved) : saved.state = entry.state := by
  cases regs with
  | some timer =>
      obtain ⟨_, _, _, rfl⟩ := saves
      rfl
  | none => rw [saves]

/-- With another task waiting, a timer interrupt switches to the front task and turns the queue. -/
theorem Queued.turn {front task last current : Nat} {middle : List (Nat × Nat)} {timer : TimerRegs}
    (queued : Queued scheduler ((front, task) :: (middle ++ [(last, current)])))
    (isCurrent : scheduler.currentTask = some current) :
    Returns (scheduler.schedule limit false (some timer)) (ScheduleFault limit (middle.length + 2) (some timer))
      (fun result => ∃ entry selected saved switch, result.2 = some switch ∧
        Switched scheduler result.1 current task entry selected saved switch ∧
        Saves (some timer) entry saved ∧ Queued result.1 (middle ++ [(last, current)] ++ [(front, task)])) := by
  refine (schedule_spec queued.linked isCurrent (by simp)).mono ?_
  rintro ⟨after, switch⟩ ⟨entry, selected, saved, switch, rfl, switched, saves, segment⟩
  have alive : saved.state ≠ .completed := by
    rw [saves.state, queued.running current entry isCurrent switched.left]
    decide
  have later := queued.after_switch segment switched.tasks switched.currentTask
    switched.mainKernelTask (Or.inl ⟨rfl, alive⟩)
  exact ⟨entry, selected, saved, switch, rfl, switched, saves, later⟩

/-- A timer interrupt either leaves the only task running or switches to the front task. -/
theorem Queued.timer {timer : TimerRegs} (queued : Queued scheduler queue) :
    Returns (scheduler.schedule limit false (some timer)) (ScheduleFault limit queue.length (some timer))
      (fun result => (result = (scheduler, none) ∧ queue.length = 1) ∨
        ∃ current task entry selected saved switch next, result.2 = some switch ∧
          scheduler.currentTask = some current ∧ task ∈ queue.map Prod.snd ∧
          Switched scheduler result.1 current task entry selected saved switch ∧
          Saves (some timer) entry saved ∧ Queued result.1 next) := by
  obtain ⟨node, task, rfl, _, _⟩ | ⟨front, task, middle, last, current, rfl, isCurrent⟩ := queued.shape
  · rw [schedule_single queued.linked.chain]
    exact returns_ok.mpr (Or.inl ⟨rfl, rfl⟩)
  · refine ((@Queued.turn _ limit front task last current middle timer queued isCurrent).weaken ?_).mono ?_
    · intro panic fault
      simpa using fault
    · rintro result ⟨entry, selected, saved, switch, isSwitch, switched, saves, later⟩
      exact Or.inr ⟨current, task, entry, selected, saved, switch, _, isSwitch, isCurrent, by simp,
        switched, saves, later⟩

theorem Queued.selects (queued : Queued scheduler queue) {after : Scheduler} {current task : Nat}
    {entry selected saved : ScheduledTask} {switch : Switch}
    (isCurrent : scheduler.currentTask = some current) (listed : task ∈ queue.map Prod.snd)
    (switched : Switched scheduler after current task entry selected saved switch) :
    scheduler.SelectsWaiting switch := by
  rw [SelectsWaiting, switched.routine]
  refine ⟨?_, (queued.ready task).mp listed⟩
  rw [isCurrent]
  exact fun same => switched.different (Option.some.inj same).symm

/-- With another task waiting, an exit switches to the front task and takes the exiting one off the queue. -/
theorem Queued.exit_turn {front task last current : Nat} {middle : List (Nat × Nat)}
    (queued : Queued scheduler ((front, task) :: (middle ++ [(last, current)])))
    (isCurrent : scheduler.currentTask = some current)
    (notMain : scheduler.currentTask ≠ scheduler.mainKernelTask) :
    Returns (scheduler.exitThisTask limit)
      (fun panic => panic = .noResumeAddress ∨ panic = .stepLimit ∧ limit < middle.length + 2)
      (fun result => ∃ entry selected saved,
        Switched scheduler result.1 current task entry selected saved result.2 ∧
        saved = { entry with state := .completed, userInKernelSpace := false } ∧
        Queued result.1 (middle ++ [(front, task)])) := by
  obtain ⟨entry, found⟩ := queued.linked.known current (by simp)
  rw [exitThisTask, getCurrentTask_eq isCurrent, ok_bind, getTask_eq found, ok_bind]
  have linked : Linked (scheduler.setTask current (some { entry with state := .completed }))
      ((front, task) :: (middle ++ [(last, current)])) := by
    refine ⟨queued.linked.chain, queued.linked.addresses, queued.linked.distinct, ?_⟩
    intro query member
    rw [tasks_setTask]
    by_cases same : query = current
    · exact ⟨_, if_pos same⟩
    · rw [if_neg same]
      exact queued.linked.known query member
  have spec := @schedule_spec _ limit front task last current middle none linked isCurrent
    fun _ isMain => notMain (isCurrent.trans isMain.symm)
  refine Returns.bind (spec.weaken ?_) ?_
  · intro panic fault
    cases panic with
    | noResumeAddress => exact Or.inl rfl
    | stepLimit => exact Or.inr ⟨rfl, fault⟩
    | _ => simp [ScheduleFault] at fault
  rintro ⟨after, switch⟩ ⟨exited, selected, saved, switch, rfl, switched, saves, segment⟩
  have isExited : exited = { entry with state := .completed } := by
    have left := switched.left
    rw [tasks_setTask, if_pos rfl] at left
    exact (Option.some.inj left).symm
  have savedIs : saved = { entry with state := .completed, userInKernelSpace := false } := by
    rw [show saved = { exited with userInKernelSpace := false } from saves, isExited]
  have tasks : ∀ query, after.tasks query =
      if query = task then some { selected with state := .running }
      else if query = current then some saved else scheduler.tasks query := by
    intro query
    rw [switched.tasks, tasks_setTask]
    by_cases same : query = current
    · simp [same]
    · simp [same]
  have completed : saved.state = .completed := by rw [savedIs]
  have later := queued.after_switch segment tasks switched.currentTask switched.mainKernelTask
    (Or.inr ⟨rfl, completed, fun isMain => notMain (isCurrent.trans isMain.symm)⟩)
  have chosen : scheduler.tasks task = some selected := by
    rw [← switched.chosen, tasks_setTask, if_neg switched.different]
  refine returns_pure.mpr ⟨entry, selected, saved, ?_, savedIs, later⟩
  exact ⟨switched.different, found, chosen, tasks, switched.currentTask, switched.mainKernelTask,
    switched.resumes, switched.routine⟩

/-- A task other than the main kernel task always exits into the front task. -/
theorem Queued.exit (queued : Queued scheduler queue)
    (notMain : scheduler.currentTask ≠ scheduler.mainKernelTask) :
    Returns (scheduler.exitThisTask limit)
      (fun panic => panic = .noResumeAddress ∨ panic = .stepLimit ∧ limit < queue.length)
      (fun result => ∃ current task entry selected saved next,
        scheduler.currentTask = some current ∧ task ∈ queue.map Prod.snd ∧
        Switched scheduler result.1 current task entry selected saved result.2 ∧
        saved = { entry with state := .completed, userInKernelSpace := false } ∧
        Queued result.1 next) := by
  obtain ⟨node, task, rfl, isMain, isCurrent⟩ | ⟨front, task, middle, last, current, rfl, isCurrent⟩ :=
    queued.shape
  · exact absurd (isCurrent.trans isMain.symm) notMain
  · refine ((@Queued.exit_turn _ limit front task last current middle queued isCurrent notMain).weaken ?_).mono ?_
    · rintro panic (isAddress | ⟨isLimit, short⟩)
      · exact Or.inl isAddress
      · refine Or.inr ⟨isLimit, ?_⟩
        simp only [List.length_cons, List.length_append, List.length_nil]
        omega
    · rintro result ⟨entry, selected, saved, switched, savedIs, later⟩
      exact ⟨current, task, entry, selected, saved, _, isCurrent, by simp, switched, savedIs, later⟩

theorem initScheduler_queued {task node : Nat} {userInKernelSpace : Bool} {after : Scheduler}
    (run : uninitialized.initScheduler task node userInKernelSpace = .ok after) :
    Queued after [(node, task)] := by
  obtain ⟨_, _, done⟩ := bind_eq_ok.mp run
  obtain rfl := pure_eq_ok.mp done
  have only : ∀ query entry, (setTask task (some entry) uninitialized).tasks query =
      if query = task then some entry else none := fun _ _ => rfl
  constructor
  · refine ⟨⟨rfl, none, set_same _ _ _, rfl⟩, by simp, by simp, ?_⟩
    intro query member
    have same : query = task := by simpa using member
    exact ⟨_, by rw [only, if_pos same]⟩
  · exact ⟨task, rfl, by simp⟩
  · intro query
    rw [only]
    by_cases same : query = task
    · simp [same]
    · simp [same]
  · rfl
  · intro query entry isCurrent found
    rw [only, if_pos (Option.some.inj isCurrent).symm] at found
    rw [← Option.some.inj found]

theorem Queued.create {task node : Nat} {new : NewTask} {after : Scheduler}
    (queued : Queued scheduler queue) (freshTask : scheduler.tasks task = none)
    (freshNode : scheduler.nodes node = none)
    (run : scheduler.createTask task node new = .ok after) : Queued after ((node, task) :: queue) := by
  obtain ⟨_, _, rest⟩ := bind_eq_ok.mp run
  obtain ⟨_, _, done⟩ := bind_eq_ok.mp rest
  obtain rfl := pure_eq_ok.mp done
  have nodeOutside : node ∉ queue.map Prod.fst := by
    intro listed
    obtain ⟨item, member, rfl⟩ := List.mem_map.mp listed
    obtain ⟨next, found⟩ := queued.linked.chain.found member
    rw [freshNode] at found
    cases found
  have taskOutside : task ∉ queue.map Prod.snd := by
    intro listed
    obtain ⟨entry, found⟩ := queued.linked.known task listed
    rw [freshTask] at found
    cases found
  have nonempty : queue ≠ [] := by
    obtain ⟨_, _, listed⟩ := queued.main
    rintro rfl
    cases listed
  have ready : ∀ query, query ∈ ((node, task) :: queue).map Prod.snd ↔
      ∃ entry, (scheduler.setTask task (some new.entry)).tasks query = some entry ∧
        entry.state ≠ .completed := by
    intro query
    rw [tasks_setTask, List.map_cons, List.mem_cons, queued.ready]
    by_cases same : query = task
    · simp [same, NewTask.entry]
    · simp [same]
  constructor
  · refine ⟨⟨rfl, scheduler.readyQueue, set_same _ _ _, ?_⟩, ?_, ?_, ?_⟩
    · apply queued.linked.chain.congr
      intro item member
      apply set_other
      rintro rfl
      exact nodeOutside (List.mem_map_of_mem member)
    · exact List.nodup_cons.mpr ⟨nodeOutside, queued.linked.addresses⟩
    · exact List.nodup_cons.mpr ⟨taskOutside, queued.linked.distinct⟩
    · intro query member
      obtain ⟨entry, found, _⟩ := (ready query).mp member
      exact ⟨entry, found⟩
  · obtain ⟨main, isMain, listed⟩ := queued.main
    exact ⟨main, isMain, List.mem_cons_of_mem _ listed⟩
  · exact ready
  · obtain ⟨item, rest, rfl⟩ := List.exists_cons_of_ne_nil nonempty
    rw [List.map_cons, List.map_cons, List.getLast?_cons_cons, ← List.map_cons]
    exact queued.current
  · intro query entry isCurrent found
    have other : query ≠ task := by
      rintro rfl
      have listed : query ∈ queue.map Prod.snd :=
        List.mem_of_getLast? (queued.current.symm.trans isCurrent)
      exact taskOutside listed
    refine queued.running query entry isCurrent ?_
    change (if query = task then _ else scheduler.tasks query) = _ at found
    rw [if_neg other] at found
    exact found

theorem Queued.destroy {task : Nat} {entry : ScheduledTask} (queued : Queued scheduler queue)
    (found : scheduler.tasks task = some entry) (completed : entry.state = .completed) :
    Queued (scheduler.setTask task none) queue := by
  have outside : task ∉ queue.map Prod.snd := by
    rw [queued.ready]
    rintro ⟨other, otherFound, alive⟩
    rw [found] at otherFound
    rw [← Option.some.inj otherFound] at alive
    exact alive completed
  have ready : ∀ query, query ∈ queue.map Prod.snd ↔
      ∃ entry, (scheduler.setTask task none).tasks query = some entry ∧ entry.state ≠ .completed := by
    intro query
    rw [tasks_setTask]
    by_cases same : query = task
    · rw [if_pos same, same]
      simp [outside]
    · rw [if_neg same, queued.ready]
  constructor
  · refine ⟨queued.linked.chain, queued.linked.addresses, queued.linked.distinct, ?_⟩
    intro query member
    obtain ⟨other, otherFound, _⟩ := (ready query).mp member
    exact ⟨other, otherFound⟩
  · exact queued.main
  · exact ready
  · exact queued.current
  · intro query other isCurrent otherFound
    refine queued.running query other isCurrent ?_
    rw [tasks_setTask] at otherFound
    split at otherFound
    · cases otherFound
    · exact otherFound

theorem reachable_queued (reachable : runs.Reachable scheduler) : ∃ queue, Queued scheduler queue := by
  refine reachable.invariant (fun state => ∃ queue, Queued state queue) ?_ ?_
  · rintro state ⟨task, node, userInKernelSpace, run⟩
    exact ⟨_, initScheduler_queued run⟩
  · rintro state event after ⟨queue, queued⟩ happens
    cases event with
    | create task node new =>
        obtain ⟨freshTask, freshNode, run⟩ := happens
        exact ⟨_, queued.create freshTask freshNode run⟩
    | timer limit regs =>
        obtain ⟨switch, run⟩ := happens
        rcases queued.timer.of_ok run with ⟨same, _⟩ | ⟨_, _, _, _, _, _, next, _, _, _, _, _, later⟩
        · cases same
          exact ⟨queue, queued⟩
        · exact ⟨next, later⟩
    | exit limit =>
        obtain ⟨notMain, switch, run⟩ := happens
        obtain ⟨_, _, _, _, _, next, _, _, _, _, later⟩ := (queued.exit notMain).of_ok run
        exact ⟨next, later⟩
    | destroy task =>
        obtain ⟨⟨entry, found, completed⟩, rfl⟩ := happens
        exact ⟨queue, queued.destroy found completed⟩

/-- The ready queue in every reachable state, and what follows for `schedule` and
`exit_this_task`. A step limit of the length of the queue is enough for every walk. -/
theorem readyQueue_invariant (reachable : runs.Reachable scheduler) :
    ∃ queue, Queued scheduler queue ∧
      (∀ limit regs after switch, scheduler.schedule limit false (some regs) = .ok (after, some switch) →
        scheduler.SelectsWaiting switch) ∧
      (∀ limit regs panic, queue.length ≤ limit →
        scheduler.schedule limit false (some regs) = .error panic →
        panic ≠ .stepLimit ∧ panic ≠ .danglingPointer) ∧
      (scheduler.currentTask ≠ scheduler.mainKernelTask → ∀ limit,
        (∀ after switch, scheduler.exitThisTask limit = .ok (after, switch) →
          scheduler.SelectsWaiting switch) ∧
        ∀ panic, queue.length ≤ limit → scheduler.exitThisTask limit = .error panic →
          panic = .noResumeAddress) := by
  obtain ⟨queue, queued⟩ := reachable_queued reachable
  refine ⟨queue, queued, ?_, ?_, ?_⟩
  · intro limit regs after switch run
    rcases queued.timer.of_ok run with ⟨same, _⟩ |
      ⟨current, task, entry, selected, saved, other, _, isSwitch, isCurrent, listed, switched, _, _⟩
    · cases same
    · cases isSwitch
      exact queued.selects isCurrent listed switched
  · intro limit regs panic enough run
    have fault := queued.timer.of_error run
    constructor
    · rintro rfl
      exact absurd fault (Nat.not_lt.mpr enough)
    · rintro rfl
      exact fault
  · intro notMain limit
    constructor
    · intro after switch run
      obtain ⟨_, _, _, _, _, _, isCurrent, listed, switched, _⟩ := (queued.exit notMain).of_ok run
      exact queued.selects isCurrent listed switched
    · intro panic enough run
      rcases (queued.exit notMain).of_error run with isAddress | ⟨_, short⟩
      · exact isAddress
      · omega

def kernelTimer : TimerRegs where
  regs := ⟨0x10, 0, 0, 0, 0x2000100, 0, 0, 0, 0, 32, 0, 0x400000, 8, 0x202, 0, 0⟩
  stack index := if index = 0 then irq0 else if index = 3 then kKernelCodeSegment.toUInt32 else 0

def secondTask : NewTask := ⟨false, false, 0x2000800, .kernel, 0⟩

def firstSwitch : Except Panic (Scheduler × Option Switch) := do
  let scheduler ← uninitialized.initScheduler 0 0 false
  let scheduler ← scheduler.createTask 1 1 secondTask
  scheduler.schedule 2 false (some kernelTimer)

theorem firstSwitch_reachable {after : Scheduler} {switch : Option Switch}
    (run : firstSwitch = .ok (after, switch)) : runs.Reachable after := by
  obtain ⟨first, initialized, rest⟩ := bind_eq_ok.mp run
  obtain ⟨second, created, switched⟩ := bind_eq_ok.mp rest
  have fresh : first.tasks 1 = none ∧ first.nodes 1 = none := by
    obtain rfl := pure_eq_ok.mp initialized
    exact ⟨rfl, rfl⟩
  have creates : runs.step first (.create 1 1 secondTask) second := ⟨fresh.1, fresh.2, created⟩
  have switches : runs.step second (.timer 2 kernelTimer) after := ⟨switch, switched⟩
  have start : runs.Reachable first := .start ⟨0, 0, false, initialized⟩
  exact (start.next creates).next switches

theorem readyQueue_invariant_firstSwitch : ∃ scheduler, runs.Reachable scheduler ∧
    scheduler.currentTask = some 1 ∧ scheduler.mainKernelTask = some 0 ∧
    ∃ queue, Queued scheduler queue ∧ ∀ limit panic, queue.length ≤ limit →
      scheduler.exitThisTask limit = .error panic → panic = .noResumeAddress := by
  have passed : (firstSwitch.toOption.any fun result =>
      decide (result.1.currentTask = some 1 ∧ result.1.mainKernelTask = some 0)) = true := by
    decide
  obtain ⟨result, run, switched⟩ := toOption_any.mp passed
  obtain ⟨isCurrent, isMain⟩ := of_decide_eq_true switched
  have reachable := firstSwitch_reachable run
  obtain ⟨queue, queued, _, _, exits⟩ := readyQueue_invariant reachable
  refine ⟨result.1, reachable, isCurrent, isMain, queue, queued, ?_⟩
  intro limit
  refine (exits ?_ limit).2
  rw [isCurrent, isMain]
  decide

end Scheduler

end ToyKernel
