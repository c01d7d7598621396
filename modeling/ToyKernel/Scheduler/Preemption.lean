import ToyKernel.Scheduler.RoundRobin
import ToyKernel.Scheduler.RoundTrip

/-!
How long a task waits for the processor. The timer handler calls `schedule` at every second tick, also
where the count of ticks wraps around, and a task that exits calls it in between.
-/

namespace ToyKernel

open Library

namespace Machine

def Action.isTimer : Action → Bool
  | .timer _ _ => true
  | _ => false

def Action.isCreate : Action → Bool
  | .create _ _ _ _ _ => true
  | _ => false

def Action.isExit : Action → Bool
  | .exit _ _ => true
  | _ => false

def interrupts (actions : List Action) : Nat := actions.countP Action.isTimer

def created (actions : List Action) : Nat := actions.countP Action.isCreate

def exits (actions : List Action) : Nat := actions.countP Action.isExit

/-- How often `schedule` is called: at the even ticks and by the tasks that exit. -/
def turns (tick : UInt32) (actions : List Action) : Nat :=
  (tick.toNat % 2 + interrupts actions) / 2 + exits actions

section Counting

variable {action : Action} {actions : List Action} {tick : UInt32}

theorem created_cons : created (action :: actions) = created actions + if action.isCreate then 1 else 0 :=
  List.countP_cons

theorem tick_next (tick : UInt32) : (tick + 1).toNat % 2 = (tick.toNat + 1) % 2 := by
  rw [UInt32.toNat_add]
  exact Nat.mod_mod_of_dvd _ (by decide)

theorem quantum_over (tick : UInt32) : (tick + 1) % kQuanta = 0 ↔ tick.toNat % 2 = 1 := by
  rw [← UInt32.toNat_inj, UInt32.toNat_mod]
  have parity := tick_next tick
  change (tick + 1).toNat % 2 = 0 ↔ _
  omega

theorem turns_timer {limit : Nat} {scratch : Scratch} : turns tick (.timer limit scratch :: actions) =
    turns (tick + 1) actions + if (tick + 1) % kQuanta = 0 then 1 else 0 := by
  have parity := tick_next tick
  have quantum := quantum_over tick
  simp only [turns, interrupts, exits, List.countP_cons, Action.isTimer, Action.isExit, Bool.false_eq_true,
    if_true, if_false]
  split
  · have odd := quantum.mp ‹_›
    omega
  · have even : ¬tick.toNat % 2 = 1 := fun odd => ‹¬_› (quantum.mpr odd)
    omega

theorem turns_exit {limit : Nat} {scratch : Scratch} :
    turns tick (.exit limit scratch :: actions) = turns tick actions + 1 := by
  simp only [turns, interrupts, exits, List.countP_cons, Action.isTimer, Action.isExit, Bool.false_eq_true,
    if_true, if_false]
  omega

theorem turns_other (untimed : action.isTimer = false) (stays : action.isExit = false) :
    turns tick (action :: actions) = turns tick actions := by
  simp [turns, interrupts, exits, untimed, stays]

end Counting

section Waiting

variable {machine after : Machine} {action : Action} {actions : List Action} {item : Nat × Nat}
  {limit position : Nat} {scratch : Scratch}

theorem switchTasks_same {switch : Switch} (run : machine.switchTasks switch = .ok after) :
    after.tick = machine.tick ∧ after.scheduler = machine.scheduler := by
  obtain ⟨entry, _, done⟩ := bind_eq_ok.mp run
  obtain rfl := pure_eq_ok.mp done
  have same := @runRoutine_same { (if entry.isUserTask then { machine with esp0 := entry.esp0 } else machine) with
    pageDirectory := entry.pageDirectory } entry.regs switch.routine
  refine ⟨same.tick.trans ?_, same.scheduler.trans ?_⟩
  · split <;> rfl
  · split <;> rfl

theorem timer_scheduler (run : machine.timerInterrupt limit scratch = .ok after) :
    after.tick = machine.tick + 1 ∧
    ((machine.tick + 1) % kQuanta = 0 → ∃ regs switch,
      machine.scheduler.schedule limit false (some regs) = .ok (after.scheduler, switch)) ∧
    (¬(machine.tick + 1) % kQuanta = 0 → after.scheduler = machine.scheduler) := by
  have stubbed := (@interrupt_same machine).trans (irqStub_same.trans (call_same scratch))
  have disabled : (machine.interrupt.irqStub.call scratch).interruptsAreEnabled = false :=
    stub_interruptsAreEnabled
  unfold timerInterrupt at run
  dsimp only at run
  generalize machine.interrupt.irqStub.cpu.esp + 4 = pointer at run
  generalize machine.interrupt.irqStub.call scratch = handler at run stubbed disabled
  rw [stubbed.tick] at run
  split at run
  · rename_i quantum
    obtain ⟨⟨scheduler, switch⟩, scheduled, rest⟩ := bind_eq_ok.mp run
    have ended : after.tick = machine.tick + 1 ∧ after.scheduler = scheduler := by
      cases switch with
      | some switch => exact switchTasks_same rest
      | none =>
          obtain rfl := pure_eq_ok.mp rest
          have same := @restoreRegisters_same { handler with tick := machine.tick + 1, scheduler } pointer
          exact ⟨same.tick, same.scheduler⟩
    have called : machine.scheduler.schedule limit false
        (some (({ handler with tick := machine.tick + 1 } : Machine).timerRegs pointer)) = .ok (scheduler, switch) := by
      rw [← stubbed.scheduler, ← disabled]
      exact scheduled
    rw [ended.2]
    exact ⟨ended.1, fun _ => ⟨_, _, called⟩, fun odd => absurd quantum odd⟩
  · rename_i odd
    obtain rfl := pure_eq_ok.mp run
    have same := @restoreRegisters_same { handler with tick := machine.tick + 1 } pointer
    exact ⟨same.tick, fun quantum => absurd quantum odd, fun _ => same.scheduler.trans stubbed.scheduler⟩

theorem exit_scheduler (run : machine.exitTask limit scratch = .ok after) :
    after.tick = machine.tick ∧ ∃ switch, machine.scheduler.exitThisTask limit = .ok (after.scheduler, switch) := by
  obtain ⟨⟨scheduler, switch⟩, exited, rest⟩ := bind_eq_ok.mp run
  have same := switchTasks_same rest
  exact ⟨same.1, switch, by rw [same.2]; exact exited⟩

def Waits (machine : Machine) (position : Nat) (item : Nat × Nat) : Prop :=
  ∃ queue, Scheduler.Queued machine.scheduler queue ∧ queue[position]? = some item ∧ position + 1 < queue.length

def Advances (after : Machine) (item : Nat × Nat) : Nat → Prop
  | 0 => after.scheduler.currentTask = some item.2
  | position + 1 => after.Waits position item

theorem Waits.not_running (waits : machine.Waits position item) :
    machine.scheduler.currentTask ≠ some item.2 := by
  obtain ⟨queue, queued, place, inner⟩ := waits
  intro isCurrent
  have last : (queue.map Prod.snd)[queue.length - 1]? = some item.2 := by
    rw [← isCurrent, queued.current, List.getLast?_eq_getElem?, List.length_map]
  have own : (queue.map Prod.snd)[position]? = some item.2 := by rw [List.getElem?_map, place]; rfl
  have same := (List.getElem?_inj (by rw [List.length_map]; omega) queued.linked.distinct).mp (own.trans last.symm)
  omega

theorem Waits.shape (waits : machine.Waits position item) :
    ∃ front task middle last current,
      Scheduler.Queued machine.scheduler ((front, task) :: (middle ++ [(last, current)])) ∧
        machine.scheduler.currentTask = some current ∧
          ((front, task) :: middle)[position]? = some item := by
  obtain ⟨queue, queued, place, inner⟩ := waits
  obtain ⟨_, _, rfl, _, _⟩ | ⟨front, task, middle, last, current, rfl, isCurrent⟩ := queued.shape
  · simp at inner
  · refine ⟨front, task, middle, last, current, queued, isCurrent, ?_⟩
    rw [← List.cons_append] at place
    rw [← place, List.getElem?_append_left]
    simp only [List.length_cons, List.length_append, List.length_nil] at inner ⊢
    omega

theorem advances_of_turn {front : Nat × Nat} {middle more : List (Nat × Nat)}
    (queued : Scheduler.Queued after.scheduler (middle ++ more ++ [front]))
    (place : (front :: middle)[position]? = some item) : after.Advances item position := by
  cases position with
  | zero =>
      obtain rfl : front = item := Option.some.inj place
      exact queued.current.trans (by rw [List.map_append, List.map_singleton, List.getLast?_concat])
  | succ position =>
      rw [List.getElem?_cons_succ] at place
      have inner := (List.getElem?_eq_some_iff.mp place).1
      refine ⟨_, queued, ?_, ?_⟩
      · rw [List.append_assoc, List.getElem?_append_left inner, place]
      · simp only [List.length_append, List.length_singleton]
        omega

theorem Waits.timer (waits : machine.Waits position item)
    (run : machine.timerInterrupt limit scratch = .ok after) (quantum : (machine.tick + 1) % kQuanta = 0) :
    after.Advances item position := by
  obtain ⟨front, task, middle, last, current, queued, isCurrent, place⟩ := waits.shape
  obtain ⟨regs, switch, called⟩ := (timer_scheduler run).2.1 quantum
  obtain ⟨_, _, _, _, _, _, _, later⟩ := (queued.turn isCurrent).of_ok called
  exact advances_of_turn later place

theorem Waits.exit (waits : machine.Waits position item)
    (notMain : machine.scheduler.currentTask ≠ machine.scheduler.mainKernelTask)
    (run : machine.exitTask limit scratch = .ok after) : after.Advances item position := by
  obtain ⟨front, task, middle, last, current, queued, isCurrent, place⟩ := waits.shape
  obtain ⟨_, switch, called⟩ := exit_scheduler run
  obtain ⟨_, _, _, _, _, later⟩ := (queued.exit_turn isCurrent notMain).of_ok called
  have turned : Scheduler.Queued after.scheduler (middle ++ [] ++ [(front, task)]) := by rwa [List.append_nil]
  exact advances_of_turn turned place

/-- One step either is a turn, which brings the task closer, or leaves the running task in its place. -/
theorem Waits.step (waits : machine.Waits position item) (happens : machine.Happens action after) :
    (action.isCreate = false ∧ (∀ rest, turns machine.tick (action :: rest) = turns after.tick rest + 1) ∧
      after.Advances item position) ∨
    ((∀ rest, turns machine.tick (action :: rest) = turns after.tick rest) ∧
      after.Waits (position + if action.isCreate then 1 else 0) item) := by
  cases action with
  | execute cpu memory =>
      obtain rfl : after = _ := happens
      exact Or.inr ⟨fun rest => turns_other rfl rfl, waits⟩
  | create task node new cpu memory =>
      obtain ⟨scheduler, ⟨freshTask, freshNode, run⟩, rfl⟩ := happens
      obtain ⟨queue, queued, place, inner⟩ := waits
      refine Or.inr ⟨fun rest => turns_other rfl rfl, _, queued.create freshTask freshNode run, ?_, ?_⟩
      · exact place
      · exact Nat.succ_lt_succ inner
  | destroy task cpu memory =>
      obtain ⟨scheduler, ⟨⟨entry, found, completed⟩, rfl⟩, rfl⟩ := happens
      obtain ⟨queue, queued, place, inner⟩ := waits
      exact Or.inr ⟨fun rest => turns_other rfl rfl, queue, queued.destroy found completed, place, inner⟩
  | timer limit scratch =>
      have run : machine.timerInterrupt limit scratch = .ok after := happens
      obtain ⟨ticked, _, same⟩ := timer_scheduler run
      by_cases quantum : (machine.tick + 1) % kQuanta = 0
      · refine Or.inl ⟨rfl, fun rest => ?_, waits.timer run quantum⟩
        rw [turns_timer, if_pos quantum, ticked]
      · refine Or.inr ⟨fun rest => ?_, ?_⟩
        · rw [turns_timer, if_neg quantum, ticked, Nat.add_zero]
        · obtain ⟨queue, queued, place, inner⟩ := waits
          exact ⟨queue, by rw [same quantum]; exact queued, place, inner⟩
  | exit limit scratch =>
      obtain ⟨_, notMain, run⟩ := happens
      refine Or.inl ⟨rfl, fun rest => ?_, waits.exit notMain run⟩
      rw [turns_exit, (exit_scheduler run).1]

theorem turns_nil (tick : UInt32) : turns tick [] = 0 := by
  simp only [turns, interrupts, exits, List.countP_nil]
  omega

/-- Up to its turn the task waits, and every turn of another one brings it one place closer. -/
theorem Waits.run (waits : machine.Waits position item) (run : runs.Run machine actions after)
    (early : ∀ before, before <+: actions → turns machine.tick before ≤ position + created before) :
    ∃ place, after.Waits place item ∧ place + turns machine.tick actions = position + created actions := by
  induction run generalizing position with
  | done machine => exact ⟨position, waits, by rw [turns_nil]; rfl⟩
  | @step machine action middle actions after happens _ ih =>
      rcases waits.step happens with ⟨notCreate, turned, advances⟩ | ⟨same, still⟩
      · have own := early [action] ⟨actions, rfl⟩
        rw [turned, turns_nil, created_cons, notCreate] at own
        obtain ⟨position, rfl⟩ := Nat.exists_eq_succ_of_ne_zero (show position ≠ 0 by rintro rfl; cases own)
        obtain ⟨place, later, sum⟩ := ih advances (fun before inside => by
          have whole := early (action :: before) (List.cons_prefix_cons.mpr ⟨rfl, inside⟩)
          rw [turned, created_cons, notCreate] at whole
          simp only [Bool.false_eq_true, if_false] at whole
          omega)
        refine ⟨place, later, ?_⟩
        rw [turned, created_cons, notCreate]
        simp only [Bool.false_eq_true, if_false]
        omega
      · obtain ⟨place, later, sum⟩ := ih still (fun before inside => by
          have whole := early (action :: before) (List.cons_prefix_cons.mpr ⟨rfl, inside⟩)
          rw [same, created_cons] at whole
          omega)
        refine ⟨place, later, ?_⟩
        rw [same, created_cons]
        omega

theorem Waits.selected (waits : machine.Waits position item) (run : runs.Run machine actions after)
    (enough : position + 1 + created actions ≤ turns machine.tick actions) :
    ∃ before rest middle, actions = before ++ rest ∧ runs.Run machine before middle ∧ runs.Run middle rest after ∧
      turns machine.tick before = position + 1 + created before ∧
        middle.scheduler.currentTask = some item.2 := by
  induction run generalizing position with
  | done machine =>
      rw [turns_nil] at enough
      omega
  | @step machine action middle actions after happens run ih =>
      have onward (position : Nat) (later : ∃ before rest state, actions = before ++ rest ∧
          runs.Run middle before state ∧ runs.Run state rest after ∧
          turns machine.tick (action :: before) = position + 1 + created (action :: before) ∧
            state.scheduler.currentTask = some item.2) :
          ∃ before rest state, action :: actions = before ++ rest ∧ runs.Run machine before state ∧
            runs.Run state rest after ∧ turns machine.tick before = position + 1 + created before ∧
              state.scheduler.currentTask = some item.2 := by
        obtain ⟨before, rest, state, rfl, first, second, count, current⟩ := later
        exact ⟨action :: before, rest, state, rfl, .step happens first, second, count, current⟩
      rw [created_cons] at enough
      rcases waits.step happens with ⟨notCreate, turned, advances⟩ | ⟨same, still⟩
      · rw [notCreate, turned] at enough
        simp only [Bool.false_eq_true, if_false] at enough
        refine onward position ?_
        cases position with
        | zero =>
            refine ⟨[], actions, middle, rfl, .done middle, run, ?_, advances⟩
            rw [turned, turns_nil, created_cons, notCreate]
            rfl
        | succ position =>
            obtain ⟨before, rest, state, split, first, second, count, current⟩ := ih advances (by omega)
            refine ⟨before, rest, state, split, first, second, ?_, current⟩
            rw [turned, count, created_cons, notCreate]
            simp only [Bool.false_eq_true, if_false]
            omega
      · rw [same] at enough
        obtain ⟨before, rest, state, split, first, second, count, current⟩ := ih still (by omega)
        refine onward position ⟨before, rest, state, split, first, second, ?_, current⟩
        rw [same, count, created_cons]
        omega

/-- A step that changes the running task is a turn. -/
theorem current_of_step (happens : machine.Happens action after) :
    (∀ rest, turns machine.tick (action :: rest) = turns after.tick rest + 1) ∨
    ((∀ rest, turns machine.tick (action :: rest) = turns after.tick rest) ∧
      after.scheduler.currentTask = machine.scheduler.currentTask) := by
  cases action with
  | execute cpu memory =>
      obtain rfl : after = _ := happens
      exact Or.inr ⟨fun rest => turns_other rfl rfl, rfl⟩
  | create task node new cpu memory =>
      obtain ⟨scheduler, ⟨_, _, run⟩, rfl⟩ := happens
      obtain ⟨_, _, rest⟩ := bind_eq_ok.mp run
      obtain ⟨_, _, done⟩ := bind_eq_ok.mp rest
      obtain rfl := pure_eq_ok.mp done
      exact Or.inr ⟨fun rest => turns_other rfl rfl, rfl⟩
  | destroy task cpu memory =>
      obtain ⟨scheduler, ⟨_, rfl⟩, rfl⟩ := happens
      exact Or.inr ⟨fun rest => turns_other rfl rfl, rfl⟩
  | timer limit scratch =>
      obtain ⟨ticked, _, same⟩ := timer_scheduler happens
      by_cases quantum : (machine.tick + 1) % kQuanta = 0
      · exact Or.inl fun rest => by rw [turns_timer, if_pos quantum, ticked]
      · exact Or.inr ⟨fun rest => by rw [turns_timer, if_neg quantum, ticked, Nat.add_zero],
          congrArg Scheduler.currentTask (same quantum)⟩
  | exit limit scratch =>
      obtain ⟨_, _, run⟩ := happens
      exact Or.inl fun rest => by rw [turns_exit, (exit_scheduler run).1]

theorem current_without_turn (run : runs.Run machine actions after) (none : turns machine.tick actions = 0) :
    after.scheduler.currentTask = machine.scheduler.currentTask := by
  induction run with
  | done machine => rfl
  | step happens _ ih =>
      rcases current_of_step happens with turned | ⟨same, kept⟩
      · rw [turned] at none
        cases none
      · rw [same] at none
        exact (ih none).trans kept

/-- A task keeps the processor until the next turn, whatever it executes. A task that waits gets it at the
turn of its own number in the queue, one later for each task that is created before, and no sooner. -/
theorem waiting_task_runs (reachable : runs.Reachable machine) (run : runs.Run machine actions after) :
    (turns machine.tick actions = 0 → after.scheduler.currentTask = machine.scheduler.currentTask) ∧
    (∃ queue, Scheduler.Queued machine.scheduler queue) ∧ ∀ queue, Scheduler.Queued machine.scheduler queue →
      ∀ position item, queue[position]? = some item → position + 1 < queue.length →
        (position + 1 + created actions ≤ turns machine.tick actions →
          ∃ before rest middle, actions = before ++ rest ∧ runs.Run machine before middle ∧
            runs.Run middle rest after ∧ turns machine.tick before = position + 1 + created before ∧
              middle.scheduler.currentTask = some item.2) ∧
        ((∀ before, before <+: actions → turns machine.tick before ≤ position + created before) →
          after.scheduler.currentTask ≠ some item.2) := by
  refine ⟨current_without_turn run, (reachable_scheduled reachable).queued, ?_⟩
  intro queue queued position item place inner
  have waits : machine.Waits position item := ⟨queue, queued, place, inner⟩
  refine ⟨waits.selected run, fun early => ?_⟩
  obtain ⟨place, later, _⟩ := waits.run run early
  exact later.not_running

/-- The main kernel task on the machine, after it created a second one. -/
theorem kernelMachine_reachable {first second : Scheduler} {new : Scheduler.NewTask}
    (initialized : Scheduler.uninitialized.initScheduler 0 0 false = .ok first)
    (made : first.createTask 1 1 new = .ok second) :
    runs.Reachable (kernelMachine second) ∧ Scheduler.Queued second [(1, 1), (0, 0)] := by
  have fresh : first.tasks 1 = none ∧ first.nodes 1 = none := by
    obtain rfl := pure_eq_ok.mp initialized
    exact ⟨rfl, rfl⟩
  have start : runs.Reachable (kernelMachine first) := .start ⟨⟨0, 0, false, initialized⟩, rfl⟩
  have creates : runs.step (kernelMachine first) (.create 1 1 new kernelCpu fun _ => 0) (kernelMachine second) :=
    ⟨second, ⟨fresh.1, fresh.2, made⟩, rfl⟩
  exact ⟨start.next creates, (Scheduler.initScheduler_queued initialized).create fresh.1 fresh.2 made⟩

theorem waiting_task_runs_second : ∃ machine middle : Machine, runs.Reachable machine ∧
    machine.scheduler.currentTask = some 0 ∧ ∃ actions, runs.Run machine actions middle ∧
      interrupts actions ≤ 1 ∧ middle.scheduler.currentTask = some 1 := by
  have passed : thereAndBack.toOption.any inOrder = true := by
    decide +kernel
  obtain ⟨states, found, ordered⟩ := toOption_any.mp passed
  obtain ⟨first, initialized, rest⟩ := bind_eq_ok.mp found
  obtain ⟨second, made, rest⟩ := bind_eq_ok.mp rest
  obtain ⟨left, preempted, rest⟩ := bind_eq_ok.mp rest
  obtain ⟨reachable, queued⟩ := kernelMachine_reachable initialized made
  have run : runs.Run (kernelMachine second) [.timer 2 noScratch] left := .step preempted (.done left)
  have due : 0 + 1 + created [.timer 2 noScratch] ≤ turns 1 [.timer 2 noScratch] := by decide
  obtain ⟨before, later, middle, split, reached, _, _, current⟩ :=
    ((waiting_task_runs reachable run).2.2 _ queued 0 (1, 1) rfl (by decide)).1 due
  refine ⟨kernelMachine second, middle, reachable, queued.current, before, reached, ?_, current⟩
  have one : interrupts (before ++ later) = 1 := by rw [← split]; rfl
  rw [interrupts, List.countP_append] at one
  exact Nat.le.intro one

end Waiting

end Machine

end ToyKernel
