import ToyKernel.Scheduler.Queue

/-!
Which tasks a row of calls of `schedule` selects. As long as no task exits the queue only turns,
and new tasks go to its front.
-/

namespace ToyKernel

open Library NodeHeap

namespace Scheduler

def Selects (before : Scheduler) (label : Event × Option Nat) (after : Scheduler) : Prop :=
  match label.1 with
  | .timer limit regs => ∃ switch, before.schedule limit false (some regs) = .ok (after, switch) ∧
      label.2 = switch.map Switch.task
  | event => Happens before event after ∧ label.2 = none

def selections : System Scheduler (Event × Option Nat) where
  initial := runs.initial
  step := Selects

def Event.isTimer : Event → Bool
  | .timer _ _ => true
  | _ => false

def Event.isCreate : Event → Bool
  | .create _ _ _ => true
  | _ => false

def Event.isExit : Event → Bool
  | .exit _ => true
  | _ => false

def selected (labels : List (Event × Option Nat)) : List Nat := labels.filterMap Prod.snd

def calls (labels : List (Event × Option Nat)) : Nat := labels.countP fun label => label.1.isTimer

def created (labels : List (Event × Option Nat)) : Nat := labels.countP fun label => label.1.isCreate

section Turning

variable {scheduler after : Scheduler} {queue : List (Nat × Nat)} {label : Event × Option Nat}
  {labels : List (Event × Option Nat)}

theorem selected_some (event : Event) (task : Nat) :
    selected ((event, some task) :: labels) = task :: selected labels :=
  List.filterMap_cons_some rfl

theorem selected_none (event : Event) : selected ((event, none) :: labels) = selected labels :=
  List.filterMap_cons_none rfl

theorem created_cons : created (label :: labels) = created labels + if label.1.isCreate then 1 else 0 :=
  List.countP_cons

theorem calls_cons : calls (label :: labels) = calls labels + if label.1.isTimer then 1 else 0 :=
  List.countP_cons

inductive Turns : List (Nat × Nat) → Event × Option Nat → List (Nat × Nat) → Prop
  | timer (limit : Nat) (regs : TimerRegs) (item : Nat × Nat) (rest : List (Nat × Nat)) :
      Turns (item :: rest) (.timer limit regs, some item.2) (rest ++ [item])
  | create (task node : Nat) (new : NewTask) (queue : List (Nat × Nat)) :
      Turns queue (.create task node new, none) ((node, task) :: queue)
  | destroy (task : Nat) (queue : List (Nat × Nat)) : Turns queue (.destroy task, none) queue

theorem Queued.step (queued : Queued scheduler queue) (many : 2 ≤ queue.length)
    (stepped : Selects scheduler label after) (stays : label.1.isExit = false) :
    ∃ next, Turns queue label next ∧ Queued after next := by
  obtain ⟨event, task⟩ := label
  cases event with
  | timer limit regs =>
      obtain ⟨switch, run, rfl⟩ := stepped
      obtain ⟨_, _, rfl, _, _⟩ | ⟨front, task, middle, last, current, rfl, isCurrent⟩ := queued.shape
      · simp at many
      · obtain ⟨_, _, _, made, isSwitch, switched, _, later⟩ := (queued.turn isCurrent).of_ok run
        cases isSwitch
        refine ⟨_, ?_, later⟩
        rw [switched.routine]
        exact .timer limit regs (front, task) (middle ++ [(last, current)])
  | create task node new =>
      obtain ⟨⟨freshTask, freshNode, run⟩, rfl⟩ := stepped
      exact ⟨_, .create task node new queue, queued.create freshTask freshNode run⟩
  | exit limit => cases stays
  | destroy task =>
      obtain ⟨⟨⟨entry, found, completed⟩, rfl⟩, rfl⟩ := stepped
      exact ⟨queue, .destroy task queue, queued.destroy found completed⟩

theorem Turns.many {next : List (Nat × Nat)} (turns : Turns queue label next) (many : 2 ≤ queue.length) :
    2 ≤ next.length := by
  cases turns with
  | timer limit regs item rest => simpa using many
  | create task node new =>
      rw [List.length_cons]
      omega
  | destroy task => exact many

theorem Turns.length {next : List (Nat × Nat)} (turns : Turns queue label next) :
    next.length = queue.length + created [label] := by
  cases turns with
  | timer limit regs item rest => simp [created, Event.isCreate]
  | create task node new => simp [created, Event.isCreate]
  | destroy task => simp [created, Event.isCreate]

/-- Without an exit the queue of several tasks stays one and grows by the tasks that are created. -/
theorem Queued.run (queued : Queued scheduler queue) (many : 2 ≤ queue.length)
    (run : selections.Run scheduler labels after) (stay : ∀ label ∈ labels, label.1.isExit = false) :
    ∃ next, Queued after next ∧ next.length = queue.length + created labels := by
  induction run generalizing queue with
  | done scheduler => exact ⟨queue, queued, rfl⟩
  | step stepped _ ih =>
      obtain ⟨own, later⟩ := List.forall_mem_cons.mp stay
      obtain ⟨middle, turns, still⟩ := queued.step many stepped own
      obtain ⟨next, last, length⟩ := ih still (turns.many many) later
      refine ⟨next, last, ?_⟩
      rw [length, turns.length, created, created, created, List.countP_cons, List.countP_cons, List.countP_nil]
      omega

/-- As many calls as there are tasks in the front part of the queue select these, and the two parts
change places. -/
theorem Queued.turn_front {front back : List (Nat × Nat)} (queued : Queued scheduler (front ++ back))
    (many : 2 ≤ (front ++ back).length) (run : selections.Run scheduler labels after)
    (timers : ∀ label ∈ labels, label.1.isTimer = true) (total : labels.length = front.length) :
    selected labels = front.map Prod.snd ∧ Queued after (back ++ front) := by
  induction front generalizing scheduler labels back with
  | nil =>
      cases List.length_eq_zero_iff.mp total
      cases run
      exact ⟨rfl, by simpa using queued⟩
  | cons item rest ih =>
      cases run with
      | done => cases total
      | @step _ label _ more _ stepped later =>
          obtain ⟨own, others⟩ := List.forall_mem_cons.mp timers
          have stays : label.1.isExit = false := by
            cases event : label.1 <;> simp_all [Event.isTimer, Event.isExit]
          obtain ⟨next, turns, still⟩ := queued.step many stepped stays
          cases turns with
          | timer limit regs =>
              have turned : Queued _ (rest ++ (back ++ [item])) := List.append_assoc rest back [item] ▸ still
              have longer : 2 ≤ (rest ++ (back ++ [item])).length := by
                simp only [List.length_append, List.length_cons, List.length_nil] at many ⊢
                omega
              obtain ⟨tasks, final⟩ := ih turned longer later others (by simpa using total)
              refine ⟨?_, by simpa using final⟩
              rw [selected_some, List.map_cons, tasks]
          | create => cases own
          | destroy => cases own

/-- A task at the given distance from the front is selected within that many calls, one more, and
one for each task that is created meanwhile. -/
theorem Queued.selected_in_time {position : Nat} {item : Nat × Nat} (queued : Queued scheduler queue)
    (many : 2 ≤ queue.length) (run : selections.Run scheduler labels after)
    (stay : ∀ label ∈ labels, label.1.isExit = false) (place : queue[position]? = some item)
    (enough : position + 1 + created labels ≤ calls labels) :
    item.2 ∈ (selected labels).take (position + 1 + created labels) := by
  induction run generalizing queue position with
  | done scheduler =>
      simp only [created, calls, List.countP_nil] at enough
      omega
  | @step _ label _ labels _ stepped _ ih =>
      obtain ⟨own, later⟩ := List.forall_mem_cons.mp stay
      obtain ⟨next, turns, still⟩ := queued.step many stepped own
      have longer := turns.many many
      rw [created_cons, calls_cons] at enough
      rw [created_cons]
      cases turns with
      | timer limit regs front rest =>
          simp only [Event.isCreate, Event.isTimer, Bool.false_eq_true, if_false, if_true, Nat.add_zero] at enough ⊢
          rw [selected_some]
          cases position with
          | zero =>
              cases Option.some.inj place
              rw [Nat.add_right_comm, List.take_succ_cons]
              exact List.mem_cons_self
          | succ position =>
              have further : (rest ++ [front])[position]? = some item := by
                rw [List.getElem?_cons_succ] at place
                rw [List.getElem?_append_left (List.getElem?_eq_some_iff.mp place).1, place]
              have inTime := ih still longer later further (by omega)
              rw [Nat.add_right_comm (position + 1), List.take_succ_cons]
              exact List.mem_cons_of_mem _ inTime
      | create task node new =>
          simp only [Event.isCreate, Event.isTimer, Bool.false_eq_true, if_false, if_true, Nat.add_zero] at enough ⊢
          have behind : ((node, task) :: queue)[position + 1]? = some item := by
            rw [List.getElem?_cons_succ, place]
          have inTime := ih still longer later behind (by omega)
          rw [selected_none, ← Nat.add_assoc, Nat.add_right_comm (position + 1)]
          exact inTime
      | destroy task =>
          simp only [Event.isCreate, Event.isTimer, Bool.false_eq_true, if_false, Nat.add_zero] at enough ⊢
          rw [selected_none]
          exact ih still longer later place enough

end Turning

end Scheduler

end ToyKernel
