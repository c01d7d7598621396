import ToyKernel.Scheduler.Traps

/-!
The way of an interrupt into the kernel: the gates of `kernel/descriptortables.cpp`, the stubs of
`kernel/interrupt.S`, and what `kernel/isr.cpp` does with an interrupt that has no handler.
-/

namespace ToyKernel

open Library

structure IdtEntry where
  baseLo : UInt16
  sel : UInt16
  always0 : UInt8
  flags : UInt8
  baseHi : UInt16
deriving DecidableEq, Repr

inductive Stub
  | isr (number : UInt8)
  | irq (number : UInt8)
deriving DecidableEq, Repr

abbrev Idt := UInt8 → IdtEntry

def kDplUser : UInt8 := 0x60

def gate (base : UInt32) (sel : UInt16) (flags : UInt8) : IdtEntry where
  baseLo := (base &&& 0xFFFF).toUInt16
  sel := sel
  always0 := 0
  flags := flags
  baseHi := ((base >>> 16) &&& 0xFFFF).toUInt16

def idtSetGate (num : UInt8) (base : UInt32) (sel : UInt16) (flags : UInt8) (entries : Idt) : Idt :=
  Function.update entries num (gate base sel flags)

def idtGates : List (UInt8 × Stub) :=
  [(0, .isr 0), (1, .isr 1), (2, .isr 2), (3, .isr 3), (4, .isr 4), (5, .isr 5), (6, .isr 6), (7, .isr 7),
    (8, .isr 8), (9, .isr 9), (10, .isr 10), (11, .isr 11), (12, .isr 12), (13, .isr 13), (14, .isr 14),
    (15, .isr 15), (16, .isr 16), (17, .isr 17), (18, .isr 18), (19, .isr 19), (20, .isr 20), (21, .isr 21),
    (22, .isr 22), (23, .isr 23), (24, .isr 24), (25, .isr 25), (26, .isr 26), (27, .isr 27), (28, .isr 28),
    (29, .isr 29), (39, .isr 30), (31, .isr 31), (32, .irq 0), (33, .irq 1), (34, .irq 2), (35, .irq 3),
    (36, .irq 4), (37, .irq 5), (38, .irq 6), (39, .irq 7), (40, .irq 8), (41, .irq 9), (42, .irq 10),
    (43, .irq 11), (44, .irq 12), (45, .irq 13), (46, .irq 14), (47, .irq 15)]

def setGates (address : Stub → UInt32) : List (UInt8 × Stub) → Idt → Idt
  | [], entries => entries
  | (num, stub) :: gates, entries => setGates address gates (idtSetGate num (address stub) 0x08 0x8E entries)

def initIdt (address : Stub → UInt32) : Idt :=
  idtSetGate 128 (address (.isr 128)) 0x08 (0x8E ||| kDplUser)
    (setGates address idtGates fun _ => ⟨0, 0, 0, 0, 0⟩)

/-- The words that a stub pushes before the registers; the stubs without an error code push a zero for it. -/
def Stub.words : Stub → List UInt32
  | .isr number =>
      if number ∈ ([8, 10, 11, 12, 13, 14, 17, 30] : List UInt8) then [number.toUInt32] else [0, number.toUInt32]
  | .irq number => [0, 32 + number.toUInt32]

inductive Cause
  | exception (errCode : UInt32)
  | hardware
  | software
deriving DecidableEq, Repr

/-- The processor pushes an error code for these exceptions only. -/
def Cause.words (vector : UInt8) : Cause → List UInt32
  | .exception errCode => if vector ∈ ([8, 10, 11, 12, 13, 14, 17] : List UInt8) then [errCode] else []
  | _ => []

def Cause.pushedCode (vector : UInt8) : Cause → UInt32
  | .exception errCode => if vector ∈ ([8, 10, 11, 12, 13, 14, 17] : List UInt8) then errCode else 0
  | _ => 0

inductive Refusal
  | generalProtection | notPresent
deriving DecidableEq, Repr

/-- How the processor reads a gate: only one for 32-bit interrupts will do, and an instruction needs its
privilege. -/
def IdtEntry.entersAt (entry : IdtEntry) (software : Bool) (cpl : Nat) : Except Refusal UInt32 :=
  if entry.flags &&& 0x1F ≠ 0x0E then .error .generalProtection
  else if software = true ∧ ((entry.flags >>> 5) &&& 3).toNat < cpl then .error .generalProtection
  else if entry.flags &&& 0x80 = 0 then .error .notPresent
  else .ok ((entry.baseHi.toUInt32 <<< 16) ||| entry.baseLo.toUInt32)

section Gates

variable {address : Stub → UInt32}

/-- The stub behind a vector. The gate that was meant for 30 is set for 39, and set again for the interrupt
line 7. -/
def vectorStub (vector : UInt8) : Option Stub :=
  if vector < 30 ∨ vector = 31 ∨ vector = 128 then some (.isr vector)
  else if 32 ≤ vector ∧ vector < 48 then some (.irq (vector - 32))
  else none

/-- The last gate that is set for a vector stays. -/
theorem setGates_eq (gates : List (UInt8 × Stub)) (entries : Idt) (vector : UInt8) :
    setGates address gates entries vector =
      (gates.reverse.lookup vector).elim (entries vector) fun stub => gate (address stub) 0x08 0x8E := by
  induction gates generalizing entries with
  | nil => rfl
  | cons first gates ih =>
      obtain ⟨number, stub⟩ := first
      rw [setGates, ih, List.reverse_cons, List.lookup_append]
      cases found : gates.reverse.lookup vector with
      | some stub => rfl
      | none =>
          by_cases same : vector = number
          · rw [same, idtSetGate, Function.update_self]
            simp
          · have other : (vector == number) = false := beq_eq_false_iff_ne.mpr same
            simp [List.lookup_cons, other, idtSetGate, Function.update_of_ne same]

theorem idtGates_lookup : ∀ number < 256, UInt8.ofNat number ≠ 128 →
    idtGates.reverse.lookup (UInt8.ofNat number) = vectorStub (UInt8.ofNat number) := by
  decide +kernel

theorem initIdt_eq (vector : UInt8) : initIdt address vector =
    (vectorStub vector).elim ⟨0, 0, 0, 0, 0⟩ fun stub =>
      gate (address stub) 0x08 (if vector = 128 then 0x8E ||| kDplUser else 0x8E) := by
  by_cases system : vector = 128
  · rw [system, initIdt, idtSetGate, Function.update_self]
    rfl
  · have found := idtGates_lookup vector.toNat vector.toNat_lt (by rwa [UInt8.ofNat_toNat])
    rw [UInt8.ofNat_toNat] at found
    rw [initIdt, idtSetGate, Function.update_of_ne system, setGates_eq, found, if_neg system]

theorem offset_base (base : UInt32) :
    ((((base >>> 16) &&& 0xFFFF).toUInt16.toUInt32 <<< 16) ||| (base &&& 0xFFFF).toUInt16.toUInt32) = base := by
  have bound := base.toNat_lt
  have masked (value : Nat) : value &&& 65535 = value % 65536 := Nat.and_two_pow_sub_one_eq_mod value 16
  have low : (base &&& 0xFFFF).toUInt16.toUInt32.toNat = base.toNat % 65536 := by
    rw [UInt16.toNat_toUInt32, UInt32.toNat_toUInt16, UInt32.toNat_and,
      show (0xFFFF : UInt32).toNat = 65535 from rfl, masked]
    omega
  have high : ((base >>> 16) &&& 0xFFFF).toUInt16.toUInt32.toNat = base.toNat / 65536 := by
    rw [UInt16.toNat_toUInt32, UInt32.toNat_toUInt16, UInt32.toNat_and,
      show (0xFFFF : UInt32).toNat = 65535 from rfl, masked, UInt32.toNat_shiftRight,
      show (16 : UInt32).toNat % 32 = 16 from rfl, Nat.shiftRight_eq_div_pow]
    omega
  rw [← UInt32.toNat_inj, UInt32.toNat_or, UInt32.toNat_shiftLeft, low, high,
    show (16 : UInt32).toNat % 32 = 16 from rfl, Nat.shiftLeft_eq]
  have small : base.toNat / 65536 * 2 ^ 16 < 2 ^ 32 := by omega
  rw [Nat.mod_eq_of_lt small, ← Nat.shiftLeft_eq, ← Nat.shiftLeft_add_eq_or_of_lt (by omega), Nat.shiftLeft_eq]
  omega

theorem gate_entersAt (base : UInt32) (sel : UInt16) {flags : UInt8} (software : Bool) (cpl : Nat)
    (kind : flags &&& 0x1F = 0x0E) (present : flags &&& 0x80 ≠ 0) :
    (gate base sel flags).entersAt software cpl =
      if software = true ∧ ((flags >>> 5) &&& 3).toNat < cpl then .error .generalProtection else .ok base := by
  have same : (gate base sel flags).flags = flags := rfl
  rw [IdtEntry.entersAt, same, if_neg (not_not.mpr kind), if_neg present]
  exact if_congr Iff.rfl rfl (congrArg Except.ok (offset_base base))

/-- An instruction of a user program gets through the gate for system calls and through no other. -/
theorem initIdt_entersAt (vector : UInt8) (software : Bool) {cpl : Nat} (level : cpl < 4) :
    (initIdt address vector).entersAt software cpl = (vectorStub vector).elim (.error .generalProtection)
      fun stub => if software = true ∧ 0 < cpl ∧ vector ≠ 128 then .error .generalProtection
        else .ok (address stub) := by
  rw [initIdt_eq]
  cases vectorStub vector with
  | none =>
      have other : (0 : UInt8) &&& 0x1F ≠ 0x0E := by decide
      exact if_pos other
  | some stub =>
      change (gate (address stub) 0x08 (if vector = 128 then 0x8E ||| kDplUser else 0x8E)).entersAt software cpl = _
      by_cases system : vector = 128
      · rw [if_pos system, gate_entersAt _ _ _ _ (by decide) (by decide)]
        refine (if_neg ?_).trans (if_neg ?_).symm
        · rintro ⟨_, above⟩
          exact absurd above (Nat.not_lt.mpr (Nat.le_of_lt_succ level))
        · exact fun outside => outside.2.2 system
      · rw [if_neg system, gate_entersAt _ _ _ _ (by decide) (by decide)]
        exact if_congr (and_congr_right fun _ => (and_iff_left system).symm) rfl rfl

end Gates

inductive Handler
  | handlePageFault | timerCallback | syscallHandler
deriving DecidableEq, Repr

def registerInterruptHandler (n : UInt8) (handler : Handler) (handlers : UInt32 → Option Handler) :
    UInt32 → Option Handler :=
  Function.update handlers n.toUInt32 (some handler)

def interruptHandlers : UInt32 → Option Handler :=
  registerInterruptHandler 128 .syscallHandler (registerInterruptHandler 32 .timerCallback
    (registerInterruptHandler 14 .handlePageFault fun _ => none))

inductive TrapFault
  | refused (refusal : Refusal)
  | noCode | interruptsEnabled | unhandledInterrupt
  | panic (panic : Panic)
deriving DecidableEq, Repr

structure StubCode where
  address : Stub → UInt32
  stubAt : UInt32 → Option Stub
  found : ∀ stub, stubAt (address stub) = some stub

inductive Answer
  | calls (handler : Handler) (entered : Machine)
  | exits (after : Machine)

namespace Machine

def raise (code : StubCode) (cause : Cause) (vector : UInt8) (machine : Machine) : Except TrapFault Machine := do
  let offset ← ((initIdt code.address vector).entersAt (decide (cause = .software)) machine.cpl).mapError .refused
  let some stub := code.stubAt offset | .error .noCode
  return (machine.interrupt.push (cause.words vector ++ stub.words)).saveRegisters

def isrHandler (limit : Nat) (scratch : Scratch) (entered : Machine) : Except TrapFault Answer := do
  require (entered.interruptsAreEnabled = false) .interruptsEnabled
  let regs := (entered.call scratch).readRegisters (entered.cpu.esp + 4)
  let some handler := interruptHandlers regs.intNo | do
    let current ← entered.scheduler.getCurrentTask.mapError .panic
    let entry ← (entered.scheduler.getTask current).mapError .panic
    require (entry.isUserTask = true) .unhandledInterrupt
    let after ← (entered.exitTask limit scratch).mapError .panic
    return .exits after
  return .calls handler (entered.call scratch)

def exception (code : StubCode) (limit : Nat) (scratch : Scratch) (errCode : UInt32) (vector : UInt8)
    (machine : Machine) : Except TrapFault Answer := do
  let entered ← machine.raise code (.exception errCode) vector
  isrHandler limit scratch entered

/-- The instruction `int`; the processor turns a refusal into an exception with the vector in its error code. -/
def intInstruction (code : StubCode) (limit : Nat) (scratch : Scratch) (vector : UInt8) (machine : Machine) :
    Except TrapFault Answer :=
  match machine.raise code .software vector with
  | .ok entered => isrHandler limit scratch entered
  | .error (.refused .generalProtection) =>
      machine.exception code limit scratch (8 * vector.toUInt32 + 2) 13
  | .error fault => .error fault

end Machine

section Entry

variable {machine after : Machine} {code : StubCode} {vector : UInt8} {errCode : UInt32} {limit : Nat}
  {scratch : Scratch}

theorem exception_words (errCode : UInt32) (other : vector ≠ 30) :
    (Cause.exception errCode).words vector ++ (Stub.isr vector).words =
      [(Cause.exception errCode).pushedCode vector, vector.toUInt32] := by
  have same : vector ∈ ([8, 10, 11, 12, 13, 14, 17, 30] : List UInt8) ↔
      vector ∈ ([8, 10, 11, 12, 13, 14, 17] : List UInt8) := by
    simp only [List.mem_cons, List.not_mem_nil, or_false]
    tauto
  rw [Cause.words, Stub.words, Cause.pushedCode, if_congr same rfl rfl]
  split
  · rfl
  · rfl

theorem vectorStub_exception (exceptional : vector < 32) (other : vector ≠ 30) :
    vectorStub vector = some (.isr vector) := by
  have bound : vector.toNat < 32 := exceptional
  have different : vector.toNat ≠ 30 := fun same => other (UInt8.toNat_inj.mp same)
  refine if_pos ?_
  rcases Nat.lt_or_ge vector.toNat 30 with small | large
  · exact Or.inl small
  · exact Or.inr (Or.inl (UInt8.toNat_inj.mp (show vector.toNat = 31 by omega)))

theorem cpl_lt (machine : Machine) : machine.cpl < 4 := Nat.mod_lt _ (by decide)

theorem raise_exception (exceptional : vector < 32) (other : vector ≠ 30) :
    machine.raise code (.exception errCode) vector =
      .ok (machine.interrupt.trapStub ((Cause.exception errCode).pushedCode vector) vector.toUInt32) := by
  rw [Machine.raise, initIdt_entersAt vector _ (cpl_lt machine), vectorStub_exception exceptional other,
    show decide (Cause.exception errCode = .software) = false from rfl]
  dsimp only [Option.elim]
  rw [if_neg (by simp), Except.mapError, ok_bind, code.found]
  dsimp only
  rw [exception_words errCode other]
  rfl

theorem interruptHandlers_exception (exceptional : vector < 32) :
    interruptHandlers vector.toUInt32 = if vector = 14 then some .handlePageFault else none := by
  have bound : vector.toNat < 32 := exceptional
  have apart (n : UInt8) (large : 32 ≤ n.toNat) : vector.toUInt32 ≠ n.toUInt32 := by
    intro same
    have values := congrArg UInt32.toNat same
    rw [UInt8.toNat_toUInt32, UInt8.toNat_toUInt32] at values
    omega
  rw [interruptHandlers, registerInterruptHandler, Function.update_of_ne (apart 128 (by decide)),
    registerInterruptHandler, Function.update_of_ne (apart 32 (by decide)), registerInterruptHandler,
    Function.update_apply]
  refine if_congr ⟨fun same => ?_, fun same => congrArg _ same⟩ rfl rfl
  have values := congrArg UInt32.toNat same
  rw [UInt8.toNat_toUInt32, UInt8.toNat_toUInt32] at values
  exact UInt8.toNat_inj.mp values

end Entry

namespace Scheduler

theorem keeps_kind {scheduler after : Scheduler} {current task : Nat} {entry selected saved : ScheduledTask}
    {switch : Switch} (switched : Switched scheduler after current task entry selected saved switch)
    (same : saved.isUserTask = entry.isUserTask) {query : Nat} {found : ScheduledTask}
    (isFound : after.tasks query = some found) :
    ∃ before, scheduler.tasks query = some before ∧ found.isUserTask = before.isUserTask := by
  rw [switched.tasks] at isFound
  split at isFound
  · rename_i isTask
    exact ⟨selected, isTask ▸ switched.chosen, by rw [← Option.some.inj isFound]⟩
  · split at isFound
    · rename_i isCurrent
      exact ⟨entry, isCurrent ▸ switched.left, by rw [← Option.some.inj isFound, same]⟩
    · exact ⟨found, isFound, rfl⟩

theorem main_isKernelTask {scheduler : Scheduler} (reachable : runs.Reachable scheduler) :
    ∀ task entry, scheduler.mainKernelTask = some task → scheduler.tasks task = some entry →
      entry.isUserTask = false := by
  refine (reachable.invariant (fun state => (∃ queue, Queued state queue) ∧ ∀ task entry,
    state.mainKernelTask = some task → state.tasks task = some entry → entry.isUserTask = false) ?_ ?_).2
  · rintro state ⟨task, node, userInKernelSpace, run⟩
    refine ⟨⟨_, initScheduler_queued run⟩, ?_⟩
    obtain ⟨_, _, done⟩ := bind_eq_ok.mp run
    obtain rfl := pure_eq_ok.mp done
    intro main entry isMain found
    change (if main = task then _ else none) = some entry at found
    rw [if_pos (Option.some.inj isMain).symm] at found
    rw [← Option.some.inj found]
  · rintro state event after ⟨⟨queue, queued⟩, kind⟩ happens
    cases event with
    | create task node new =>
        obtain ⟨freshTask, freshNode, run⟩ := happens
        refine ⟨⟨_, queued.create freshTask freshNode run⟩, ?_⟩
        obtain ⟨_, _, rest⟩ := bind_eq_ok.mp run
        obtain ⟨_, _, done⟩ := bind_eq_ok.mp rest
        obtain rfl := pure_eq_ok.mp done
        intro main entry isMain found
        obtain ⟨known, isKnown, listed⟩ := queued.main
        obtain rfl : known = main := Option.some.inj (isKnown.symm.trans isMain)
        obtain ⟨before, isBefore⟩ := queued.linked.known known listed
        have other : known ≠ task := by
          rintro rfl
          rw [freshTask] at isBefore
          cases isBefore
        change (if known = task then _ else state.tasks known) = some entry at found
        rw [if_neg other] at found
        exact kind known entry isMain found
    | timer limit regs =>
        obtain ⟨switch, run⟩ := happens
        rcases queued.timer.of_ok run with ⟨same, _⟩ |
          ⟨_, _, _, _, _, _, next, _, _, _, switched, saves, later⟩
        · cases same
          exact ⟨⟨queue, queued⟩, kind⟩
        · refine ⟨⟨next, later⟩, fun main entry isMain found => ?_⟩
          obtain ⟨_, _, _, rfl⟩ := saves
          obtain ⟨before, isBefore, same⟩ := keeps_kind switched rfl found
          exact same.trans (kind main before (switched.mainKernelTask.symm.trans isMain) isBefore)
    | exit limit =>
        obtain ⟨notMain, switch, run⟩ := happens
        obtain ⟨_, _, _, _, _, next, _, _, switched, saved, later⟩ := (queued.exit notMain).of_ok run
        refine ⟨⟨next, later⟩, fun main entry isMain found => ?_⟩
        obtain ⟨before, isBefore, same⟩ := keeps_kind switched (by rw [saved]) found
        exact same.trans (kind main before (switched.mainKernelTask.symm.trans isMain) isBefore)
    | destroy task =>
        obtain ⟨⟨gone, isGone, completed⟩, rfl⟩ := happens
        refine ⟨⟨queue, queued.destroy isGone completed⟩, fun main entry isMain found => ?_⟩
        rw [tasks_setTask] at found
        split at found
        · cases found
        · exact kind main entry isMain found

end Scheduler

namespace Machine

variable {machine after : Machine} {code : StubCode} {vector : UInt8} {errCode : UInt32} {limit : Nat}
  {scratch : Scratch}

theorem reachable_scheduler (reachable : runs.Reachable machine) : Scheduler.runs.Reachable machine.scheduler := by
  induction reachable with
  | start isInitial => exact .start isInitial.1
  | @next before action after _ happens ih =>
      cases action with
      | execute cpu memory =>
          obtain rfl : after = _ := happens
          exact ih
      | create task node new cpu memory =>
          obtain ⟨scheduler, created, rfl⟩ := happens
          have stepped : Scheduler.runs.step before.scheduler (.create task node new) scheduler := created
          exact ih.next stepped
      | destroy task cpu memory =>
          obtain ⟨scheduler, destroyed, rfl⟩ := happens
          have stepped : Scheduler.runs.step before.scheduler (.destroy task) scheduler := destroyed
          exact ih.next stepped
      | timer limit scratch =>
          obtain ⟨_, called, same⟩ := timer_scheduler happens
          by_cases quantum : (before.tick + 1) % kQuanta = 0
          · obtain ⟨regs, switch, run⟩ := called quantum
            have stepped : Scheduler.runs.step before.scheduler (.timer limit regs) after.scheduler := ⟨switch, run⟩
            exact ih.next stepped
          · rw [same quantum]
            exact ih
      | exit limit scratch =>
          obtain ⟨_, notMain, run⟩ := happens
          have stepped : Scheduler.runs.step before.scheduler (.exit limit) after.scheduler :=
            ⟨notMain, (exit_scheduler run).2⟩
          exact ih.next stepped

theorem trap_same (errCode intNo : UInt32) : SameSystem machine (machine.interrupt.trapStub errCode intNo) :=
  interrupt_same.trans (trapStub_same errCode intNo)

theorem isrHandler_exception (exceptional : vector < 32) :
    isrHandler limit scratch (machine.interrupt.trapStub errCode vector.toUInt32) =
      if vector = 14 then .ok (.calls .handlePageFault ((machine.interrupt.trapStub errCode vector.toUInt32).call scratch))
      else do
        let current ← machine.scheduler.getCurrentTask.mapError .panic
        let entry ← (machine.scheduler.getTask current).mapError .panic
        require (entry.isUserTask = true) .unhandledInterrupt
        let after ← ((machine.interrupt.trapStub errCode vector.toUInt32).exitTask limit scratch).mapError .panic
        return .exits after := by
  have pointer : (machine.interrupt.trapStub errCode vector.toUInt32).cpu.esp + 4 = machine.base - 56 := by
    rw [trap_esp]
    grind
  rw [isrHandler, require_of (trap_interruptsAreEnabled errCode vector.toUInt32), ok_bind, pointer,
    trap_readRegisters, (trap_same errCode vector.toUInt32).scheduler]
  dsimp only
  rw [interruptHandlers_exception exceptional]
  by_cases pageFault : vector = 14
  · rw [if_pos pageFault, if_pos pageFault]
    rfl
  · rw [if_neg pageFault, if_neg pageFault]

/-- What is left when a task is ended: the front of its queue runs, and no other task or memory changed. -/
structure EndsTask (machine after : Machine) (scratch : Scratch) (queue : List (Nat × Nat)) (current : Nat) : Prop where
  turned : ∃ front middle last, queue = front :: (middle ++ [last]) ∧ last.2 = current ∧
    Scheduler.Queued after.scheduler (middle ++ [front]) ∧ after.scheduler.currentTask = some front.2 ∧
    ∀ task, task ≠ current → task ≠ front.2 → after.scheduler.tasks task = machine.scheduler.tasks task
  completed : ∃ entry, after.scheduler.tasks current = some entry ∧ entry.state = .completed
  memory : ∀ location, ¬Below machine.view machine.stackTop (136 + scratch.depth) location →
    ¬ResumeArea after location → after.memory location = machine.memory location

theorem call_trap_other {location : Location} (intNo : UInt32)
    (outside : ¬Below machine.view machine.stackTop (136 + scratch.depth) location) :
    ((machine.interrupt.trapStub errCode intNo).call scratch).memory location = machine.memory location := by
  obtain ⟨skipped, few, isBase, _⟩ := @base_stackTop machine
  rw [call_other]
  · exact trap_memory_other errCode intNo (fun below => outside (below.mono (by omega)))
  · intro below
    rw [(trap_same errCode intNo).view, trap_esp, show (60 : UInt32) = UInt32.ofNat 60 from rfl, isBase] at below
    exact outside (below.shift.shift.mono (by omega))

theorem exitTask_of_trap {intNo : UInt32} {queue : List (Nat × Nat)} {current : Nat}
    (queued : Scheduler.Queued machine.scheduler queue) (isCurrent : machine.scheduler.currentTask = some current)
    (notMain : machine.scheduler.currentTask ≠ machine.scheduler.mainKernelTask) :
    Returns ((machine.interrupt.trapStub errCode intNo).exitTask limit scratch)
      (fun panic => panic = .noResumeAddress ∨ panic = .stepLimit ∧ limit < queue.length)
      (fun after => EndsTask machine after scratch queue current) := by
  obtain ⟨_, _, rfl, isMain, isOnly⟩ | ⟨front, task, middle, last, running, rfl, isRunning⟩ := queued.shape
  · exact absurd (isOnly.trans isMain.symm) notMain
  obtain rfl : running = current := Option.some.inj (isRunning.symm.trans isCurrent)
  have same := @trap_same machine errCode intNo
  have ring0 := @trap_cpl machine errCode intNo
  have kept (location : Location) := @call_trap_other machine errCode scratch location intNo
  generalize machine.interrupt.trapStub errCode intNo = entered at same ring0 kept
  have entersQueued := queued
  rw [← same.scheduler] at entersQueued isCurrent notMain
  rw [exitTask]
  refine Returns.bind ((entersQueued.exit_turn isCurrent notMain).weaken ?_) ?_
  · rintro panic (isAddress | ⟨isLimit, short⟩)
    · exact Or.inl isAddress
    · refine Or.inr ⟨isLimit, ?_⟩
      simp only [List.length_cons, List.length_append, List.length_nil]
      omega
  rintro ⟨scheduler, switch⟩ ⟨entry, selected, saved, switched, savedIs, later⟩
  dsimp only at switched later ⊢
  have found : scheduler.tasks switch.task = some { selected with state := .running } := by
    rw [switched.routine, switched.tasks, if_pos rfl]
  cases run : ({ (entered.call scratch) with scheduler } : Machine).switchTasks switch with
  | error panic =>
      rw [switchTasks, Scheduler.getTask_eq found] at run
      cases run
  | ok after =>
      obtain ⟨prepared, resumes, isScheduler⟩ := switchTasks_eq selected run found rfl rfl ring0
      have isScheduler : after.scheduler = scheduler := isScheduler
      have switches : Switches entered after (entered.call scratch).memory running task entry selected saved :=
        ⟨isCurrent, switch, prepared, by rw [isScheduler]; exact switched, resumes⟩
      refine returns_ok.mpr ⟨⟨(front, task), middle, (last, running), rfl, rfl, ?_, ?_, ?_⟩, ⟨saved, ?_, ?_⟩, ?_⟩
      · rw [isScheduler]
        exact later
      · rw [isScheduler]
        exact switched.currentTask
      · intro other notCurrent notFront
        rw [isScheduler, switched.tasks, if_neg notFront, if_neg notCurrent, same.scheduler]
      · rw [isScheduler, switched.tasks, if_neg switched.different.symm, if_pos rfl]
      · rw [savedIs]
      · intro location outside resumeOutside
        rw [switches.memory_other resumeOutside, kept location outside]

/-- An exception without a handler ends the user task that raised it, and this task only, and halts the kernel in
a kernel task; the handler of page faults is called in any task. The kernel stops as well if the next task was
interrupted at address 0; that a first run finds its entry point on its stack is no part of `switchTo`. -/
theorem exception_ends_task (reachable : runs.Reachable machine) (code : StubCode) (errCode : UInt32)
    (exceptional : vector < 32) (other : vector ≠ 30) (limit : Nat) (scratch : Scratch) :
    (vector = 14 → ∃ entered, machine.exception code limit scratch errCode vector =
      .ok (.calls .handlePageFault entered)) ∧
    (vector ≠ 14 → ∃ queue current entry, Scheduler.Queued machine.scheduler queue ∧
      machine.scheduler.currentTask = some current ∧ machine.scheduler.tasks current = some entry ∧
      (entry.isUserTask = false →
        machine.exception code limit scratch errCode vector = .error .unhandledInterrupt) ∧
      (entry.isUserTask = true →
        (∀ fault, machine.exception code limit scratch errCode vector = .error fault →
          fault = .panic .noResumeAddress ∨ fault = .panic .stepLimit ∧ limit < queue.length) ∧
        ∀ answer, machine.exception code limit scratch errCode vector = .ok answer →
          ∃ after, answer = .exits after ∧ EndsTask machine after scratch queue current)) := by
  have raised : machine.exception code limit scratch errCode vector = isrHandler limit scratch
      (machine.interrupt.trapStub ((Cause.exception errCode).pushedCode vector) vector.toUInt32) := by
    rw [exception, raise_exception exceptional other, ok_bind]
  rw [isrHandler_exception exceptional] at raised
  constructor
  · intro pageFault
    rw [raised, if_pos pageFault]
    exact ⟨_, rfl⟩
  · intro unhandled
    rw [if_neg unhandled] at raised
    obtain ⟨queue, queued⟩ := (reachable_scheduled reachable).queued
    obtain ⟨current, isCurrent, listed⟩ : ∃ current, machine.scheduler.currentTask = some current ∧
        current ∈ queue.map Prod.snd := by
      obtain ⟨main, _, mainListed⟩ := queued.main
      have current := queued.current
      cases last : (queue.map Prod.snd).getLast? with
      | none =>
          rw [List.getLast?_eq_none_iff] at last
          rw [last] at mainListed
          cases mainListed
      | some task => exact ⟨task, current.trans last, List.mem_of_getLast? last⟩
    obtain ⟨entry, found⟩ := queued.linked.known current listed
    rw [Scheduler.getCurrentTask_eq isCurrent, Except.mapError, ok_bind, Scheduler.getTask_eq found, Except.mapError,
      ok_bind] at raised
    refine ⟨queue, current, entry, queued, isCurrent, found, fun isKernel => ?_, fun isUser => ?_⟩
    · rw [raised, require, if_neg (by rw [isKernel]; decide)]
      rfl
    · have notMain : machine.scheduler.currentTask ≠ machine.scheduler.mainKernelTask := by
        intro isMain
        have kernel := Scheduler.main_isKernelTask (reachable_scheduler reachable) current entry
          (isMain.symm.trans isCurrent) found
        rw [isUser] at kernel
        cases kernel
      rw [require_of isUser, ok_bind] at raised
      have exits : Returns ((machine.interrupt.trapStub ((Cause.exception errCode).pushedCode vector)
          vector.toUInt32).exitTask limit scratch) _ _ := exitTask_of_trap queued isCurrent notMain
      rw [raised]
      cases run : (machine.interrupt.trapStub ((Cause.exception errCode).pushedCode vector)
          vector.toUInt32).exitTask limit scratch with
      | error panic =>
          constructor
          · intro fault failed
            obtain rfl : TrapFault.panic panic = fault := Except.error.inj failed
            rcases exits.of_error run with rfl | ⟨rfl, short⟩
            · exact Or.inl rfl
            · exact Or.inr ⟨rfl, short⟩
          · intro answer done
            cases done
      | ok after =>
          constructor
          · intro fault failed
            cases failed
          · intro answer done
            obtain rfl : Answer.exits after = answer := Except.ok.inj done
            exact ⟨after, rfl, exits.of_ok run⟩

theorem raise_systemCall (machine : Machine) (code : StubCode) :
    machine.raise code .software 128 = .ok (machine.interrupt.trapStub 0 128) := by
  rw [raise, initIdt_entersAt 128 _ (cpl_lt machine), show vectorStub 128 = some (.isr 128) from rfl]
  dsimp only [Option.elim]
  rw [if_neg (fun blocked => blocked.2.2 rfl), Except.mapError, ok_bind, code.found]
  rfl

theorem raise_refused (machine : Machine) (code : StubCode) (ring3 : machine.cpl ≠ 0) (other : vector ≠ 128) :
    machine.raise code .software vector = .error (.refused .generalProtection) := by
  rw [raise, initIdt_entersAt vector _ (cpl_lt machine)]
  cases vectorStub vector with
  | none => rfl
  | some stub =>
      dsimp only [Option.elim]
      rw [if_pos ⟨by decide, Nat.pos_of_ne_zero ring3, other⟩]
      rfl

/-- A user program gets into the kernel by the instruction for system calls only: any other `int` is refused,
and ends its task, under the same exceptions as an exception does. -/
theorem int_ends_task (reachable : runs.Reachable machine) (code : StubCode) (ring3 : machine.cpl ≠ 0)
    (limit : Nat) (scratch : Scratch) :
    (∃ entered, machine.intInstruction code limit scratch 128 = .ok (.calls .syscallHandler entered)) ∧
    ∀ vector, vector ≠ 128 → ∃ queue current entry, Scheduler.Queued machine.scheduler queue ∧
      machine.scheduler.currentTask = some current ∧ machine.scheduler.tasks current = some entry ∧
      machine.intInstruction code limit scratch vector =
        machine.exception code limit scratch (8 * vector.toUInt32 + 2) 13 ∧
      (entry.isUserTask = true →
        (∀ fault, machine.intInstruction code limit scratch vector = .error fault →
          fault = .panic .noResumeAddress ∨ fault = .panic .stepLimit ∧ limit < queue.length) ∧
        ∀ answer, machine.intInstruction code limit scratch vector = .ok answer →
          ∃ after, answer = .exits after ∧ EndsTask machine after scratch queue current) := by
  constructor
  · rw [intInstruction, raise_systemCall]
    refine ⟨(machine.interrupt.trapStub 0 128).call scratch, ?_⟩
    have pointer : (machine.interrupt.trapStub 0 128).cpu.esp + 4 = machine.base - 56 := by
      rw [trap_esp]
      grind
    dsimp only
    rw [isrHandler, require_of (trap_interruptsAreEnabled 0 128), ok_bind, pointer, trap_readRegisters]
    rfl
  · intro vector other
    obtain ⟨queue, current, entry, queued, isCurrent, found, _, ends⟩ :=
      (@exception_ends_task machine 13 reachable code (8 * vector.toUInt32 + 2) (by decide) (by decide) limit
        scratch).2 (by decide)
    have refused : machine.intInstruction code limit scratch vector =
        machine.exception code limit scratch (8 * vector.toUInt32 + 2) 13 := by
      rw [intInstruction, raise_refused machine code ring3 other]
    refine ⟨queue, current, entry, queued, isCurrent, found, refused, fun isUser => ?_⟩
    rw [refused]
    exact ends isUser

def stubCode : StubCode where
  address stub :=
    match stub with
    | .isr number => number.toUInt32
    | .irq number => 256 + number.toUInt32
  stubAt address := if address < 256 then some (.isr address.toUInt8) else some (.irq (address - 256).toUInt8)
  found stub := by
    cases stub with
    | isr number =>
        have small : number.toUInt32 < 256 := by
          rw [UInt32.lt_iff_toNat_lt, UInt8.toNat_toUInt32]
          exact number.toNat_lt
        exact (if_pos small).trans (congrArg (fun n => some (Stub.isr n)) (UInt8.toUInt8_toUInt32 number))
    | irq number =>
        have large : ¬256 + number.toUInt32 < 256 := by
          have bound := number.toNat_lt
          rw [UInt32.lt_iff_toNat_lt, UInt32.toNat_add, UInt8.toNat_toUInt32]
          change ¬(256 + number.toNat) % 4294967296 < 256
          omega
        refine (if_neg large).trans (congrArg (fun n => some (Stub.irq n)) ?_)
        rw [show 256 + number.toUInt32 - 256 = number.toUInt32 by grind]
        exact UInt8.toUInt8_toUInt32 number

def userTask : Scheduler.NewTask := ⟨true, false, 0x2000800, .region 0, 0x2001000⟩

def userMachine : Except Panic (Scheduler × Machine) := do
  let scheduler ← Scheduler.uninitialized.initScheduler 0 0 false
  let scheduler ← scheduler.createTask 1 1 userTask
  let left ← (kernelMachine scheduler).timerInterrupt 2 noScratch
  return (scheduler, { left with cpu := { kernelCpu with cs := kUserCodeSegment } })

def exitsTask : Except TrapFault Answer → Bool
  | .ok (.exits _) => true
  | _ => false

theorem exitsTask_iff {result : Except TrapFault Answer} : exitsTask result = true ↔ ∃ after, result = .ok (.exits after) := by
  rcases result with fault | ⟨handler, entered⟩ | after
  · simp [exitsTask]
  · simp [exitsTask]
  · simp [exitsTask]

theorem userMachine_reachable : ∃ machine, runs.Reachable machine ∧ machine.cpl ≠ 0 ∧
    machine.scheduler.currentTask = some 1 ∧
    (∀ entry, machine.scheduler.tasks 1 = some entry → entry.isUserTask = true) ∧
    (∃ after, machine.exception stubCode 2 noScratch 0 0 = .ok (.exits after)) ∧
    ∃ after, machine.intInstruction stubCode 2 noScratch 3 = .ok (.exits after) := by
  have passed : (userMachine.toOption.any fun states =>
      decide (states.2.scheduler.currentTask = some 1) &&
        ((states.2.scheduler.tasks 1).all (fun entry => entry.isUserTask) &&
          (exitsTask (states.2.exception stubCode 2 noScratch 0 0) &&
            exitsTask (states.2.intInstruction stubCode 2 noScratch 3)))) = true := by
    decide +kernel
  obtain ⟨states, run, holds⟩ := toOption_any.mp passed
  obtain ⟨first, initialized, rest⟩ := bind_eq_ok.mp run
  obtain ⟨second, made, rest⟩ := bind_eq_ok.mp rest
  obtain ⟨left, preempted, done⟩ := bind_eq_ok.mp rest
  obtain rfl := pure_eq_ok.mp done
  rw [Bool.and_eq_true, Bool.and_eq_true, Bool.and_eq_true, decide_eq_true_eq] at holds
  obtain ⟨running, kind, divides, breaks⟩ := holds
  have interrupts : runs.step (kernelMachine second) (.timer 2 noScratch) left := preempted
  have executes : runs.step left (.execute { kernelCpu with cs := kUserCodeSegment } left.memory)
      { left with cpu := { kernelCpu with cs := kUserCodeSegment } } := rfl
  refine ⟨_, ((kernelMachine_reachable initialized made).1.next interrupts).next executes, ?_, running, ?_,
    exitsTask_iff.mp divides, exitsTask_iff.mp breaks⟩
  · exact (by decide : kUserCodeSegment.toNat % 4 ≠ 0)
  · intro entry found
    rw [show left.scheduler.tasks 1 = some entry from found] at kind
    exact kind

/-- A user task that divides by zero is ended. -/
theorem exception_ends_task_divideError : ∃ machine after, runs.Reachable machine ∧
    machine.scheduler.currentTask = some 1 ∧ machine.exception stubCode 2 noScratch 0 0 = .ok (.exits after) ∧
      ∃ queue, EndsTask machine after noScratch queue 1 := by
  obtain ⟨machine, reachable, _, running, isUser, ⟨after, divides⟩, _⟩ := userMachine_reachable
  obtain ⟨queue, current, entry, _, isCurrent, found, _, ends⟩ :=
    (@exception_ends_task machine 0 reachable stubCode 0 (by decide) (by decide) 2 noScratch).2 (by decide)
  obtain rfl : 1 = current := Option.some.inj (running.symm.trans isCurrent)
  obtain ⟨same, isSame, ended⟩ := (ends (isUser entry found)).2 _ divides
  obtain rfl : after = same := Answer.exits.inj isSame
  exact ⟨machine, after, reachable, running, divides, queue, ended⟩

/-- A user task that executes `int 3` is ended. -/
theorem int_ends_task_breakpoint : ∃ machine after, runs.Reachable machine ∧
    machine.scheduler.currentTask = some 1 ∧ machine.intInstruction stubCode 2 noScratch 3 = .ok (.exits after) ∧
      ∃ queue, EndsTask machine after noScratch queue 1 := by
  obtain ⟨machine, reachable, ring3, running, isUser, _, ⟨after, breaks⟩⟩ := userMachine_reachable
  obtain ⟨queue, current, entry, _, isCurrent, found, _, ends⟩ :=
    (int_ends_task reachable stubCode ring3 2 noScratch).2 3 (by decide)
  obtain rfl : 1 = current := Option.some.inj (running.symm.trans isCurrent)
  obtain ⟨same, isSame, ended⟩ := (ends (isUser entry found)).2 _ breaks
  obtain rfl : after = same := Answer.exits.inj isSame
  exact ⟨machine, after, reachable, running, breaks, queue, ended⟩

end Machine

end ToyKernel
