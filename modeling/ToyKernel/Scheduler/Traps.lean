import ToyKernel.Scheduler.Preemption

/-!
Interrupts that return to the task they came from. The end of the stub loads what the stub pushed, so the
interrupted code finds its registers again, with the copies of its data segment in the other segment
registers.
-/

namespace ToyKernel

open Library

namespace Machine

variable {machine after left : Machine} {errCode intNo : UInt32} {scratch : Scratch}

def continued (cpu : Cpu) (eax : UInt32) : Cpu :=
  { cpu with eax, es := cpu.ds, fs := cpu.ds, gs := cpu.ds }

theorem interrupt_ss (ring0 : machine.cpl = 0) : machine.interrupt.cpu.ss = machine.cpu.ss := by
  unfold interrupt enterRing0
  rw [if_pos ring0]
  rfl

theorem trapWords_frame {index : Nat} (inFrame : index < 14) :
    machine.trapWords errCode intNo index =
      ((trapFrame errCode intNo machine.cpu machine.base).reverse)[index]?.getD 0 := by
  interval_cases index <;> rfl

/-- The end of the stub, for a frame in which at most the word of `eax` is another one. -/
theorem restoreRegisters_continued (errCode intNo : UInt32) {eax : UInt32} (ring0 : left.cpl = 0)
    (words : ∀ index < 14, left.load (machine.base - 56 + UInt32.ofNat (4 * index)) =
      if index = 8 then eax else machine.trapWords errCode intNo index)
    (fromRing3 : machine.cpl ≠ 0 → left.load machine.base = machine.cpu.esp ∧
      left.load (machine.base + 4) = machine.cpu.ss.toUInt32)
    (fromRing0 : machine.cpl = 0 → left.cpu.ss = machine.cpu.ss) :
    left.restoreRegisters (machine.base - 56) = { left with cpu := continued machine.cpu eax } := by
  have word (index : Nat) (inFrame : index < 14) (other : index ≠ 8) :
      left.load (machine.base - 56 + UInt32.ofNat (4 * index)) =
        ((trapFrame errCode intNo machine.cpu machine.base).reverse)[index]?.getD 0 := by
    rw [words index inFrame, if_neg other, trapWords_frame inFrame]
  have popped : (left.popRegisters (machine.base - 56)).cpu.esp = machine.base - 12 := by
    change machine.base - 56 + 44 = machine.base - 12
    grind
  have loads (address : UInt32) : (left.popRegisters (machine.base - 56)).load address = left.load address := rfl
  have eip : (left.popRegisters (machine.base - 56)).load (left.popRegisters (machine.base - 56)).cpu.esp =
      machine.cpu.eip := by
    rw [popped, loads, show machine.base - 12 = machine.base - 56 + UInt32.ofNat (4 * 11) by
      rw [show UInt32.ofNat (4 * 11) = 44 from rfl]; grind]
    exact word 11 (by decide) (by decide)
  have cs : (left.popRegisters (machine.base - 56)).load ((left.popRegisters (machine.base - 56)).cpu.esp + 4) =
      machine.cpu.cs.toUInt32 := by
    rw [popped, loads, show machine.base - 12 + 4 = machine.base - 56 + UInt32.ofNat (4 * 12) by
      rw [show UInt32.ofNat (4 * 12) = 48 from rfl]; grind]
    exact word 12 (by decide) (by decide)
  have eflags : (left.popRegisters (machine.base - 56)).load
      ((left.popRegisters (machine.base - 56)).cpu.esp + 8) = machine.cpu.eflags := by
    rw [popped, loads, show machine.base - 12 + 8 = machine.base - 56 + UInt32.ofNat (4 * 13) by
      rw [show UInt32.ofNat (4 * 13) = 52 from rfl]; grind]
    exact word 13 (by decide) (by decide)
  have regs : left.readRegisters (machine.base - 56) = _ := @readRegisters_eq left (machine.base - 56) (fun index =>
    if index < 14 then (if index = 8 then eax else machine.trapWords errCode intNo index)
    else left.load (machine.base - 56 + UInt32.ofNat (4 * index))) (fun index _ => by
      split
      · exact words index ‹_›
      · rfl)
  have pops : (left.popRegisters (machine.base - 56)).cpu =
      { continued machine.cpu eax with
        esp := machine.base - 12
        eip := left.cpu.eip
        eflags := left.cpu.eflags ||| 0x200
        cs := left.cpu.cs
        ss := left.cpu.ss } := by
    have isDs : (((machine.cpu.eax &&& 0xFFFF0000) ||| machine.cpu.ds.toUInt32)).toUInt16 = machine.cpu.ds :=
      dataSegment_toUInt16 _ _
    rw [popRegisters, regs]
    change Cpu.mk eax machine.cpu.ecx machine.cpu.edx machine.cpu.ebx (machine.base - 56 + 44) machine.cpu.ebp
      machine.cpu.esi machine.cpu.edi left.cpu.eip (left.cpu.eflags ||| 0x200) left.cpu.cs
      (((machine.cpu.eax &&& 0xFFFF0000) ||| machine.cpu.ds.toUInt32)).toUInt16
      (((machine.cpu.eax &&& 0xFFFF0000) ||| machine.cpu.ds.toUInt32)).toUInt16
      (((machine.cpu.eax &&& 0xFFFF0000) ||| machine.cpu.ds.toUInt32)).toUInt16
      (((machine.cpu.eax &&& 0xFFFF0000) ||| machine.cpu.ds.toUInt32)).toUInt16 left.cpu.ss = _
    rw [isDs, show machine.base - 56 + 44 = machine.base - 12 by grind]
    rfl
  have level : (left.popRegisters (machine.base - 56)).cpl = 0 := ring0
  rw [restoreRegisters, iret_eq eip cs eflags rfl rfl, level, UInt16.toUInt16_toUInt32, popped, loads, loads,
    show machine.base - 12 + 12 = machine.base by grind, show machine.base - 12 + 16 = machine.base + 4 by grind]
  by_cases outer : machine.cpl = 0
  · have same : machine.cpu.cs.toNat % 4 = 0 := outer
    have isBase : machine.base = machine.cpu.esp := by rw [base, enterRing0, if_pos outer]
    rw [if_neg (by omega), pops, isBase, fromRing0 outer]
    rfl
  · have higher : 0 < machine.cpu.cs.toNat % 4 := Nat.pos_of_ne_zero outer
    rw [if_pos higher, pops, (fromRing3 outer).1, (fromRing3 outer).2, UInt16.toUInt16_toUInt32]
    rfl

/-- What compiled code that the stub calls leaves alone when it returns: the frame and the registers that no
compiled code writes. -/
structure Keeps (machine entered left : Machine) : Prop where
  pageDirectory : left.pageDirectory = entered.pageDirectory
  cs : left.cpu.cs = entered.cpu.cs
  ss : left.cpu.ss = entered.cpu.ss
  frame : ∀ offset < 64, left.memory (entered.view (machine.base - 56 + UInt32.ofNat offset)) =
    entered.memory (entered.view (machine.base - 56 + UInt32.ofNat offset))

theorem trap_ss (errCode intNo : UInt32) (scratch : Scratch) :
    ((machine.trapStub errCode intNo).call scratch).cpu.ss = machine.cpu.ss := rfl

theorem trap_view (errCode intNo : UInt32) (scratch : Scratch) :
    ((machine.interrupt.trapStub errCode intNo).call scratch).view = machine.view :=
  ((interrupt_same.trans (trapStub_same errCode intNo)).trans (call_same scratch)).view

theorem Keeps.view (keeps : Keeps machine ((machine.interrupt.trapStub errCode intNo).call scratch) left) :
    left.view = machine.view := by
  rw [Machine.view, keeps.pageDirectory]
  exact trap_view errCode intNo scratch

theorem Keeps.words (keeps : Keeps machine ((machine.interrupt.trapStub errCode intNo).call scratch) left) :
    ∀ index < 16, left.load (machine.base - 56 + UInt32.ofNat (4 * index)) =
      machine.trapWords errCode intNo index := by
  intro index inside
  rw [← trap_loads errCode intNo scratch index inside, load, load, keeps.view, trap_view]
  apply load32_congr
  intro offset small
  have kept := keeps.frame (4 * index + offset) (by omega)
  rw [trap_view, UInt32.ofNat_add, ← UInt32.add_assoc] at kept
  exact kept

theorem Keeps.ring0 (keeps : Keeps machine ((machine.interrupt.trapStub errCode intNo).call scratch) left) :
    left.cpl = 0 := by
  rw [cpl, keeps.cs]
  exact trap_cpl errCode intNo

theorem Keeps.outer (keeps : Keeps machine ((machine.interrupt.trapStub errCode intNo).call scratch) left)
    (fromRing3 : machine.cpl ≠ 0) :
    left.load machine.base = machine.cpu.esp ∧ left.load (machine.base + 4) = machine.cpu.ss.toUInt32 := by
  have esp := keeps.words 14 (by decide)
  have ss := keeps.words 15 (by decide)
  rw [show machine.base - 56 + UInt32.ofNat (4 * 14) = machine.base by
    rw [show UInt32.ofNat (4 * 14) = 56 from rfl]; grind] at esp
  rw [show machine.base - 56 + UInt32.ofNat (4 * 15) = machine.base + 4 by
    rw [show UInt32.ofNat (4 * 15) = 60 from rfl]; grind] at ss
  exact ⟨esp.trans (enterRing0_load fromRing3).1, ss.trans (enterRing0_load fromRing3).2⟩

theorem Keeps.flat (keeps : Keeps machine ((machine.interrupt.trapStub errCode intNo).call scratch) left)
    (fromRing0 : machine.cpl = 0) : left.cpu.ss = machine.cpu.ss := by
  rw [keeps.ss, trap_ss, interrupt_ss fromRing0]

theorem Keeps.continues (keeps : Keeps machine ((machine.interrupt.trapStub errCode intNo).call scratch) left) :
    left.restoreRegisters (machine.base - 56) = { left with cpu := continued machine.cpu machine.cpu.eax } := by
  refine restoreRegisters_continued errCode intNo keeps.ring0 (fun index inside => ?_) keeps.outer keeps.flat
  rw [keeps.words index (by omega)]
  split
  · rename_i isEax
    rw [isEax]
    rfl
  · rfl

/-- The handler's answer in the frame is what the interrupted code finds in `eax`. -/
theorem Keeps.answers (keeps : Keeps machine ((machine.interrupt.trapStub errCode intNo).call scratch) left)
    (eax : UInt32) :
    ({ left with memory := store32 left.view (machine.base - 24) eax left.memory } : Machine).restoreRegisters
        (machine.base - 56) =
      { left with
        memory := store32 left.view (machine.base - 24) eax left.memory
        cpu := continued machine.cpu eax } := by
  have slot : machine.base - 24 = machine.base - 56 + UInt32.ofNat (4 * 8) := by
    rw [show UInt32.ofNat (4 * 8) = 32 from rfl]
    grind
  have injective : Function.Injective left.view := locate_injective left.pageDirectory
  have other (index : Nat) (inside : index < 16) (apart : index ≠ 8) :
      ({ left with memory := store32 left.view (machine.base - 24) eax left.memory } : Machine).load
        (machine.base - 56 + UInt32.ofNat (4 * index)) = machine.trapWords errCode intNo index := by
    rw [← keeps.words index inside, slot]
    exact load32_store32_word injective _ _ _ apart inside (by decide)
  refine restoreRegisters_continued errCode intNo keeps.ring0 (fun index inside => ?_) (fun fromRing3 => ?_) keeps.flat
  · split
    · rename_i isEax
      rw [isEax, slot]
      exact load32_store32 injective _ _ _
    · exact other index (by omega) ‹_›
  · have esp := other 14 (by decide) (by decide)
    have ss := other 15 (by decide) (by decide)
    rw [show machine.base - 56 + UInt32.ofNat (4 * 14) = machine.base by
      rw [show UInt32.ofNat (4 * 14) = 56 from rfl]; grind] at esp
    rw [show machine.base - 56 + UInt32.ofNat (4 * 15) = machine.base + 4 by
      rw [show UInt32.ofNat (4 * 15) = 60 from rfl]; grind] at ss
    exact ⟨esp.trans (enterRing0_load fromRing3).1, ss.trans (enterRing0_load fromRing3).2⟩

theorem timerInterrupt_restores {limit : Nat} {queue : List (Nat × Nat)}
    (queued : Scheduler.Queued machine.scheduler queue) (run : machine.timerInterrupt limit scratch = .ok after)
    (stays : after.scheduler.currentTask = machine.scheduler.currentTask) :
    after = { (machine.interrupt.irqStub.call scratch) with
      tick := machine.tick + 1
      scheduler := machine.scheduler
      cpu := continued machine.cpu machine.cpu.eax } := by
  have stubbed := (@interrupt_same machine).trans (irqStub_same.trans (call_same scratch))
  have disabled : (machine.interrupt.irqStub.call scratch).interruptsAreEnabled = false :=
    stub_interruptsAreEnabled
  have pointer : machine.interrupt.irqStub.cpu.esp + 4 = machine.base - 56 := by
    rw [stub_esp]
    grind
  have continues (scheduler : Scheduler) : ({ (machine.interrupt.irqStub.call scratch) with
      tick := machine.tick + 1, scheduler } : Machine).restoreRegisters (machine.base - 56) =
        { (machine.interrupt.irqStub.call scratch) with
          tick := machine.tick + 1
          scheduler
          cpu := continued machine.cpu machine.cpu.eax } := by
    have keeps : Keeps machine ((machine.interrupt.trapStub 0 irq0).call scratch)
        { (machine.interrupt.irqStub.call scratch) with tick := machine.tick + 1, scheduler } :=
      ⟨rfl, rfl, rfl, fun _ _ => rfl⟩
    exact keeps.continues
  unfold timerInterrupt at run
  dsimp only at run
  rw [pointer, stubbed.tick] at run
  split at run
  · obtain ⟨⟨scheduler, switch⟩, scheduled, rest⟩ := bind_eq_ok.mp run
    change (machine.interrupt.irqStub.call scratch).scheduler.schedule limit
      (machine.interrupt.irqStub.call scratch).interruptsAreEnabled _ = _ at scheduled
    rw [stubbed.scheduler, disabled] at scheduled
    rcases queued.timer.of_ok scheduled with ⟨same, _⟩ |
      ⟨current, task, _, _, _, switch, _, rfl, isCurrent, _, switched, _, _⟩
    · obtain ⟨rfl, rfl⟩ := Prod.mk.inj same
      rw [← pure_eq_ok.mp rest]
      exact continues _
    · have moved := (switchTasks_same rest).2
      rw [moved] at stays
      have same := (switched.currentTask.symm.trans stays).trans isCurrent
      exact absurd (Option.some.inj same) switched.different
  · rw [← pure_eq_ok.mp run]
    have kept := continues machine.scheduler
    rw [← stubbed.scheduler] at kept ⊢
    exact kept

/-- An interrupt that gives the processor back to the same task cannot be told from none: the task goes on
with its registers, except that its data segment is in all data segment registers, and with its memory,
except below its stack pointer in the kernel. -/
theorem timerInterrupt_unseen {limit : Nat} (reachable : runs.Reachable machine)
    (run : machine.timerInterrupt limit scratch = .ok after)
    (stays : after.scheduler.currentTask = machine.scheduler.currentTask) :
    after.cpu = continued machine.cpu machine.cpu.eax ∧ after.scheduler = machine.scheduler ∧
      after.pageDirectory = machine.pageDirectory ∧ after.esp0 = machine.esp0 ∧
      ∀ location, ¬machine.FrameArea scratch location → after.memory location = machine.memory location := by
  obtain ⟨queue, queued⟩ := (reachable_scheduled reachable).queued
  have stubbed := (@interrupt_same machine).trans (irqStub_same.trans (call_same scratch))
  rw [timerInterrupt_restores queued run stays]
  exact ⟨rfl, rfl, stubbed.pageDirectory, stubbed.esp0, fun location => handlerMemory_other⟩

/-- The second of the two interrupts that the second task gets before the main task runs again. -/
theorem timerInterrupt_unseen_odd : ∃ (machine after : Machine), runs.Reachable machine ∧
    machine.timerInterrupt 2 noScratch = .ok after ∧ machine.scheduler.currentTask = some 1 ∧
      after.cpu = continued kernelCpu kernelCpu.eax := by
  have passed : thereAndBack.toOption.any inOrder = true := by
    decide +kernel
  obtain ⟨states, run, ordered⟩ := toOption_any.mp passed
  obtain ⟨first, initialized, rest⟩ := bind_eq_ok.mp run
  obtain ⟨second, made, rest⟩ := bind_eq_ok.mp rest
  obtain ⟨left, preempted, rest⟩ := bind_eq_ok.mp rest
  obtain ⟨right, returned, rest⟩ := bind_eq_ok.mp rest
  obtain ⟨resumed, _, done⟩ := bind_eq_ok.mp rest
  obtain rfl := pure_eq_ok.mp done
  simp only [inOrder, Bool.and_eq_true, decide_eq_true_eq] at ordered
  obtain ⟨⟨⟨_, inLeft⟩, inRight⟩, _⟩ := ordered
  have start := (kernelMachine_reachable initialized made).1
  have interrupts : runs.step (kernelMachine second) (.timer 2 noScratch) left := preempted
  have executes : runs.step left (.execute kernelCpu left.memory) { left with cpu := kernelCpu } := rfl
  have reachable := (start.next interrupts).next executes
  exact ⟨_, right, reachable, returned, inLeft,
    (timerInterrupt_unseen reachable returned (inRight.trans inLeft.symm)).1⟩

end Machine

end ToyKernel
