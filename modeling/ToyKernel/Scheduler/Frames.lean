import ToyKernel.Scheduler.Machine

/-!
The frames of a context switch. What the stub pushed is what the save block reads, and
what the switch routines push is what `iret` pops, in every combination of privilege.
-/

namespace ToyKernel

open Library

theorem locate_injective (pd : PageDirPtr) : Function.Injective (locate pd) := by
  intro left right same
  have addresses := congrArg Prod.snd same
  unfold locate at addresses
  split at addresses
  · split at addresses
    · exact addresses
    · exact addresses
  · split at addresses
    · exact addresses
    · exact addresses

theorem sub_sub_eq (address first second : UInt32) :
    address - first - second = address - (first + second) := by
  grind

theorem dataSegment_toUInt16 (eax : UInt32) (ds : UInt16) :
    ((eax &&& 0xFFFF0000) ||| ds.toUInt32).toUInt16 = ds := by
  rw [UInt32.toUInt16_or, UInt32.toUInt16_and, show (0xFFFF0000 : UInt32).toUInt16 = 0 from rfl,
    UInt16.and_zero, UInt16.zero_or, UInt16.toUInt16_toUInt32]

namespace Machine

variable {machine : Machine}

def frame (cpu : Cpu) (base : UInt32) : List UInt32 :=
  [cpu.eflags, cpu.cs.toUInt32, cpu.eip, 0, irq0, cpu.eax, cpu.ecx, cpu.edx, cpu.ebx, base - 20,
    cpu.ebp, cpu.esi, cpu.edi, (cpu.eax &&& 0xFFFF0000) ||| cpu.ds.toUInt32]

/-- The stub of any interrupt. The error code comes from the processor, or it is the zero of the stub. -/
def trapStub (errCode intNo : UInt32) (machine : Machine) : Machine :=
  (machine.push [errCode, intNo]).saveRegisters

def trapFrame (errCode intNo : UInt32) (cpu : Cpu) (base : UInt32) : List UInt32 :=
  [cpu.eflags, cpu.cs.toUInt32, cpu.eip, errCode, intNo, cpu.eax, cpu.ecx, cpu.edx, cpu.ebx, base - 20,
    cpu.ebp, cpu.esi, cpu.edi, (cpu.eax &&& 0xFFFF0000) ||| cpu.ds.toUInt32]

section Push

variable (words : List UInt32)

@[simp] theorem push_memory :
    (machine.push words).memory = pushes machine.view words machine.cpu.esp machine.memory := rfl

@[simp] theorem push_cpu : (machine.push words).cpu =
    { machine.cpu with esp := machine.cpu.esp - UInt32.ofNat (4 * words.length) } := rfl

@[simp] theorem push_view : (machine.push words).view = machine.view := rfl

@[simp] theorem push_pageDirectory :
    (machine.push words).pageDirectory = machine.pageDirectory := rfl

end Push

structure SameSystem (before after : Machine) : Prop where
  pageDirectory : after.pageDirectory = before.pageDirectory
  esp0 : after.esp0 = before.esp0
  tick : after.tick = before.tick
  scheduler : after.scheduler = before.scheduler

theorem SameSystem.trans {first second third : Machine} (left : SameSystem first second)
    (right : SameSystem second third) : SameSystem first third :=
  ⟨right.pageDirectory.trans left.pageDirectory, right.esp0.trans left.esp0,
    right.tick.trans left.tick, right.scheduler.trans left.scheduler⟩

theorem SameSystem.view {before after : Machine} (same : SameSystem before after) :
    after.view = before.view := by
  rw [Machine.view, Machine.view, same.pageDirectory]

theorem push_same (words : List UInt32) : SameSystem machine (machine.push words) :=
  ⟨rfl, rfl, rfl, rfl⟩

theorem loadKernelSegments_same : SameSystem machine machine.loadKernelSegments :=
  ⟨rfl, rfl, rfl, rfl⟩

theorem enterRing0_same : SameSystem machine machine.enterRing0 := by
  unfold enterRing0
  split
  · exact ⟨rfl, rfl, rfl, rfl⟩
  · exact ⟨rfl, rfl, rfl, rfl⟩

theorem interrupt_same : SameSystem machine machine.interrupt :=
  enterRing0_same.trans ⟨rfl, rfl, rfl, rfl⟩

theorem trapStub_same (errCode intNo : UInt32) : SameSystem machine (machine.trapStub errCode intNo) :=
  ((push_same _).trans (push_same _)).trans
    (((push_same _).trans loadKernelSegments_same).trans (push_same _))

theorem irqStub_same : SameSystem machine machine.irqStub := trapStub_same 0 irq0

@[simp] theorem loadKernelSegments_memory :
    machine.loadKernelSegments.memory = machine.memory := rfl

@[simp] theorem loadKernelSegments_view : machine.loadKernelSegments.view = machine.view := rfl

@[simp] theorem loadKernelSegments_esp :
    machine.loadKernelSegments.cpu.esp = machine.cpu.esp := rfl

theorem trapStub_esp (errCode intNo : UInt32) :
    (machine.trapStub errCode intNo).cpu.esp = machine.cpu.esp - 48 := by
  simp only [trapStub, saveRegisters, pusha, push_cpu, loadKernelSegments_esp, List.length_cons,
    List.length_nil, Nat.reduceAdd, Nat.reduceMul, UInt32.reduceOfNat, sub_sub_eq, UInt32.reduceAdd]

theorem trapStub_memory (errCode intNo : UInt32) (machine : Machine) :
    (machine.trapStub errCode intNo).memory =
      pushes machine.view [errCode, intNo, machine.cpu.eax, machine.cpu.ecx, machine.cpu.edx, machine.cpu.ebx,
        machine.cpu.esp - 8, machine.cpu.ebp, machine.cpu.esi, machine.cpu.edi,
        (machine.cpu.eax &&& 0xFFFF0000) ||| machine.cpu.ds.toUInt32, machine.cpu.esp - 44]
        machine.cpu.esp machine.memory := by
  simp only [trapStub, saveRegisters, pusha, push_memory, push_cpu, push_view,
    loadKernelSegments_memory, loadKernelSegments_view, loadKernelSegments_esp, List.length_cons,
    List.length_nil, Nat.reduceAdd, Nat.reduceMul, UInt32.reduceOfNat, sub_sub_eq, UInt32.reduceAdd,
    pushes]

def base (machine : Machine) : UInt32 := machine.enterRing0.cpu.esp

theorem enterRing0_cpu : ∃ ss, machine.enterRing0.cpu = { machine.cpu with esp := machine.base, ss } := by
  unfold base enterRing0
  split
  · exact ⟨machine.cpu.ss, rfl⟩
  · exact ⟨kKernelDataSegment, rfl⟩

theorem interrupt_cpu : ∃ ss eflags, machine.interrupt.cpu =
    { machine.cpu with esp := machine.base - 12, ss, eflags, cs := kKernelCodeSegment } ∧
      eflags &&& 0x200 = 0 := by
  obtain ⟨ss, cpu⟩ := @enterRing0_cpu machine
  refine ⟨ss, machine.cpu.eflags &&& ~~~0x34300, ?_, ?_⟩
  · simp only [interrupt, push_cpu, cpu, List.length_cons, List.length_nil, Nat.reduceAdd,
      Nat.reduceMul, UInt32.reduceOfNat]
  · rw [UInt32.and_assoc, show (~~~0x34300 : UInt32) &&& 0x200 = 0 from rfl, UInt32.and_zero]

theorem interrupt_memory : machine.interrupt.memory =
    pushes machine.view [machine.cpu.eflags, machine.cpu.cs.toUInt32, machine.cpu.eip] machine.base
      machine.enterRing0.memory := by
  rw [← enterRing0_same.view]
  rfl

theorem trap_memory (errCode intNo : UInt32) : (machine.interrupt.trapStub errCode intNo).memory =
    pushes machine.view (trapFrame errCode intNo machine.cpu machine.base ++ [machine.base - 56]) machine.base
      machine.enterRing0.memory := by
  obtain ⟨ss, eflags, cpu, _⟩ := @interrupt_cpu machine
  rw [trapStub_memory, interrupt_same.view, interrupt_memory, cpu]
  simp only [trapFrame, List.cons_append, List.nil_append, pushes, sub_sub_eq, UInt32.reduceAdd]

theorem trap_esp (errCode intNo : UInt32) :
    (machine.interrupt.trapStub errCode intNo).cpu.esp = machine.base - 60 := by
  obtain ⟨ss, eflags, cpu, _⟩ := @interrupt_cpu machine
  rw [trapStub_esp, cpu, sub_sub_eq]
  rfl

theorem stub_esp : machine.interrupt.irqStub.cpu.esp = machine.base - 60 := trap_esp 0 irq0

theorem trap_cpl (errCode intNo : UInt32) : (machine.interrupt.trapStub errCode intNo).cpl = 0 := by
  obtain ⟨ss, eflags, cpu, _⟩ := @interrupt_cpu machine
  have same : (machine.interrupt.trapStub errCode intNo).cpu.cs = machine.interrupt.cpu.cs := rfl
  rw [cpl, same, cpu]
  exact (by decide : kKernelCodeSegment.toNat % 4 = 0)

theorem stub_cpl : machine.interrupt.irqStub.cpl = 0 := trap_cpl 0 irq0

theorem trap_interruptsAreEnabled (errCode intNo : UInt32) :
    (machine.interrupt.trapStub errCode intNo).interruptsAreEnabled = false := by
  obtain ⟨ss, eflags, cpu, cleared⟩ := @interrupt_cpu machine
  have same : (machine.interrupt.trapStub errCode intNo).cpu.eflags = machine.interrupt.cpu.eflags := rfl
  rw [interruptsAreEnabled, same, cpu, cleared]
  rfl

theorem stub_interruptsAreEnabled : machine.interrupt.irqStub.interruptsAreEnabled = false :=
  trap_interruptsAreEnabled 0 irq0

theorem call_other {scratch : Scratch} {location : Location}
    (outside : ¬Below machine.view machine.cpu.esp scratch.depth location) :
    (machine.call scratch).memory location = machine.memory location := by
  refine if_neg ?_
  rintro ⟨located, positive, small⟩
  refine outside ⟨_, positive, small, ?_⟩
  rw [UInt32.ofNat_toNat]
  rw [show machine.cpu.esp - (machine.cpu.esp - location.2) = location.2 by grind]
  exact located

theorem call_same (scratch : Scratch) : SameSystem machine (machine.call scratch) :=
  ⟨rfl, rfl, rfl, rfl⟩

theorem trap_call_other {errCode intNo : UInt32} {scratch : Scratch} {above : Nat} (bound : above ≤ 68) :
    ((machine.interrupt.trapStub errCode intNo).call scratch).memory (machine.view (machine.base - 60 + UInt32.ofNat above)) =
      (machine.interrupt.trapStub errCode intNo).memory (machine.view (machine.base - 60 + UInt32.ofNat above)) := by
  apply call_other
  have fits := scratch.fits
  rw [(interrupt_same.trans (trapStub_same errCode intNo)).view, trap_esp]
  exact not_below_of_above (locate_injective _) (by omega)

theorem trap_load {errCode intNo : UInt32} {scratch : Scratch} {index : Nat} {word : UInt32}
    (found : (trapFrame errCode intNo machine.cpu machine.base)[index]? = some word) :
    ((machine.interrupt.trapStub errCode intNo).call scratch).load (machine.base - UInt32.ofNat (4 * (index + 1))) =
      word := by
  have small : index < 14 := (List.getElem?_eq_some_iff.mp found).1
  have view : ((machine.interrupt.trapStub errCode intNo).call scratch).view = machine.view :=
    ((interrupt_same.trans (trapStub_same errCode intNo)).trans (call_same scratch)).view
  have listed : (trapFrame errCode intNo machine.cpu machine.base ++ [machine.base - 56])[index]? = some word := by
    rw [List.getElem?_append_left small, found]
  have kept : load32 machine.view (machine.base - UInt32.ofNat (4 * (index + 1)))
      ((machine.interrupt.trapStub errCode intNo).call scratch).memory =
      load32 machine.view (machine.base - UInt32.ofNat (4 * (index + 1)))
        (machine.interrupt.trapStub errCode intNo).memory := by
    apply load32_congr
    intro offset bound
    have moved : machine.base - UInt32.ofNat (4 * (index + 1)) + UInt32.ofNat offset =
        machine.base - 60 + UInt32.ofNat (60 - 4 * (index + 1) + offset) := by
      rw [UInt32.ofNat_add, UInt32.ofNat_sub (by omega), show UInt32.ofNat 60 = 60 from rfl]
      grind
    rw [moved]
    exact trap_call_other (by omega)
  rw [load, view, kept, trap_memory]
  exact load32_pushes (locate_injective _) listed (by simp [trapFrame]) _ _

theorem trap_load_above {errCode intNo : UInt32} {scratch : Scratch} {offset : Nat} (bound : offset ≤ 4) :
    ((machine.interrupt.trapStub errCode intNo).call scratch).load (machine.base + UInt32.ofNat offset) =
      machine.enterRing0.load (machine.base + UInt32.ofNat offset) := by
  have view : ((machine.interrupt.trapStub errCode intNo).call scratch).view = machine.view :=
    ((interrupt_same.trans (trapStub_same errCode intNo)).trans (call_same scratch)).view
  rw [load, load, view, enterRing0_same.view]
  apply load32_congr
  intro byte small
  have moved : machine.base + UInt32.ofNat offset + UInt32.ofNat byte =
      machine.base - 60 + UInt32.ofNat (60 + (offset + byte)) := by
    rw [UInt32.ofNat_add, UInt32.ofNat_add, show UInt32.ofNat 60 = 60 from rfl]
    grind
  rw [moved, trap_call_other (by omega), trap_memory, ← moved, UInt32.add_assoc, ← UInt32.ofNat_add]
  apply pushes_other
  apply not_below_of_above (locate_injective _)
  simp only [trapFrame, List.length_append, List.length_cons, List.length_nil]
  omega

theorem readRegisters_eq {pointer : UInt32} {words : Nat → UInt32}
    (loads : ∀ index < 16, machine.load (pointer + UInt32.ofNat (4 * index)) = words index) :
    machine.readRegisters pointer =
      ⟨words 0, words 1, words 2, words 3, words 4, words 5, words 6, words 7, words 8, words 9,
        words 10, words 11, words 12, words 13, words 14, words 15⟩ := by
  have first := loads 0 (by decide)
  simp only [Nat.mul_zero, UInt32.reduceOfNat, UInt32.add_zero] at first
  rw [readRegisters, first, ← loads 1 (by decide), ← loads 2 (by decide), ← loads 3 (by decide),
    ← loads 4 (by decide), ← loads 5 (by decide), ← loads 6 (by decide), ← loads 7 (by decide),
    ← loads 8 (by decide), ← loads 9 (by decide), ← loads 10 (by decide), ← loads 11 (by decide),
    ← loads 12 (by decide), ← loads 13 (by decide), ← loads 14 (by decide), ← loads 15 (by decide)]
  simp only [Nat.reduceMul, UInt32.reduceOfNat]

def pushedWords (machine : Machine) : Nat → UInt32
  | 14 => machine.enterRing0.load machine.base
  | 15 => machine.enterRing0.load (machine.base + 4)
  | index => ((frame machine.cpu machine.base).reverse)[index]?.getD 0

def trapWords (errCode intNo : UInt32) (machine : Machine) : Nat → UInt32
  | 14 => machine.enterRing0.load machine.base
  | 15 => machine.enterRing0.load (machine.base + 4)
  | index => ((trapFrame errCode intNo machine.cpu machine.base).reverse)[index]?.getD 0

theorem trap_loads (errCode intNo : UInt32) (scratch : Scratch) : ∀ index < 16,
    ((machine.interrupt.trapStub errCode intNo).call scratch).load (machine.base - 56 + UInt32.ofNat (4 * index)) =
      machine.trapWords errCode intNo index := by
  intro index bound
  by_cases inFrame : index < 14
  · have listed : (trapFrame errCode intNo machine.cpu machine.base)[13 - index]? =
        some (machine.trapWords errCode intNo index) := by
      interval_cases index <;> rfl
    have same : machine.base - 56 + UInt32.ofNat (4 * index) =
        machine.base - UInt32.ofNat (4 * (13 - index + 1)) := by
      have sum : UInt32.ofNat (4 * index) + UInt32.ofNat (4 * (13 - index + 1)) = 56 := by
        rw [← UInt32.ofNat_add, show 4 * index + 4 * (13 - index + 1) = 56 by omega]
        rfl
      grind
    rw [same]
    exact trap_load listed
  · have same : machine.base - 56 + UInt32.ofNat (4 * index) =
        machine.base + UInt32.ofNat (4 * (index - 14)) := by
      have sum : UInt32.ofNat (4 * index) = 56 + UInt32.ofNat (4 * (index - 14)) := by
        rw [show 4 * index = 56 + 4 * (index - 14) by omega, UInt32.ofNat_add]
        rfl
      grind
    rw [same, trap_load_above (by omega)]
    have last : index = 14 ∨ index = 15 := by omega
    rcases last with rfl | rfl
    · rw [show UInt32.ofNat (4 * (14 - 14)) = 0 from rfl, UInt32.add_zero]
      rfl
    · rfl

theorem stub_loads (scratch : Scratch) : ∀ index < 16,
    (machine.interrupt.irqStub.call scratch).load (machine.base - 56 + UInt32.ofNat (4 * index)) =
      machine.pushedWords index := trap_loads 0 irq0 scratch

theorem trap_readRegisters (errCode intNo : UInt32) (scratch : Scratch) :
    ((machine.interrupt.trapStub errCode intNo).call scratch).readRegisters (machine.base - 56) =
      { ds := (machine.cpu.eax &&& 0xFFFF0000) ||| machine.cpu.ds.toUInt32
        edi := machine.cpu.edi
        esi := machine.cpu.esi
        ebp := machine.cpu.ebp
        esp := machine.base - 20
        ebx := machine.cpu.ebx
        edx := machine.cpu.edx
        ecx := machine.cpu.ecx
        eax := machine.cpu.eax
        intNo := intNo
        errCode := errCode
        eip := machine.cpu.eip
        cs := machine.cpu.cs.toUInt32
        eflags := machine.cpu.eflags
        useresp := machine.enterRing0.load machine.base
        ss := machine.enterRing0.load (machine.base + 4) } := by
  rw [readRegisters_eq (trap_loads errCode intNo scratch)]
  rfl

theorem stub_readRegisters (scratch : Scratch) :
    (machine.interrupt.irqStub.call scratch).readRegisters (machine.base - 56) =
      { ds := (machine.cpu.eax &&& 0xFFFF0000) ||| machine.cpu.ds.toUInt32
        edi := machine.cpu.edi
        esi := machine.cpu.esi
        ebp := machine.cpu.ebp
        esp := machine.base - 20
        ebx := machine.cpu.ebx
        edx := machine.cpu.edx
        ecx := machine.cpu.ecx
        eax := machine.cpu.eax
        intNo := irq0
        errCode := 0
        eip := machine.cpu.eip
        cs := machine.cpu.cs.toUInt32
        eflags := machine.cpu.eflags
        useresp := machine.enterRing0.load machine.base
        ss := machine.enterRing0.load (machine.base + 4) } :=
  trap_readRegisters 0 irq0 scratch

theorem load_push {words : List UInt32} {word : UInt32} (index : Nat)
    (found : words[index]? = some word) (fits : words.length ≤ 16) :
    (machine.push words).load (machine.cpu.esp - UInt32.ofNat (4 * (index + 1))) = word := by
  rw [load, push_view, push_memory]
  exact load32_pushes (locate_injective _) found (by omega) _ _

theorem enterRing0_load (fromRing3 : machine.cpl ≠ 0) :
    machine.enterRing0.load machine.base = machine.cpu.esp ∧
      machine.enterRing0.load (machine.base + 4) = machine.cpu.ss.toUInt32 := by
  have unfolded : machine.enterRing0 =
      ({ machine with cpu := { machine.cpu with esp := machine.esp0, ss := kKernelDataSegment } } :
        Machine).push [machine.cpu.ss.toUInt32, machine.cpu.esp] := by
    rw [enterRing0, if_neg fromRing3]
  have isBase : machine.base = machine.esp0 - 8 := by
    rw [base, unfolded]
    rfl
  rw [unfolded, isBase]
  constructor
  · exact load_push 1 rfl (by simp)
  · rw [show machine.esp0 - 8 + 4 = machine.esp0 - 4 by grind]
    exact load_push 0 rfl (by simp)

theorem timerRegs_stack (machine : Machine) (pointer : UInt32) (index : Nat) :
    (machine.timerRegs pointer).stack index =
      machine.load ((machine.readRegisters pointer).esp + UInt32.ofNat (4 * index)) := rfl

theorem stub_stack (scratch : Scratch) {index : Nat} (bound : index < 7) :
    ((machine.interrupt.irqStub.call scratch).timerRegs (machine.base - 56)).stack index =
      machine.pushedWords (index + 9) := by
  have address : machine.base - 20 + UInt32.ofNat (4 * index) =
      machine.base - 56 + UInt32.ofNat (4 * (index + 9)) := by
    rw [show 4 * (index + 9) = 4 * index + 36 by omega, UInt32.ofNat_add,
      show UInt32.ofNat 36 = 36 from rfl]
    grind
  rw [timerRegs_stack, stub_readRegisters]
  dsimp only
  rw [address]
  exact stub_loads scratch (index + 9) (by omega)

/-- The save block stores the stack pointer of the interrupted code, and the code
segment tells which of the three cases it was. -/
theorem adjustedEsp_context {scratch : Scratch} {isUserTask inKernelSpace : Bool} {esp : UInt32}
    (adjusted : Scheduler.adjustedEsp ((machine.interrupt.irqStub.call scratch).timerRegs
      (machine.base - 56)) isUserTask = .ok (esp, inKernelSpace)) :
    esp = machine.cpu.esp ∧
      machine.cpu.cs = if isUserTask && !inKernelSpace then kUserCodeSegment else kKernelCodeSegment := by
  have codeSegment : ((machine.interrupt.irqStub.call scratch).timerRegs (machine.base - 56)).stack 3 =
      machine.cpu.cs.toUInt32 := stub_stack scratch (by decide)
  have fromKernel : machine.cpu.cs = kKernelCodeSegment →
      ((machine.interrupt.irqStub.call scratch).timerRegs (machine.base - 56)).regs.esp + 20 =
        machine.cpu.esp := by
    intro isKernel
    have ring0 : machine.cpl = 0 := by
      rw [cpl, isKernel]
      decide
    have isBase : machine.base = machine.cpu.esp := by
      rw [base, enterRing0, if_pos ring0]
    have regs : ((machine.interrupt.irqStub.call scratch).timerRegs (machine.base - 56)).regs =
        (machine.interrupt.irqStub.call scratch).readRegisters (machine.base - 56) := rfl
    rw [regs, stub_readRegisters, isBase]
    dsimp only
    grind
  have segment : ∀ {value : UInt16}, machine.cpu.cs.toUInt32 = value.toUInt32 → machine.cpu.cs = value :=
    fun same => UInt16.toUInt32_inj.mp same
  unfold Scheduler.adjustedEsp at adjusted
  obtain ⟨_, _, rest⟩ := bind_eq_ok.mp adjusted
  obtain ⟨_, _, rest⟩ := bind_eq_ok.mp rest
  rw [codeSegment] at rest
  split at rest
  · rename_i isKernelTask
    obtain ⟨_, checked, done⟩ := bind_eq_ok.mp rest
    obtain ⟨rfl, rfl⟩ := Prod.mk.inj (pure_eq_ok.mp done)
    have isKernel := segment (require_eq_ok.mp checked)
    exact ⟨(fromKernel isKernel), by rw [isKernelTask]; exact isKernel⟩
  · rename_i isUser
    have isUser : isUserTask = true := by simpa using isUser
    split at rest
    · rename_i userCode
      obtain ⟨_, _, done⟩ := bind_eq_ok.mp rest
      obtain ⟨rfl, rfl⟩ := Prod.mk.inj (pure_eq_ok.mp done)
      have isUserCode := segment userCode
      have ring3 : machine.cpl ≠ 0 := by
        rw [cpl, isUserCode]
        decide
      have regs : ((machine.interrupt.irqStub.call scratch).timerRegs (machine.base - 56)).regs =
          (machine.interrupt.irqStub.call scratch).readRegisters (machine.base - 56) := rfl
      refine ⟨?_, by rw [isUser]; exact isUserCode⟩
      rw [regs, stub_readRegisters]
      exact (enterRing0_load ring3).1
    · obtain ⟨_, checked, done⟩ := bind_eq_ok.mp rest
      obtain ⟨rfl, rfl⟩ := Prod.mk.inj (pure_eq_ok.mp done)
      have isKernel := segment (require_eq_ok.mp checked)
      exact ⟨fromKernel isKernel, by rw [isUser]; exact isKernel⟩

def resumedCpu (regs : X86TaskRegs) (cs ss : UInt16) : Cpu where
  eax := regs.eax
  ecx := regs.ecx
  edx := regs.edx
  ebx := regs.ebx
  esp := regs.esp
  ebp := regs.ebp
  esi := regs.esi
  edi := regs.edi
  eip := regs.eip
  eflags := regs.eflags
  cs := cs
  ds := regs.ds
  es := regs.es
  fs := regs.fs
  gs := regs.gs
  ss := ss

theorem iret_eq {eip cs eflags esp ss : UInt32} (isEip : machine.load machine.cpu.esp = eip)
    (isCs : machine.load (machine.cpu.esp + 4) = cs)
    (isEflags : machine.load (machine.cpu.esp + 8) = eflags)
    (isEsp : machine.load (machine.cpu.esp + 12) = esp)
    (isSs : machine.load (machine.cpu.esp + 16) = ss) :
    machine.iret = { machine with cpu :=
      if machine.cpl < cs.toUInt16.toNat % 4 then
        { machine.cpu with eip, cs := cs.toUInt16, eflags, esp, ss := ss.toUInt16 }
      else { machine.cpu with eip, cs := cs.toUInt16, eflags, esp := machine.cpu.esp + 12 } } := by
  unfold iret
  dsimp only
  rw [isEip, isCs, isEflags, isEsp, isSs]
  split
  · rfl
  · rfl

theorem setEax_load (value address : UInt32) : (machine.setEax value).load address = machine.load address :=
  rfl

theorem runRoutine_kernel (regs : X86TaskRegs) (ring0 : machine.cpl = 0) :
    machine.runRoutine regs .switchKernelTaskRun =
      { machine with
        cpu := resumedCpu regs kKernelCodeSegment machine.cpu.ss
        memory := pushes machine.view [regs.eflags, 0x08, regs.eip] regs.esp machine.memory } := by
  have loads : ∀ (index : Nat) (word : UInt32), [regs.word 32, 0x08, regs.word 36][index]? = some word →
      (((machine.swapTasks regs).push [regs.word 32, 0x08, regs.word 36]).setEax (regs.word 8)).load
        ((machine.swapTasks regs).cpu.esp - UInt32.ofNat (4 * (index + 1))) = word := by
    intro index word found
    rw [setEax_load]
    exact load_push index found (by simp)
  have eip := loads 2 _ rfl
  have cs := loads 1 _ rfl
  have eflags := loads 0 _ rfl
  rw [runRoutine]
  generalize prepares : ((machine.swapTasks regs).push [regs.word 32, 0x08, regs.word 36]).setEax
    (regs.word 8) = prepared at eip cs eflags ⊢
  have esp : prepared.cpu.esp = regs.esp - 12 := by
    rw [← prepares]
    rfl
  have level : prepared.cpl = 0 := by
    rw [← prepares]
    exact ring0
  have isEip : prepared.load prepared.cpu.esp = regs.word 36 := by
    rw [esp]
    exact eip
  have isCs : prepared.load (prepared.cpu.esp + 4) = 0x08 := by
    rw [esp, show regs.esp - 12 + 4 = regs.esp - 8 by grind]
    exact cs
  have isEflags : prepared.load (prepared.cpu.esp + 8) = regs.word 32 := by
    rw [esp, show regs.esp - 12 + 8 = regs.esp - 4 by grind]
    exact eflags
  rw [iret_eq isEip isCs isEflags rfl rfl, level, if_neg (by decide), esp,
    show regs.esp - 12 + 12 = regs.esp by grind, ← prepares]
  rfl

theorem runRoutine_user (regs : X86TaskRegs) (ring0 : machine.cpl = 0) :
    machine.runRoutine regs .switchUserTaskRun =
      { machine with
        cpu := resumedCpu regs kUserCodeSegment kUserDataSegment
        memory := pushes machine.view [0x23, regs.esp, regs.eflags, 0x1b, regs.eip] regs.esp
          machine.memory } := by
  have loads : ∀ (index : Nat) (word : UInt32),
      [0x23, regs.word 0, regs.word 32, 0x1b, regs.word 36][index]? = some word →
      (((machine.swapTasks regs).push [0x23, regs.word 0, regs.word 32, 0x1b, regs.word 36]).setEax
        (regs.word 8)).load ((machine.swapTasks regs).cpu.esp - UInt32.ofNat (4 * (index + 1))) =
          word := by
    intro index word found
    rw [setEax_load]
    exact load_push index found (by simp)
  have eip := loads 4 _ rfl
  have cs := loads 3 _ rfl
  have eflags := loads 2 _ rfl
  have userEsp := loads 1 _ rfl
  have ss := loads 0 _ rfl
  rw [runRoutine]
  generalize prepares : ((machine.swapTasks regs).push [0x23, regs.word 0, regs.word 32, 0x1b,
    regs.word 36]).setEax (regs.word 8) = prepared at eip cs eflags userEsp ss ⊢
  have esp : prepared.cpu.esp = regs.esp - 20 := by
    rw [← prepares]
    rfl
  have level : prepared.cpl = 0 := by
    rw [← prepares]
    exact ring0
  have isEip : prepared.load prepared.cpu.esp = regs.word 36 := by
    rw [esp]
    exact eip
  have isCs : prepared.load (prepared.cpu.esp + 4) = 0x1b := by
    rw [esp, show regs.esp - 20 + 4 = regs.esp - 16 by grind]
    exact cs
  have isEflags : prepared.load (prepared.cpu.esp + 8) = regs.word 32 := by
    rw [esp, show regs.esp - 20 + 8 = regs.esp - 12 by grind]
    exact eflags
  have isEsp : prepared.load (prepared.cpu.esp + 12) = regs.word 0 := by
    rw [esp, show regs.esp - 20 + 12 = regs.esp - 8 by grind]
    exact userEsp
  have isSs : prepared.load (prepared.cpu.esp + 16) = 0x23 := by
    rw [esp, show regs.esp - 20 + 16 = regs.esp - 4 by grind]
    exact ss
  rw [iret_eq isEip isCs isEflags isEsp isSs, level, if_pos (by decide), ← prepares]
  rfl

end Machine

end ToyKernel
