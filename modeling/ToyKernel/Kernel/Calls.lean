import ToyKernel.Kernel.Edits

/-!
The system calls and the kernel's setup as page-table edits, and the ownership of
page directories: every user task has one of its own for as long as it exists.
-/

namespace ToyKernel

open Library Paging

namespace Kernel

/-- Every user task has a live page directory of its own; kernel tasks use the kernel's. -/
structure Owned (kernel : Kernel) : Prop where
  kernelTasks : ∀ handle pd, kernel.owner handle = some (pd, false) → pd = .kernel
  userTasks : ∀ handle pd, kernel.owner handle = some (pd, true) →
    ∃ slot ∈ kernel.paging.slots, pd = .region slot
  distinct : ∀ left right pd, kernel.owner left = some (pd, true) →
    kernel.owner right = some (pd, true) → left = right
  known : ∀ handle task, kernel.owner handle = some task → handle < kernel.nextTid

theorem Owned.congr {old new : Kernel} (owned : Owned old)
    (slots : new.paging.slots = old.paging.slots) (owner : ∀ handle, new.owner handle = old.owner handle)
    (nextTid : new.nextTid = old.nextTid) : Owned new := by
  constructor
  · intro handle pd uses
    rw [owner] at uses
    exact owned.kernelTasks handle pd uses
  · intro handle pd uses
    rw [owner] at uses
    rw [slots]
    exact owned.userTasks handle pd uses
  · intro left right pd leftUses rightUses
    rw [owner] at leftUses rightUses
    exact owned.distinct left right pd leftUses rightUses
  · intro handle task uses
    rw [owner] at uses
    rw [nextTid]
    exact owned.known handle task uses

theorem Created.owned {old new : Kernel} {slot : Nat} (created : Created old new slot)
    (owned : Owned old) : Owned new := by
  constructor
  · intro handle pd uses
    rw [created.owner] at uses
    split at uses
    · simp at uses
    · exact owned.kernelTasks handle pd uses
  · intro handle pd uses
    rw [created.slots]
    rw [created.owner] at uses
    split at uses
    · simp only [Option.some.injEq, Prod.mk.injEq, and_true] at uses
      exact ⟨slot, Finset.mem_insert_self _ _, uses.symm⟩
    · obtain ⟨other, listed, same⟩ := owned.userTasks handle pd uses
      exact ⟨other, Finset.mem_insert_of_mem listed, same⟩
  · have differs : ∀ handle, old.owner handle ≠ some (.region slot, true) := by
      intro handle uses
      obtain ⟨other, listed, same⟩ := owned.userTasks handle _ uses
      injection same with same
      exact created.fresh (same ▸ listed)
    intro left right pd leftUses rightUses
    rw [created.owner] at leftUses rightUses
    split at leftUses
    · split at rightUses
      · omega
      · injection leftUses with leftUses
        rw [← leftUses] at rightUses
        exact absurd rightUses (differs right)
    · split at rightUses
      · injection rightUses with rightUses
        rw [← rightUses] at leftUses
        exact absurd leftUses (differs left)
      · exact owned.distinct left right pd leftUses rightUses
  · intro handle task uses
    rw [created.owner] at uses
    rw [created.nextTid]
    split at uses
    · omega
    · have below := owned.known handle task uses
      omega

def CallEdit (kernel : Kernel) : Call → Edit → Prop
  | .destroyUserTask handle, edit =>
      ∃ slot, kernel.owner handle = some (.region slot, true) ∧ edit = .reclaim slot
  | .mapPage caller vaddr, edit =>
      ∃ slot paddr, kernel.owner caller = some (.region slot, true) ∧
        kernel.paging.isVirtualMapped (.region slot) vaddr = false ∧ edit = .userPage slot vaddr paddr
  | .unmapPage caller vaddr, edit =>
      ∃ slot, kernel.owner caller = some (.region slot, true) ∧
        edit = if kernel.paging.isVirtualMapped (.region slot) vaddr = true
          then .unmap (.region slot) vaddr else .unmapAbsent slot vaddr
  | .sharePage caller handle src, edit =>
      ∃ slot source vaddr paddr, kernel.owner caller = some (.region slot, true) ∧
        kernel.owner handle = some (source, true) ∧ edit = .sharedPage slot source src vaddr paddr
  | _, _ => False

theorem Owned.caller {kernel : Kernel} (owned : Owned kernel) {caller : Nat} {task : Task}
    (running : kernel.RunningUser caller) (found : kernel.getTask caller = .ok task) :
    ∃ slot ∈ kernel.paging.slots, task.pageDirectory = .region slot ∧
      kernel.owner caller = some (.region slot, true) := by
  obtain ⟨other, known, isUser, _⟩ := running
  have same : some other = some task := known.symm.trans (getTask_eq_ok.mp found)
  obtain rfl := Option.some.inj same
  have owner := owner_of known
  rw [isUser] at owner
  obtain ⟨slot, listed, uses⟩ := owned.userTasks caller _ owner
  rw [uses] at owner
  exact ⟨slot, listed, uses, owner⟩

theorem mapPage_edit {kernel after : Kernel} {caller : Nat} {vaddr : UInt32} {result : MapResult}
    (owned : Owned kernel) (running : kernel.RunningUser caller)
    (run : kernel.mapPage caller vaddr = .ok (after, result)) :
    SameTasks kernel after ∧ (after.paging = kernel.paging ∨
      ∃ edit, kernel.CallEdit (.mapPage caller vaddr) edit ∧ edit.Applies kernel.paging after.paging) := by
  unfold mapPage at run
  split at run
  · obtain ⟨rfl, _⟩ := Prod.mk.inj (pure_eq_ok.mp run)
    exact ⟨.refl _, Or.inl rfl⟩
  · obtain ⟨task, found, rest⟩ := bind_eq_ok.mp run
    obtain ⟨slot, listed, uses, owner⟩ := owned.caller running found
    rw [uses] at rest
    split at rest
    · obtain ⟨rfl, _⟩ := Prod.mk.inj (pure_eq_ok.mp rest)
      exact ⟨.refl _, Or.inl rfl⟩
    · rename_i unmapped
      obtain ⟨paddr, next, rest⟩ := bind_eq_ok.mp rest
      split at rest
      · obtain ⟨rfl, _⟩ := Prod.mk.inj (pure_eq_ok.mp rest)
        exact ⟨.refl _, Or.inl rfl⟩
      · obtain ⟨paging, added, done⟩ := bind_eq_ok.mp rest
        obtain ⟨rfl, _⟩ := Prod.mk.inj (pure_eq_ok.mp done)
        obtain ⟨_, _, free⟩ := PhysicalBitmap4M.nextFreePhysicalPage_eq_ok next
        obtain ⟨_, aligned, _, installed⟩ :=
          (addPage_spec kernel.paging (.region slot) vaddr paddr pgUser.toUInt8 false).of_ok added
        rw [targets_own (by simp)] at installed
        refine ⟨⟨rfl, rfl⟩, Or.inr ⟨.userPage slot vaddr paddr, ?_, listed, aligned, free, installed⟩⟩
        exact ⟨slot, paddr, owner, by simpa using unmapped, rfl⟩

theorem unmapPage_edit {kernel after : Kernel} {caller : Nat} {vaddr : UInt32}
    (owned : Owned kernel) (running : kernel.RunningUser caller)
    (run : kernel.unmapPage caller vaddr = .ok after) :
    SameTasks kernel after ∧ ∃ edit, kernel.CallEdit (.unmapPage caller vaddr) edit ∧
      edit.Applies kernel.paging after.paging := by
  obtain ⟨task, found, rest⟩ := bind_eq_ok.mp run
  obtain ⟨_, _, rest⟩ := bind_eq_ok.mp rest
  obtain ⟨paging, removed, done⟩ := bind_eq_ok.mp rest
  obtain rfl := pure_eq_ok.mp done
  obtain ⟨slot, listed, uses, owner⟩ := owned.caller running found
  rw [uses] at removed
  obtain ⟨aligned, cleared, _⟩ := (removePage_spec kernel.paging (.region slot) vaddr).of_ok removed
  rw [targets_own (by simp)] at cleared
  refine ⟨⟨rfl, rfl⟩, _, ⟨slot, owner, rfl⟩, ?_⟩
  by_cases mapped : kernel.paging.isVirtualMapped (.region slot) vaddr = true
  · rw [if_pos mapped]
    exact ⟨region_mem_live.mpr listed, aligned, by simp, mapped, cleared⟩
  · rw [if_neg mapped]
    exact ⟨listed, aligned, by simpa [isVirtualMapped] using mapped, cleared⟩

theorem getNextFreeVirtualUser_eq_some {pd : PageDirPtr} {paging : Paging} {vaddr : UInt32}
    (found : paging.getNextFreeVirtualUser pd = some vaddr) : isReplicated vaddr = false := by
  obtain ⟨index, first, rfl⟩ := Option.map_eq_some_iff.mp found
  have member := List.mem_of_find?_eq_some first
  have start : pageIndex4M userStart = 256 := by decide
  rw [start, List.mem_range'_1, kNumPageDirEntries] at member
  exact isReplicated_user member.1 (by omega)

theorem sharePage_edit {kernel after : Kernel} {caller handle : Nat} {src dst : UInt32}
    (owned : Owned kernel) (running : kernel.RunningUser caller)
    (run : kernel.sharePage caller handle src = .ok (after, dst)) :
    SameTasks kernel after ∧ ∃ edit, kernel.CallEdit (.sharePage caller handle src) edit ∧
      edit.Applies kernel.paging after.paging := by
  obtain ⟨task, found, rest⟩ := bind_eq_ok.mp run
  obtain ⟨_, isUser, rest⟩ := bind_eq_ok.mp rest
  obtain ⟨_, _, rest⟩ := bind_eq_ok.mp rest
  obtain ⟨current, foundCaller, rest⟩ := bind_eq_ok.mp rest
  obtain ⟨slot, listed, uses, owner⟩ := owned.caller running foundCaller
  rw [uses] at rest
  cases free : kernel.paging.getNextFreeVirtualUser (.region slot) with
  | none =>
      rw [free] at rest
      cases rest
  | some vaddr =>
      rw [free] at rest
      obtain ⟨_, _, rest⟩ := bind_eq_ok.mp rest
      obtain ⟨_, _, rest⟩ := bind_eq_ok.mp rest
      obtain ⟨paddr, translated, rest⟩ := bind_eq_ok.mp rest
      obtain ⟨paging, added, done⟩ := bind_eq_ok.mp rest
      obtain ⟨rfl, _⟩ := Prod.mk.inj (pure_eq_ok.mp done)
      have source := owner_of (getTask_eq_ok.mp found)
      rw [require_eq_ok.mp isUser] at source
      obtain ⟨other, otherListed, otherUses⟩ := owned.userTasks handle _ source
      obtain ⟨_, aligned, _, installed⟩ :=
        (addPage_spec kernel.paging (.region slot) vaddr paddr pgUser.toUInt8 true).of_ok added
      rw [targets_own (by simp)] at installed
      refine ⟨⟨rfl, rfl⟩, .sharedPage slot task.pageDirectory src vaddr paddr,
        ⟨slot, task.pageDirectory, vaddr, paddr, owner, source, rfl⟩, listed, aligned,
        getNextFreeVirtualUser_eq_some free, ?_, getPhysicalAddr_eq_ok translated, installed⟩
      rw [otherUses]
      exact region_mem_live.mpr otherListed

theorem removeChildTask_eq {parent child : Nat} {kernel after : Kernel}
    (run : removeChildTask parent child kernel = .ok after) :
    after.paging = kernel.paging ∧ after.nextTid = kernel.nextTid ∧
      ∀ handle, after.owner handle = kernel.owner handle := by
  obtain ⟨task, found, rest⟩ := bind_eq_ok.mp run
  obtain ⟨_, _, done⟩ := bind_eq_ok.mp rest
  obtain rfl := pure_eq_ok.mp done
  exact ⟨rfl, rfl, owner_setTask_same found rfl rfl⟩

structure Destroyed (old new : Kernel) (handle slot : Nat) : Prop where
  owned : old.owner handle = some (.region slot, true)
  slots : new.paging.slots = old.paging.slots.erase slot
  owner : ∀ query, new.owner query = if query = handle then none else old.owner query
  nextTid : new.nextTid = old.nextTid

theorem Destroyed.owned_after {old new : Kernel} {handle slot : Nat}
    (destroyed : Destroyed old new handle slot) (owned : Owned old) : Owned new := by
  have kept : ∀ query task, new.owner query = some task → query ≠ handle ∧ old.owner query = some task := by
    intro query task uses
    rw [destroyed.owner] at uses
    split at uses
    · cases uses
    · exact ⟨by assumption, uses⟩
  constructor
  · intro query pd uses
    exact owned.kernelTasks query pd (kept query _ uses).2
  · intro query pd uses
    obtain ⟨different, before⟩ := kept query _ uses
    obtain ⟨other, listed, same⟩ := owned.userTasks query pd before
    refine ⟨other, ?_, same⟩
    rw [destroyed.slots, Finset.mem_erase]
    refine ⟨?_, listed⟩
    rintro rfl
    rw [same] at before
    exact different (owned.distinct query handle _ before destroyed.owned)
  · intro left right pd leftUses rightUses
    exact owned.distinct left right pd (kept left _ leftUses).2 (kept right _ rightUses).2
  · intro query task uses
    rw [destroyed.nextTid]
    exact owned.known query task (kept query task uses).2

theorem destroyUserTask_edit {kernel after : Kernel} {handle : Nat} (owned : Owned kernel)
    (run : kernel.destroyUserTask handle = .ok after) :
    ∃ slot, Destroyed kernel after handle slot ∧
      (Edit.reclaim slot).Applies kernel.paging after.paging := by
  obtain ⟨task, found, rest⟩ := bind_eq_ok.mp run
  obtain ⟨_, isUser, rest⟩ := bind_eq_ok.mp rest
  obtain ⟨paging, freed, rest⟩ := bind_eq_ok.mp rest
  obtain ⟨_, _, rest⟩ := bind_eq_ok.mp rest
  have uses := owner_of (getTask_eq_ok.mp found)
  rw [require_eq_ok.mp isUser] at uses
  obtain ⟨slot, listed, same⟩ := owned.userTasks handle _ uses
  rw [same] at freed uses
  have reclaimed :=
    (reclaimPageDirRegion_spec kernel.paging (mem_slots.mp listed).1).of_ok freed
  refine ⟨slot, ?_⟩
  cases parent : task.parent with
  | none =>
      rw [parent] at rest
      obtain rfl := pure_eq_ok.mp rest
      refine ⟨⟨uses, reclaimed.slots, ?_, rfl⟩, listed, reclaimed⟩
      intro query
      exact owner_setTask _ handle none query
  | some ancestor =>
      rw [parent] at rest
      obtain ⟨unlinked, removed, done⟩ := bind_eq_ok.mp rest
      obtain rfl := pure_eq_ok.mp done
      obtain ⟨samePaging, sameTid, sameOwner⟩ := removeChildTask_eq removed
      have pagingAfter : (unlinked.setTask handle none).paging = paging := samePaging
      refine ⟨⟨uses, ?_, ?_, sameTid⟩, listed, ?_⟩
      · rw [pagingAfter]
        exact reclaimed.slots
      · intro query
        rw [owner_setTask, sameOwner]
        rfl
      · rw [pagingAfter]
        exact reclaimed

theorem exitThisTask_eq {kernel after : Kernel} {caller : Nat}
    (run : kernel.exitThisTask caller = .ok after) :
    after.paging = kernel.paging ∧ after.nextTid = kernel.nextTid ∧
      ∀ handle, after.owner handle = kernel.owner handle := by
  obtain ⟨task, found, done⟩ := bind_eq_ok.mp run
  obtain rfl := pure_eq_ok.mp done
  exact ⟨rfl, rfl, owner_setTask_same found rfl rfl⟩

theorem SameTasks.owned {old new : Kernel} (same : SameTasks old new) (owned : Owned old)
    (slots : new.paging.slots = old.paging.slots) : Owned new :=
  owned.congr slots same.owner same.nextTid

/-- What a call does to the page tables and to the ownership of page directories. -/
theorem perform_cases {kernel after : Kernel} {call : Call} (owned : Owned kernel)
    (enabled : kernel.Enabled call) (performed : kernel.perform call = .ok after) :
    Owned after ∧ (after.paging = kernel.paging ∨
      edits.Within Edit.IsCreation kernel.paging after.paging ∨
      ∃ edit, kernel.CallEdit call edit ∧ edit.Applies kernel.paging after.paging) := by
  cases call with
  | createUserTask caller entry codesize arg entryOffset growth =>
      obtain ⟨⟨new, handle⟩, run, done⟩ := bind_eq_ok.mp performed
      obtain rfl := pure_eq_ok.mp done
      obtain ⟨within, slot, created⟩ := userTask_edits run
      exact ⟨created.owned owned, Or.inr (Or.inl within)⟩
  | kernelJumpToUserEntry vfsData vfsSize arg growth =>
      obtain ⟨⟨new, handle⟩, run, done⟩ := bind_eq_ok.mp performed
      obtain rfl := pure_eq_ok.mp done
      obtain ⟨within, slot, created⟩ := userTask_edits run
      exact ⟨created.owned owned, Or.inr (Or.inl within)⟩
  | destroyUserTask handle =>
      obtain ⟨slot, destroyed, applied⟩ := destroyUserTask_edit owned performed
      exact ⟨destroyed.owned_after owned,
        Or.inr (Or.inr ⟨_, ⟨slot, destroyed.owned, rfl⟩, applied⟩)⟩
  | exit caller =>
      obtain ⟨samePaging, sameTid, sameOwner⟩ := exitThisTask_eq performed
      refine ⟨owned.congr (by rw [samePaging]) sameOwner sameTid, Or.inl samePaging⟩
  | mapPage caller vaddr =>
      obtain ⟨⟨new, result⟩, run, done⟩ := bind_eq_ok.mp performed
      obtain rfl := pure_eq_ok.mp done
      obtain ⟨same, unchanged | ⟨edit, allowed, applied⟩⟩ := mapPage_edit owned enabled run
      · exact ⟨same.owned owned (by rw [unchanged]), Or.inl unchanged⟩
      · obtain ⟨slot, paddr, _, _, rfl⟩ := allowed
        exact ⟨same.owned owned (slots_congr applied.2.2.2.region),
          Or.inr (Or.inr ⟨_, ⟨slot, paddr, by assumption, by assumption, rfl⟩, applied⟩)⟩
  | unmapPage caller vaddr =>
      obtain ⟨same, edit, ⟨slot, uses, rfl⟩, applied⟩ := unmapPage_edit owned enabled performed
      have slots : after.paging.slots = kernel.paging.slots := by
        split at applied
        · exact slots_congr applied.2.2.2.2.region
        · exact slots_congr applied.2.2.2.region
      exact ⟨same.owned owned slots, Or.inr (Or.inr ⟨_, ⟨slot, uses, rfl⟩, applied⟩)⟩
  | sharePage caller handle src =>
      obtain ⟨⟨new, dst⟩, run, done⟩ := bind_eq_ok.mp performed
      obtain rfl := pure_eq_ok.mp done
      obtain ⟨same, edit, ⟨slot, source, vaddr, paddr, uses, sourceUses, rfl⟩, applied⟩ :=
        sharePage_edit owned enabled run
      exact ⟨same.owned owned (slots_congr applied.2.2.2.2.2.region),
        Or.inr (Or.inr ⟨_, ⟨slot, source, vaddr, paddr, uses, sourceUses, rfl⟩, applied⟩)⟩
  | growHeap bytes =>
      obtain ⟨within, same⟩ := growHeap_edits performed
      have setup := growth_setup 0 within
      refine ⟨same.owned owned (Edit.setup_slots setup), Or.inr (Or.inl ?_)⟩
      exact setup.mono fun edit allowed => ⟨0, Or.inr allowed⟩

theorem growth_keeps {index : Nat} {old new : Paging} (within : edits.Within Edit.IsGrowth old new)
    (isPresent : present (old.pageDirs .kernel index) = true) :
    new.pageDirs .kernel index = old.pageDirs .kernel index := by
  refine within.preserves (fun state => state.pageDirs .kernel index = old.pageDirs .kernel index) ?_ rfl
  intro state edit after growth same applied
  cases edit with
  | kernelPage vaddr paddr =>
      obtain ⟨_, _, _, installed⟩ := applied
      rw [installed.pageDirs, if_neg]
      · exact same
      · rintro ⟨target, rfl⟩
        have empty := installed.empty .kernel target
        rw [same, isPresent] at empty
        cases empty
  | _ => exact absurd growth id

theorem growth_firstFrame {old new : Paging} (within : edits.Within Edit.IsGrowth old new)
    (unused : old.frameUsed 0 = false) : new.frameUsed 0 = false := by
  refine within.preserves (fun state => state.frameUsed 0 = false) ?_ unused
  intro state edit after growth same applied
  cases edit with
  | kernelPage vaddr paddr =>
      have nonzero : pageIndex4M paddr ≠ 0 := growth
      obtain ⟨_, _, _, installed⟩ := applied
      rw [Bool.eq_false_iff, ne_eq, installed.used, same]
      simp [nonzero.symm]
  | _ => exact absurd growth id

def IsBoot : Edit → Prop
  | .kernelPage _ _ => True
  | .unmap pd _ => pd = .kernel
  | _ => False

theorem growth_boot {old new : Paging} (within : edits.Within Edit.IsGrowth old new) :
    edits.Within IsBoot old new :=
  growth_mono (fun _ _ => True.intro) within

theorem initrd_edits {growth : List UInt32} {before after : Kernel} {old new : Paging}
    (allocated : kmalloc growth before = .ok after) (unused : old.frameUsed 0 = false)
    (added : old.addPage .kernel 0 0 0 true = .ok before.paging)
    (removed : after.paging.removePage .kernel 0 = .ok new) : edits.Within IsBoot old new := by
  have own : isReplicated 0 = false := by decide
  have frame : pageIndex4M 0 = 0 := by decide
  obtain ⟨_, aligned, _, installed⟩ := (addPage_spec old .kernel 0 0 0 true).of_ok added
  have mapped : present (before.paging.pageDirs .kernel (pageIndex4M 0)) = true := by
    rw [installed.pageDirs, if_pos ⟨self_mem_targets _ _ _, rfl⟩]
    exact present_pageEntry 0 0
  have page := Edit.within (.kernelPage 0 0) (show IsBoot _ from True.intro)
    ⟨aligned, by rw [frame]; exact unused, by simp [own], installed⟩
  obtain ⟨grown, _⟩ := kmalloc_edits growth allocated
  obtain ⟨_, cleared, _⟩ := (removePage_spec after.paging .kernel 0).of_ok removed
  rw [targets_own fun _ => own] at cleared
  have still := growth_keeps grown mapped
  have back := Edit.within (.unmap .kernel 0) (show IsBoot _ from rfl)
    ⟨kernel_mem_live _, aligned, fun _ => own, by rw [still]; exact mapped, cleared⟩
  exact (page.trans (growth_boot grown)).trans back

theorem kernelSetup_main {highMemKB : UInt32} {slots : Nat → PageDirectory} {memory : Memory}
    {scheduler : List UInt32} {initrd : Option (List UInt32)} {kernel : Kernel}
    (run : kernelSetup highMemKB slots memory scheduler initrd = .ok kernel) :
    kernel.owner mainKernelTask = some (.kernel, false) := by
  obtain ⟨start, _, rest⟩ := bind_eq_ok.mp run
  obtain ⟨first, _, rest⟩ := bind_eq_ok.mp rest
  obtain ⟨second, _, rest⟩ := bind_eq_ok.mp rest
  cases initrd with
  | none =>
      obtain rfl := pure_eq_ok.mp rest
      rfl
  | some growth =>
      obtain ⟨paging, _, rest⟩ := bind_eq_ok.mp rest
      obtain ⟨third, allocated, rest⟩ := bind_eq_ok.mp rest
      obtain ⟨last, _, done⟩ := bind_eq_ok.mp rest
      obtain rfl := pure_eq_ok.mp done
      exact (kmalloc_edits growth allocated).2.owner mainKernelTask

theorem kernelSetup_edits {highMemKB : UInt32} {slots : Nat → PageDirectory} {memory : Memory}
    {scheduler : List UInt32} {initrd : Option (List UInt32)} {kernel : Kernel}
    (run : kernelSetup highMemKB slots memory scheduler initrd = .ok kernel) :
    Owned kernel ∧ ∃ start, Initialized start ∧ edits.Within IsBoot start kernel.paging := by
  obtain ⟨start, initialized, rest⟩ := bind_eq_ok.mp run
  have fresh := (initializePaging_spec highMemKB slots).of_ok initialized
  obtain ⟨first, grown, rest⟩ := bind_eq_ok.mp rest
  obtain ⟨second, allocated, rest⟩ := bind_eq_ok.mp rest
  obtain ⟨growth1, same1⟩ := growHeap_edits grown
  obtain ⟨growth2, same2⟩ := kmalloc_edits scheduler allocated
  have unused : start.frameUsed 0 = false := by
    rw [Bool.eq_false_iff, ne_eq, fresh.used 0 (by decide), fresh.count 0 (by decide)]
    decide
  have growth := growth1.trans growth2
  have noTasks : ∀ handle, second.owner handle = none := by
    intro handle
    rw [owner, same2.tasks, same1.tasks]
    rfl
  have booted : ∀ paging, Owned { second.setTask mainKernelTask (some
      { pageDirectory := .kernel, isUserTask := false, state := .running, parent := none,
        children := [] }) with paging, nextTid := 1 } := by
    intro paging
    have only : ∀ handle task, (second.setTask mainKernelTask (some
        { pageDirectory := .kernel, isUserTask := false, state := .running, parent := none,
          children := [] })).owner handle = some task → handle = 0 ∧ task = (.kernel, false) := by
      intro handle task uses
      rw [owner_setTask, noTasks] at uses
      split at uses
      · injection uses with uses
        exact ⟨by assumption, uses.symm⟩
      · cases uses
    constructor
    · intro handle pd uses
      exact congrArg Prod.fst (only handle _ uses).2
    · intro handle pd uses
      exact absurd (congrArg Prod.snd (only handle _ uses).2) (by simp)
    · intro left right pd leftUses rightUses
      rw [(only left _ leftUses).1, (only right _ rightUses).1]
    · intro handle task uses
      rw [(only handle _ uses).1]
      exact Nat.one_pos
  cases initrd with
  | none =>
      obtain rfl := pure_eq_ok.mp rest
      exact ⟨booted _, start, fresh, growth_boot growth⟩
  | some requests =>
      obtain ⟨mapped, added, rest⟩ := bind_eq_ok.mp rest
      obtain ⟨third, moduleMalloc, rest⟩ := bind_eq_ok.mp rest
      obtain ⟨new, removed, done⟩ := bind_eq_ok.mp rest
      obtain rfl := pure_eq_ok.mp done
      obtain ⟨_, same3⟩ := kmalloc_edits requests moduleMalloc
      have module := initrd_edits moduleMalloc (growth_firstFrame growth unused) added removed
      refine ⟨?_, start, fresh, (growth_boot growth).trans module⟩
      exact (booted new).congr rfl same3.owner same3.nextTid

instance (kernel : Kernel) (caller : Nat) : Decidable (kernel.RunningUser caller) :=
  decidable_of_iff ((kernel.tasks caller).any (fun task =>
    task.isUserTask && decide (task.state ≠ .completed)) = true)
    (by simp [RunningUser, Option.any_eq_true])

instance (kernel : Kernel) (call : Call) : Decidable (kernel.Enabled call) :=
  match call with
  | .createUserTask caller _ _ _ _ _ => inferInstanceAs (Decidable (kernel.RunningUser caller))
  | .kernelJumpToUserEntry _ _ _ _ => inferInstanceAs (Decidable True)
  | .destroyUserTask handle =>
      decidable_of_iff ((kernel.tasks handle).any (fun task => decide (task.state = .completed)) = true)
        (by simp [Enabled, Option.any_eq_true])
  | .exit caller => inferInstanceAs (Decidable (kernel.RunningUser caller))
  | .mapPage caller _ => inferInstanceAs (Decidable (kernel.RunningUser caller))
  | .unmapPage caller _ => inferInstanceAs (Decidable (kernel.RunningUser caller))
  | .sharePage caller _ _ => inferInstanceAs (Decidable (kernel.RunningUser caller))
  | .growHeap _ => inferInstanceAs (Decidable True)

def tryCall (Condition : Kernel → Call → Prop) [∀ kernel call, Decidable (Condition kernel call)]
    (kernel : Kernel) (call : Call) : Option Kernel :=
  if kernel.Enabled call ∧ Condition kernel call then (kernel.perform call).toOption else none

def bootMachine : Except Fault Kernel := kernelSetup 131072 (fun _ _ => 0) (fun _ => 0) [] none

theorem bootMachine_initial {kernel : Kernel} (booted : bootMachine.toOption = some kernel) :
    (runs fun _ _ => True).initial kernel :=
  ⟨_, _, _, _, _, toOption_eq_some.mp booted⟩

def noGrowth : Growth := ⟨[], [], [], []⟩

def twoTasks : List Call :=
  [.kernelJumpToUserEntry kernHeapBegin 8 0 noGrowth, .createUserTask 1 userStart 4 0 0 noGrowth]

section Replay

variable {Condition : Kernel → Call → Prop} [∀ kernel call, Decidable (Condition kernel call)]

theorem tryCall_step {kernel after : Kernel} {call : Call} (tried : tryCall Condition kernel call = some after) :
    (runs Condition).step kernel call after := by
  unfold tryCall at tried
  split at tried
  · rename_i allowed
    exact ⟨allowed.1, allowed.2, toOption_eq_some.mp tried⟩
  · cases tried

def replayTest (Condition : Kernel → Call → Prop) [∀ kernel call, Decidable (Condition kernel call)]
    (calls : List Call) (test : Kernel → Bool) : Bool :=
  System.replayTest (tryCall Condition) bootMachine.toOption calls test

theorem replayTest_reachable (calls : List Call) (test : Kernel → Bool)
    (passed : replayTest Condition calls test = true) :
    ∃ kernel, (runs Condition).Reachable kernel ∧ test kernel = true :=
  System.replayTest_reachable (fun _ => bootMachine_initial) (fun _ _ _ => tryCall_step) passed

end Replay

end Kernel

end ToyKernel
