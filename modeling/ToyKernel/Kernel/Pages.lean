import ToyKernel.Kernel.Exposure
import ToyKernel.Kernel.HeapGrowth
import ToyKernel.Paging.Undo

/-!
The system calls on single pages: what `map_page` answers, and that `unmap_page` takes back what
`share_page` made.
-/

namespace ToyKernel

open Library Paging

namespace Paging

variable {old new state : Paging} {pd : PageDirPtr} {vaddr : UInt32}

theorem Equivalent.tidy (equivalent : Equivalent old new) (tidy : Tidy old) : Tidy new := by
  intro pd isLive i absent
  rw [live_congr (slots_congr equivalent.region)] at isLive
  rcases equivalent.entries pd i with same | ⟨_, zeroed⟩
  · rw [same] at absent ⊢
    exact tidy pd isLive i absent
  · exact zeroed

structure LowestFree (state : Paging) (frame : Nat) : Prop where
  positive : 1 ≤ frame
  bound : frame < 1024
  free : state.frameUsed frame = false
  lowest : ∀ other, 1 ≤ other → other < frame → state.frameUsed other = true

structure NewUserPage (old new : Paging) (pd : PageDirPtr) (vaddr : UInt32) (frame : Nat) : Prop where
  lowest : old.LowestFree frame
  absent : present (old.pageDirs pd (pageIndex4M vaddr)) = false
  maps : new.UserMaps pd (pageIndex4M vaddr) frame
  others : ∀ query index, ¬(query = pd ∧ index = pageIndex4M vaddr) →
    new.pageDirs query index = old.pageDirs query index
  countBefore : old.count frame = 0
  countAfter : new.count frame = 1
  otherCounts : ∀ other, other ≠ frame → new.count other = old.count other
  used : ∀ other, new.frameUsed other = true ↔ other = frame ∨ old.frameUsed other = true
  region : new.pageDirRegion = old.pageDirRegion

theorem pageAddress_toNat {frame : Nat} (bound : frame < 1024) :
    (UInt32.ofNat frame * kPageSize4M).toNat = frame * 4194304 := by
  have small : (UInt32.ofNat frame).toNat = frame := UInt32.toNat_ofNat_of_lt' (by
    show frame < 4294967296
    omega)
  rw [UInt32.toNat_mul, small]
  exact Nat.mod_eq_of_lt (by show frame * 4194304 < 4294967296; omega)

theorem pageIndex4M_pageAddress {frame : Nat} (bound : frame < 1024) :
    pageIndex4M (UInt32.ofNat frame * kPageSize4M) = frame := by
  rw [pageIndex4M_eq, pageAddress_toNat bound]
  exact Nat.mul_div_cancel _ (by decide)

theorem pageAddress_aligned {frame : Nat} (bound : frame < 1024) :
    UInt32.ofNat frame * kPageSize4M % kPageSize4M = 0 := by
  rw [aligned_iff, pageAddress_toNat bound]
  exact Nat.mul_mod_left _ _

theorem pageAddress_ne_zero {frame : Nat} (positive : 1 ≤ frame) (bound : frame < 1024) :
    UInt32.ofNat frame * kPageSize4M ≠ 0 := by
  intro zero
  have value := pageAddress_toNat bound
  rw [zero, UInt32.toNat_zero] at value
  omega

theorem LowestFree.next {frame : Nat} (lowest : state.LowestFree frame) :
    state.physicalBitmap.nextFreePhysicalPage 1 = .ok (UInt32.ofNat frame * kPageSize4M) := by
  have found : state.physicalBitmap.bits.getFirstZero 1 = some frame := by
    rw [BitArray.getFirstZero, List.find?_range'_eq_some]
    refine ⟨?_, ?_, ?_⟩
    · have free : state.physicalBitmap.bits.isSet frame = false := lowest.free
      simpa using free
    · have bound := lowest.bound
      have positive := lowest.positive
      simp only [List.mem_range'_1, kRamAs4MPages]
      omega
    · intro other above below
      have used : state.physicalBitmap.bits.isSet other = true := lowest.lowest other above below
      simpa using used
  rw [PhysicalBitmap4M.nextFreePhysicalPage, found]

theorem nextFreePhysicalPage_full (full : ∀ frame, 1 ≤ frame → frame < 1024 → state.frameUsed frame = true) :
    state.physicalBitmap.nextFreePhysicalPage 1 = .error .memoryFull := by
  cases found : state.physicalBitmap.bits.getFirstZero 1 with
  | none => rw [PhysicalBitmap4M.nextFreePhysicalPage, found]
  | some frame =>
      obtain ⟨above, bound, isZero⟩ := BitArray.getFirstZero_eq_some found
      have used := full frame above bound
      rw [Paging.frameUsed, PhysicalBitmap4M.isPageFrameUsed, isZero] at used
      cases used

theorem lowestFree_or_full (state : Paging) : (∃ frame, state.LowestFree frame) ∨
    ∀ frame, 1 ≤ frame → frame < 1024 → state.frameUsed frame = true := by
  by_cases full : ∀ frame, 1 ≤ frame → frame < 1024 → state.frameUsed frame = true
  · exact Or.inr full
  · have some_free : ∃ frame, 1 ≤ frame ∧ frame < 1024 ∧ state.frameUsed frame = false := by
      simpa using full
    obtain ⟨positive, bound, free⟩ := Nat.find_spec some_free
    refine Or.inl ⟨Nat.find some_free, positive, bound, free, ?_⟩
    intro other above below
    have earlier := Nat.find_min some_free below
    have small : other < 1024 := by omega
    simpa [above, small] using earlier

theorem Hidden.unreferenced {frame : Nat} (isHidden : Hidden state) (lowest : state.LowestFree frame) :
    state.count frame = 0 := by
  have positive := lowest.positive
  exact (isHidden.counted frame lowest.bound (by omega)).unreferenced lowest.free

theorem Installed.newUserPage {frame : Nat} (installed : Installed old new {pd} (pageIndex4M vaddr)
      (pageEntry (UInt32.ofNat frame * kPageSize4M) pgUser.toUInt8) frame)
    (lowest : old.LowestFree frame) (zero : old.count frame = 0) : NewUserPage old new pd vaddr frame := by
  have entry : new.pageDirs pd (pageIndex4M vaddr) =
      pageEntry (UInt32.ofNat frame * kPageSize4M) pgUser.toUInt8 := by
    rw [installed.pageDirs, if_pos ⟨Finset.mem_singleton_self pd, rfl⟩]
  constructor
  · exact lowest
  · exact installed.empty pd (Finset.mem_singleton_self pd)
  · refine ⟨pageIndex4M_lt vaddr, ?_, ?_⟩
    · rw [entry, userAccessible_pageEntry]
      decide
    · rw [entry, frameOf_pageEntry, pageIndex4M_pageAddress lowest.bound]
  · intro query index elsewhere
    rw [installed.pageDirs, if_neg (by rwa [Finset.mem_singleton])]
  · exact zero
  · rw [installed.count, if_pos rfl, zero, Finset.card_singleton]
  · intro other different
    rw [installed.count, if_neg different]
  · exact installed.used
  · exact installed.region

end Paging

theorem Edit.tidy {edit : Edit} {old new : Paging} (applied : edit.Applies old new) (tidy : Tidy old) :
    Tidy new := by
  cases edit with
  | temporary => exact Equivalent.tidy applied tidy
  | kernelPage vaddr paddr => exact applied.2.2.2.tidy tidy (present_pageEntry paddr _)
  | userPage slot vaddr paddr => exact applied.2.2.2.tidy tidy (present_pageEntry paddr _)
  | sharedPage slot source src vaddr paddr => exact applied.2.2.2.2.2.tidy tidy (present_pageEntry paddr _)
  | unmap pd vaddr => exact applied.2.2.2.2.tidy tidy
  | unmapAbsent slot vaddr => exact applied.2.2.2.tidy tidy
  | clone slot => exact Cloned.tidy applied tidy (kernel_mem_live old)
  | reclaim slot => exact applied.2.tidy tidy

namespace Kernel

section EveryEdit

variable {Inv : Paging → Prop} (preserved : ∀ edit old new, Edit.Applies old new edit → Inv old → Inv new)
include preserved

theorem within_paging {Allowed : Edit → Prop} {old new : Paging} (within : edits.Within Allowed old new)
    (holds : Inv old) : Inv new :=
  within.preserves Inv (fun old edit new _ before applied => preserved edit old new applied before) holds

theorem perform_paging {kernel after : Kernel} {call : Call} (owned : Owned kernel) (holds : Inv kernel.paging)
    (enabled : kernel.Enabled call) (performed : kernel.perform call = .ok after) : Inv after.paging := by
  obtain ⟨_, unchanged | creation | ⟨edit, _, applied⟩⟩ := perform_cases owned enabled performed
  · rw [unchanged]
    exact holds
  · exact within_paging preserved creation holds
  · exact preserved edit _ _ applied holds

theorem kernelSetup_paging {highMemKB : UInt32} {slots : Nat → PageDirectory} {memory : Memory}
    {scheduler : List UInt32} {initrd : Option (List UInt32)} {kernel : Kernel}
    (initial : ∀ state, Initialized state → Inv state)
    (run : kernelSetup highMemKB slots memory scheduler initrd = .ok kernel) : Inv kernel.paging := by
  obtain ⟨_, start, initialized, setup⟩ := kernelSetup_edits run
  exact within_paging preserved setup (initial start initialized)

end EveryEdit

theorem reachable_paging (Inv : Paging → Prop) (initial : ∀ state, Initialized state → Inv state)
    (preserved : ∀ edit old new, Edit.Applies old new edit → Inv old → Inv new)
    {Condition : Kernel → Call → Prop} {kernel : Kernel} (reachable : (runs Condition).Reachable kernel) :
    Owned kernel ∧ Inv kernel.paging := by
  refine reachable.invariant (fun state => Owned state ∧ Inv state.paging) ?_ ?_
  · rintro state ⟨highMemKB, slots, memory, scheduler, initrd, run⟩
    exact ⟨(kernelSetup_edits run).1, kernelSetup_paging preserved initial run⟩
  · rintro state call after ⟨owned, holds⟩ ⟨enabled, _, performed⟩
    exact ⟨(perform_cases owned enabled performed).1, perform_paging preserved owned holds enabled performed⟩

theorem reachable_tidy {Condition : Kernel → Call → Prop} {kernel : Kernel}
    (reachable : (runs Condition).Reachable kernel) : Owned kernel ∧ Tidy kernel.paging :=
  reachable_paging Tidy (fun _ initialized => initialized.tidy) (fun _ _ _ => Edit.tidy) reachable

theorem reachable_of_runs {Condition : Kernel → Call → Prop} {kernel : Kernel}
    (reachable : (runs Condition).Reachable kernel) : (runs fun _ _ => True).Reachable kernel :=
  reachable.mono (fun _ booted => booted)
    fun _ _ _ step => ⟨step.1, True.intro, step.2.2⟩

section Sharing

variable {kernel after : Kernel} {caller handle : Nat} {src dst : UInt32}

theorem unmapPage_undoes (owned : Owned kernel) (tidy : Tidy kernel.paging)
    (counted : ∀ frame < 1024, Counted kernel.paging frame) (running : kernel.RunningUser caller)
    (shared : kernel.sharePage caller handle src = .ok (after, dst))
    (fits : ∀ task paddr, kernel.tasks handle = some task →
      kernel.paging.getPhysicalAddr task.pageDirectory src = .ok paddr →
      kernel.paging.count (pageIndex4M paddr) < 65535) : after.unmapPage caller dst = .ok kernel := by
  obtain ⟨task, found, rest⟩ := bind_eq_ok.mp shared
  obtain ⟨_, _, rest⟩ := bind_eq_ok.mp rest
  obtain ⟨_, _, rest⟩ := bind_eq_ok.mp rest
  obtain ⟨current, foundCaller, rest⟩ := bind_eq_ok.mp rest
  obtain ⟨slot, listed, uses, _⟩ := owned.caller running foundCaller
  cases free : kernel.paging.getNextFreeVirtualUser current.pageDirectory with
  | none =>
      rw [free] at rest
      cases rest
  | some vaddr =>
      rw [free] at rest
      obtain ⟨_, aligned, rest⟩ := bind_eq_ok.mp rest
      obtain ⟨_, _, rest⟩ := bind_eq_ok.mp rest
      obtain ⟨paddr, translated, rest⟩ := bind_eq_ok.mp rest
      obtain ⟨paging, added, done⟩ := bind_eq_ok.mp rest
      obtain ⟨rfl, rfl⟩ := Prod.mk.inj (pure_eq_ok.mp done)
      have room := fits task paddr (getTask_eq_ok.mp found) translated
      have own : kernel.paging.targets current.pageDirectory vaddr = {current.pageDirectory} :=
        targets_own fun _ => getNextFreeVirtualUser_eq_some free
      have isLive : current.pageDirectory ∈ kernel.paging.live := by
        rw [uses]
        exact region_mem_live.mpr listed
      have undone := removePage_undoes tidy isLive (counted _ (pageIndex4M_lt paddr)).used added
        (by rw [own, Finset.card_singleton]; omega)
      have sameTask : Kernel.getTask { kernel with paging } caller = .ok current := foundCaller
      rw [unmapPage, sameTask, ok_bind, require_of (require_eq_ok.mp aligned), ok_bind, undone, ok_bind]
      rfl

/-- A page that is added and removed again, and a page that is shared and unmapped again, leave the
state as it was. -/
theorem mapping_undone :
    (∀ state, anyRuns.Reachable state → (∀ frame < 1024, Counted state frame) →
      ∀ pd ∈ state.live, ∀ vaddr paddr flags allowPhysicalReuse middle,
        state.addPage pd vaddr paddr flags allowPhysicalReuse = .ok middle →
        state.count (pageIndex4M paddr) + (state.targets pd vaddr).card < 65536 →
        middle.removePage pd vaddr = .ok state) ∧
    ∀ kernel, (runs fun _ _ => True).Reachable kernel → (∀ frame < 1024, Counted kernel.paging frame) →
      ∀ caller handle src after dst, kernel.RunningUser caller →
        kernel.sharePage caller handle src = .ok (after, dst) →
        (∀ task paddr, kernel.tasks handle = some task →
          kernel.paging.getPhysicalAddr task.pageDirectory src = .ok paddr →
          kernel.paging.count (pageIndex4M paddr) < 65535) →
        after.unmapPage caller dst = .ok kernel := by
  refine ⟨?_, ?_⟩
  · intro state reachable counted pd isLive vaddr paddr flags allowPhysicalReuse middle added fits
    exact removePage_undoes (anyRuns_tidy reachable) isLive (counted _ (pageIndex4M_lt paddr)).used added fits
  · intro kernel reachable counted caller handle src after dst running shared fits
    obtain ⟨owned, tidy⟩ := reachable_tidy reachable
    exact unmapPage_undoes owned tidy counted running shared fits

/-- A page of the kernel heap right after the boot, and the code page of the second of two tasks. -/
theorem mapping_undone_twoTasks :
    (∃ state middle, anyRuns.Reachable state ∧
      state.addPage .kernel kernHeapBegin 0xC00000 0 false = .ok middle ∧ middle.count 3 = 1 ∧
      middle.removePage .kernel kernHeapBegin = .ok state) ∧
    ∃ kernel after, (runs fun _ _ => True).Reachable kernel ∧
      kernel.sharePage 1 2 userStart = .ok (after, 0x40400000) ∧ after.paging.count 6 = 2 ∧
      after.unmapPage 1 0x40400000 = .ok kernel := by
  refine ⟨?_, ?_⟩
  · obtain ⟨state, run, initialized⟩ := initializePaging_succeeds (fun _ _ => 0)
      (show 32 ≤ (131072 : UInt32) * 1024 / kPageSize4M + 1 by decide)
    have empty : ∀ other ∈ state.targets .kernel kernHeapBegin,
        present (state.pageDirs other (pageIndex4M kernHeapBegin)) = false := by
      intro other member
      cases other with
      | kernel =>
          rw [initialized.kernel]
          decide
      | region slot =>
          have isLive := targets_subset_live (kernel_mem_live state) member
          rw [region_mem_live, initialized.slots] at isLive
          simp at isLive
    have count : state.count 3 = 0 := by
      rw [initialized.count 3 (by decide)]
      decide
    have unused : state.frameUsed 3 = false := by
      have used := initialized.used 3 (by decide)
      rw [count] at used
      simpa using used
    obtain ⟨middle, added, installed⟩ := addPage_succeeds 0
      (show (0xC00000 : UInt32) % kPageSize4M = 0 by decide) (by decide)
      (fun (_ : false = false) => unused) empty
    have own : state.targets .kernel kernHeapBegin = {.kernel} := by
      rw [Paging.targets, if_pos ⟨rfl, by decide⟩, Paging.live, Paging.clones, initialized.slots]
      rfl
    have fits : state.count (pageIndex4M 0xC00000) + (state.targets .kernel kernHeapBegin).card < 65536 := by
      rw [own, show pageIndex4M 0xC00000 = 3 by decide, count]
      decide
    refine ⟨state, middle, .start ⟨_, _, run⟩, added, ?_, ?_⟩
    · rw [installed.count, own, show pageIndex4M 0xC00000 = 3 by decide, count]
      decide
    · exact mapping_undone.1 state (.start ⟨_, _, run⟩) (fun frame bound => initialized.counted bound) .kernel
        (kernel_mem_live state) kernHeapBegin 0xC00000 0 false middle added fits
  · have passed : replayTest KeepsPrivate twoTasks (fun kernel =>
        decide (kernel.RunningUser 1) &&
        ((kernel.tasks 2).all fun task =>
          (kernel.paging.getPhysicalAddr task.pageDirectory userStart).toOption.all fun paddr =>
            decide (kernel.paging.count (pageIndex4M paddr) < 65535)) &&
        (kernel.sharePage 1 2 userStart).toOption.any fun result =>
          decide (result.2 = 0x40400000 ∧ result.1.paging.count 6 = 2)) = true := by
      decide +kernel
    obtain ⟨kernel, reachable, tested⟩ := replayTest_reachable _ _ passed
    rw [Bool.and_eq_true, Bool.and_eq_true, decide_eq_true_eq] at tested
    obtain ⟨⟨running, small⟩, shares⟩ := tested
    simp only [Option.all_eq_true, decide_eq_true_eq] at small
    obtain ⟨⟨after, dst⟩, shared, facts⟩ := toOption_any.mp shares
    obtain ⟨rfl, count⟩ := of_decide_eq_true facts
    refine ⟨kernel, after, reachable_of_runs reachable, shared, count, ?_⟩
    refine mapping_undone.2 kernel (reachable_of_runs reachable)
      (reachable_isolated reachable).2.counted 1 2 userStart after _ running shared ?_
    intro task paddr found translated
    exact small task found paddr (toOption_eq_some.mpr translated)

end Sharing

section Mapping

variable {kernel after : Kernel} {caller : Nat} {vaddr : UInt32}

def MapContract (kernel : Kernel) (caller : Nat) (vaddr : UInt32) : Prop :=
  ∃ task after result, kernel.tasks caller = some task ∧ kernel.mapPage caller vaddr = .ok (after, result) ∧
    (result = .unalignedAddr ↔ vaddr % kPageSize4M ≠ 0) ∧
    (result = .alreadyMapped ↔ vaddr % kPageSize4M = 0 ∧
      kernel.paging.isVirtualMapped task.pageDirectory vaddr = true) ∧
    (result = .oom ↔ vaddr % kPageSize4M = 0 ∧
      kernel.paging.isVirtualMapped task.pageDirectory vaddr = false ∧
      ∀ frame, 1 ≤ frame → frame < 1024 → kernel.paging.frameUsed frame = true) ∧
    (result ≠ .success → after = kernel) ∧
    (result = .success → after = { kernel with paging := after.paging } ∧
      ∃ frame, NewUserPage kernel.paging after.paging task.pageDirectory vaddr frame)

/-- Some frame can be handed out, and nothing counts as using it. -/
def HasFreeFrame (kernel : Kernel) : Prop :=
  ∃ frame, kernel.paging.LowestFree frame ∧ kernel.paging.count frame = 0

theorem mapPage_unaligned (unaligned : vaddr % kPageSize4M ≠ 0) :
    kernel.mapPage caller vaddr = .ok (kernel, .unalignedAddr) := by
  rw [mapPage, if_pos unaligned]
  rfl

theorem mapPage_mapped {task : Task} (found : kernel.tasks caller = some task)
    (aligned : vaddr % kPageSize4M = 0)
    (mapped : kernel.paging.isVirtualMapped task.pageDirectory vaddr = true) :
    kernel.mapPage caller vaddr = .ok (kernel, .alreadyMapped) := by
  have foundTask : kernel.getTask caller = .ok task := getTask_eq_ok.mpr found
  rw [mapPage, if_neg (not_not.mpr aligned)]
  simp only [foundTask, ok_bind, mapped, if_true]
  rfl

/-- The rest of `map_page`, for an address that is free in the caller's page directory. -/
theorem mapPage_free {task : Task} (found : kernel.tasks caller = some task)
    (aligned : vaddr % kPageSize4M = 0)
    (unmapped : kernel.paging.isVirtualMapped task.pageDirectory vaddr = false) :
    kernel.mapPage caller vaddr = (do
      let paddr ← kernel.paging.physicalBitmap.nextFreePhysicalPage 1
      if paddr = 0 then return (kernel, .oom)
      let paging ← kernel.paging.addPage task.pageDirectory vaddr paddr pgUser.toUInt8 false
      return ({ kernel with paging }, .success)) := by
  have foundTask : kernel.getTask caller = .ok task := getTask_eq_ok.mpr found
  rw [mapPage, if_neg (not_not.mpr aligned)]
  simp only [foundTask, ok_bind, unmapped]
  rfl

theorem mapPage_full {task : Task} (found : kernel.tasks caller = some task)
    (aligned : vaddr % kPageSize4M = 0)
    (unmapped : kernel.paging.isVirtualMapped task.pageDirectory vaddr = false)
    (full : ∀ frame, 1 ≤ frame → frame < 1024 → kernel.paging.frameUsed frame = true) :
    kernel.mapPage caller vaddr = .error .memoryFull := by
  rw [mapPage_free found aligned unmapped, nextFreePhysicalPage_full full]
  rfl

theorem mapPage_lowest {task : Task} {frame : Nat} (owned : Owned kernel) (running : kernel.RunningUser caller)
    (found : kernel.tasks caller = some task) (aligned : vaddr % kPageSize4M = 0)
    (unmapped : kernel.paging.isVirtualMapped task.pageDirectory vaddr = false)
    (lowest : kernel.paging.LowestFree frame) :
    ∃ paging, kernel.mapPage caller vaddr = .ok ({ kernel with paging }, .success) ∧
      Installed kernel.paging paging {task.pageDirectory} (pageIndex4M vaddr)
        (pageEntry (UInt32.ofNat frame * kPageSize4M) pgUser.toUInt8) frame := by
  obtain ⟨slot, _, uses, _⟩ := owned.caller running (getTask_eq_ok.mpr found)
  have own : task.pageDirectory = .kernel → isReplicated vaddr = false := by
    rw [uses]
    intro isKernel
    cases isKernel
  have unused : kernel.paging.frameUsed (pageIndex4M (UInt32.ofNat frame * kPageSize4M)) = false := by
    rw [pageIndex4M_pageAddress lowest.bound]
    exact lowest.free
  obtain ⟨paging, added, installed⟩ := addPage_own_succeeds pgUser.toUInt8 own
    (pageAddress_aligned lowest.bound) aligned (fun _ => unused) unmapped
  rw [pageIndex4M_pageAddress lowest.bound] at installed
  refine ⟨paging, ?_, installed⟩
  rw [mapPage_free found aligned unmapped, lowest.next, ok_bind,
    if_neg (pageAddress_ne_zero lowest.positive lowest.bound), added, ok_bind]
  rfl

theorem MapContract.freeFrame {task : Task} (contract : kernel.MapContract caller vaddr) (owned : Owned kernel)
    (running : kernel.RunningUser caller) (found : kernel.tasks caller = some task)
    (aligned : vaddr % kPageSize4M = 0)
    (unmapped : kernel.paging.isVirtualMapped task.pageDirectory vaddr = false) : kernel.HasFreeFrame := by
  obtain ⟨_, _, _, _, run, _, _, _, _, success⟩ := contract
  rcases lowestFree_or_full kernel.paging with ⟨frame, lowest⟩ | full
  · obtain ⟨paging, mapped, _⟩ := mapPage_lowest owned running found aligned unmapped lowest
    rw [mapped] at run
    obtain ⟨_, same⟩ := Prod.mk.inj (Except.ok.inj run)
    obtain ⟨_, page, newPage⟩ := success same.symm
    exact ⟨page, newPage.lowest, newPage.countBefore⟩
  · rw [mapPage_full found aligned unmapped full] at run
    cases run

theorem MapContract.of_freeFrame {task : Task} (owned : Owned kernel) (running : kernel.RunningUser caller)
    (found : kernel.tasks caller = some task) (aligned : vaddr % kPageSize4M = 0)
    (unmapped : kernel.paging.isVirtualMapped task.pageDirectory vaddr = false)
    (free : kernel.HasFreeFrame) : kernel.MapContract caller vaddr := by
  obtain ⟨frame, lowest, zero⟩ := free
  obtain ⟨paging, mapped, installed⟩ := mapPage_lowest owned running found aligned unmapped lowest
  refine ⟨task, _, _, found, mapped, ?_, ?_, ?_, ?_, ?_⟩
  · simp [aligned]
  · simp [unmapped]
  · simp only [reduceCtorEq, false_iff, not_and]
    intro _ _ full
    have used := full frame lowest.positive lowest.bound
    rw [lowest.free] at used
    cases used
  · intro failed
    exact absurd rfl failed
  · intro _
    exact ⟨rfl, frame, installed.newUserPage lowest zero⟩

theorem mapContract_iff (owned : Owned kernel) (running : kernel.RunningUser caller) :
    kernel.MapContract caller vaddr ↔
      (vaddr % kPageSize4M = 0 → (∀ task, kernel.tasks caller = some task →
        kernel.paging.isVirtualMapped task.pageDirectory vaddr = false) → kernel.HasFreeFrame) := by
  have listed := running
  obtain ⟨task, found, _⟩ := listed
  have only : ∀ other, kernel.tasks caller = some other → other = task := by
    intro other known
    exact Option.some.inj (known.symm.trans found)
  constructor
  · intro contract aligned unmapped
    exact contract.freeFrame owned running found aligned (unmapped task found)
  · intro condition
    by_cases aligned : vaddr % kPageSize4M = 0
    · cases unmapped : kernel.paging.isVirtualMapped task.pageDirectory vaddr with
      | true =>
          refine ⟨task, _, _, found, mapPage_mapped found aligned unmapped, ?_⟩
          simp [aligned, unmapped]
      | false =>
          refine .of_freeFrame owned running found aligned unmapped (condition aligned ?_)
          intro other known
          rw [only other known]
          exact unmapped
    · refine ⟨task, _, _, found, mapPage_unaligned aligned, ?_⟩
      simp [aligned]

/-- `map_page` keeps its promises exactly when it is not left to find a frame in a full memory, or one
that has references all the same; only wrapped counts leave such a frame behind. -/
theorem mapPage_contract_iff (reachable : (runs fun _ _ => True).Reachable kernel) :
    (∀ caller vaddr, kernel.RunningUser caller →
      (kernel.MapContract caller vaddr ↔
        (vaddr % kPageSize4M = 0 → (∀ task, kernel.tasks caller = some task →
          kernel.paging.isVirtualMapped task.pageDirectory vaddr = false) → kernel.HasFreeFrame))) ∧
    ((runs SharesUserFrames).Reachable kernel →
      (kernel.HasFreeFrame ↔ ∃ frame, 1 ≤ frame ∧ frame < 1024 ∧ kernel.paging.frameUsed frame = false)) := by
  refine ⟨?_, ?_⟩
  · intro caller vaddr running
    exact mapContract_iff (reachable_tidy reachable).1 running
  · intro shares
    constructor
    · rintro ⟨frame, lowest, _⟩
      exact ⟨frame, lowest.positive, lowest.bound, lowest.free⟩
    · rintro ⟨frame, positive, bound, free⟩
      rcases lowestFree_or_full kernel.paging with ⟨lowestFrame, lowest⟩ | full
      · exact ⟨lowestFrame, lowest, (reachable_hidden shares).2.unreferenced lowest⟩
      · rw [full frame positive bound] at free
        cases free

/-- With the second of two tasks asking for a page, and for one it has. -/
theorem mapPage_contract_iff_twoTasks : ∃ kernel, (runs fun _ _ => True).Reachable kernel ∧
    kernel.HasFreeFrame ∧ kernel.MapContract 2 0x50000000 ∧ kernel.MapContract 2 userStart := by
  have passed : replayTest SharesUserFrames twoTasks (fun kernel =>
      decide (kernel.RunningUser 2 ∧ kernel.paging.frameUsed 7 = false)) = true := by
    decide +kernel
  obtain ⟨kernel, reachable, tested⟩ := replayTest_reachable _ _ passed
  obtain ⟨running, free⟩ := of_decide_eq_true tested
  obtain ⟨contract, rooms⟩ := mapPage_contract_iff (reachable_of_runs reachable)
  have room := (rooms reachable).mpr ⟨7, by decide, by decide, free⟩
  have meets := fun vaddr => (contract 2 vaddr running).mpr fun _ _ => room
  exact ⟨kernel, reachable_of_runs reachable, room, meets _, meets _⟩

theorem Installed.freeFrames {state new : Paging} {targets : Finset PageDirPtr} {index page : Nat} {entry : UInt32}
    (installed : Installed state new targets index entry page) :
    freeFrames new = (freeFrames state).erase page := by
  ext frame
  have used := installed.used frame
  rw [Finset.mem_erase, mem_freeFrames, mem_freeFrames, Bool.eq_false_iff, Bool.eq_false_iff, ne_eq, used]
  tauto

/-- A task that keeps mapping pages fills the memory. -/
theorem exists_full {task : Task} {first room : Nat} (reachable : (runs fun _ _ => True).Reachable kernel)
    (running : kernel.RunningUser caller) (found : kernel.tasks caller = some task)
    (few : (freeFrames kernel.paging).card ≤ room) (bound : first + room < 1024)
    (unmapped : ∀ index, first ≤ index → index ≤ first + room →
      present (kernel.paging.pageDirs task.pageDirectory index) = false) :
    ∃ after index, (runs fun _ _ => True).Reachable after ∧ after.RunningUser caller ∧
      after.tasks caller = some task ∧ freeFrames after.paging = ∅ ∧ index < 1024 ∧
      present (after.paging.pageDirs task.pageDirectory index) = false := by
  induction room generalizing kernel first with
  | zero =>
      exact ⟨kernel, first, reachable, running, found, Finset.card_eq_zero.mp (Nat.le_zero.mp few), bound,
        unmapped first (Nat.le_refl _) (Nat.le_refl _)⟩
  | succ room ih =>
      rcases lowestFree_or_full kernel.paging with ⟨frame, lowest⟩ | full
      · have free : frame ∈ freeFrames kernel.paging :=
          mem_freeFrames.mpr ⟨⟨lowest.positive, lowest.bound⟩, lowest.free⟩
        have page := pageIndex4M_pageAddr4M (show first < 1024 by omega)
        have start : kernel.paging.isVirtualMapped task.pageDirectory (pageAddr4M first) = false := by
          rw [isVirtualMapped, page]
          exact unmapped first (Nat.le_refl _) (by omega)
        obtain ⟨paging, mapped, installed⟩ := mapPage_lowest (reachable_tidy reachable).1 running found
          (pageAddr4M_aligned (show first < 1024 by omega)) start lowest
        have performed : kernel.perform (.mapPage caller (pageAddr4M first)) = .ok { kernel with paging } := by
          rw [perform, mapped]
          rfl
        have enabled : kernel.Enabled (.mapPage caller (pageAddr4M first)) := running
        have next := reachable.next ⟨enabled, True.intro, performed⟩
        refine ih next running found ?_ (show first + 1 + room < 1024 by omega) ?_
        · change (freeFrames paging).card ≤ room
          rw [Installed.freeFrames installed, Finset.card_erase_of_mem free]
          omega
        · intro index above below
          change present (paging.pageDirs task.pageDirectory index) = false
          rw [installed.pageDirs, page, if_neg (by omega)]
          exact unmapped index (by omega) (by omega)
      · refine ⟨kernel, first, reachable, running, found, ?_, by omega, unmapped first (Nat.le_refl _) (by omega)⟩
        refine Finset.eq_empty_of_forall_notMem fun frame member => ?_
        obtain ⟨⟨positive, below⟩, free⟩ := mem_freeFrames.mp member
        rw [full frame positive below] at free
        cases free

/-- The frames beyond the usable memory are reserved. -/
theorem Hidden.freeFrames_few {state : Paging} (isHidden : Hidden state) : (freeFrames state).card ≤ 31 := by
  have inside : freeFrames state ⊆ Finset.Ico 1 32 := by
    intro frame member
    obtain ⟨⟨positive, below⟩, free⟩ := mem_freeFrames.mp member
    refine Finset.mem_Ico.mpr ⟨positive, ?_⟩
    by_contra beyond
    have counted := isHidden.counted frame below (by omega)
    have isReserved : reserved frame = 1 := if_pos (by change 32 ≤ frame; omega)
    have none := (counted.free free).2
    omega
  exact Finset.card_le_card inside

/-- The first task maps pages until the memory is full, and then one more. -/
theorem mapPage_stops_when_full :
    ¬∀ kernel, (runs fun _ _ => True).Reachable kernel → ∀ caller vaddr, kernel.RunningUser caller →
      kernel.MapContract caller vaddr := by
  intro contract
  have passed : replayTest SharesUserFrames [.kernelJumpToUserEntry kernHeapBegin 8 0 noGrowth] (fun kernel =>
      decide (kernel.RunningUser 1 ∧ (kernel.tasks 1).map Task.pageDirectory = some (.region 0)) &&
      (List.range' 312 32).all fun index => !present (kernel.paging.pageDirs (.region 0) index)) = true := by
    decide +kernel
  obtain ⟨kernel, reachable, tested⟩ := replayTest_reachable _ _ passed
  obtain ⟨task, unmapped⟩ := (Bool.and_eq_true _ _).mp tested
  obtain ⟨running, uses⟩ := of_decide_eq_true task
  obtain ⟨parent, found, isFirst⟩ := Option.map_eq_some_iff.mp uses
  obtain ⟨after, index, later, stillRunning, stillFound, full, bound, absent⟩ :=
    exists_full (reachable_of_runs reachable) running found (Hidden.freeFrames_few (reachable_hidden reachable).2)
      (show 312 + 31 < 1024 by decide) (by
        intro index above below
        rw [isFirst]
        have absent := List.all_eq_true.mp unmapped index (List.mem_range'_1.mpr ⟨above, by omega⟩)
        simpa using absent)
  have page := pageIndex4M_pageAddr4M bound
  obtain ⟨frame, lowest, _⟩ := (contract after later 1 (pageAddr4M index) stillRunning).freeFrame
    (reachable_tidy later).1 stillRunning stillFound (pageAddr4M_aligned bound) (by
      rw [isVirtualMapped, page]
      exact absent)
  have free : frame ∈ freeFrames after.paging := mem_freeFrames.mpr ⟨⟨lowest.positive, lowest.bound⟩, lowest.free⟩
  rw [full] at free
  exact absurd free (Finset.notMem_empty frame)

end Mapping

end Kernel

end ToyKernel
