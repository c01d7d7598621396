import ToyKernel.Kernel.Isolation

/-!
The kernel's own mappings in every address space. `map_page` and `unmap_page` edit
whatever entry the caller names, also one that is reserved for the kernel; without
such edits all page directories keep the kernel's entries and the growth of the
kernel heap never finds one of them taken.
-/

namespace ToyKernel

open Library Paging

namespace Paging

structure Replicated (state : Paging) : Prop where
  coherent : Coherent state
  absent : ∀ index < 1024, isReplicated (pageAddr4M index) = true →
    present (state.pageDirs .kernel index) = false → state.pageDirs .kernel index = 0

variable {old new state : Paging} {slot : Nat}

theorem Replicated.unchanged (replicated : Replicated old) (live : ∀ pd ∈ new.live, pd ∈ old.live)
    (entries : ∀ pd ∈ new.live, ∀ index < 1024, isReplicated (pageAddr4M index) = true →
      new.pageDirs pd index = old.pageDirs pd index) : Replicated new := by
  constructor
  · intro slot listed index bound shared
    have isLive := region_mem_live.mpr listed
    rw [entries _ isLive index bound shared, entries _ (kernel_mem_live new) index bound shared]
    exact replicated.coherent slot (region_mem_live.mp (live _ isLive)) index bound shared
  · intro index bound shared isAbsent
    rw [entries _ (kernel_mem_live new) index bound shared] at isAbsent ⊢
    exact replicated.absent index bound shared isAbsent

theorem not_replicated_index {vaddr : UInt32} (aligned : vaddr % kPageSize4M = 0)
    (own : isReplicated vaddr = false) {index : Nat}
    (shared : isReplicated (pageAddr4M index) = true) : index ≠ pageIndex4M vaddr := by
  rintro rfl
  rw [pageAddr4M_pageIndex4M aligned, own] at shared
  cases shared

theorem Installed.replicated {targets : Finset PageDirPtr} {vaddr entry : UInt32} {page : Nat}
    (installed : Installed old new targets (pageIndex4M vaddr) entry page)
    (replicated : Replicated old) (aligned : vaddr % kPageSize4M = 0)
    (own : isReplicated vaddr = false) : Replicated new := by
  apply replicated.unchanged
  · intro pd isLive
    rwa [installed.live] at isLive
  · intro pd _ index _ shared
    have elsewhere := not_replicated_index aligned own shared
    rw [installed.pageDirs, if_neg (by simp [elsewhere])]

theorem Cleared.replicated {targets : Finset PageDirPtr} {vaddr : UInt32} {page : Nat}
    (cleared : Cleared old new targets (pageIndex4M vaddr) page)
    (replicated : Replicated old) (aligned : vaddr % kPageSize4M = 0)
    (own : isReplicated vaddr = false) : Replicated new := by
  apply replicated.unchanged
  · intro pd isLive
    rwa [cleared.live] at isLive
  · intro pd _ index _ shared
    have elsewhere := not_replicated_index aligned own shared
    rw [cleared.pageDirs, if_neg (by simp [elsewhere])]

theorem Initialized.replicated (initialized : Initialized state) : Replicated state := by
  constructor
  · exact initialized.coherent
  · intro index _ _ isAbsent
    rw [initialized.kernel] at isAbsent ⊢
    by_cases first : index = 1
    · rw [if_pos first, present_pageEntry] at isAbsent
      cases isAbsent
    · by_cases second : index = 2
      · rw [if_neg first, if_pos second, present_pageEntry] at isAbsent
        cases isAbsent
      · rw [if_neg first, if_neg second]

end Paging

def Edit.SparesKernel : Edit → Prop
  | .userPage _ vaddr _ => isReplicated vaddr = false
  | .unmap pd vaddr => pd ≠ .kernel → isReplicated vaddr = false
  | _ => True

theorem Edit.replicated {edit : Edit} {old new : Paging} (spares : edit.SparesKernel)
    (replicated : Replicated old) (applied : edit.Applies old new) : Replicated new := by
  cases edit with
  | temporary =>
      apply replicated.unchanged
      · intro pd isLive
        rwa [live_congr (slots_congr applied.region)] at isLive
      · intro pd _ index bound shared
        exact applied.replicated pd index bound shared
  | kernelPage vaddr paddr =>
      obtain ⟨aligned, _, _, installed⟩ := applied
      constructor
      · apply installed.coherent replicated.coherent
        exact targets_everywhere aligned (by simp)
      · intro index bound shared isAbsent
        rw [installed.pageDirs] at isAbsent ⊢
        split at isAbsent
        · rw [present_pageEntry] at isAbsent
          cases isAbsent
        · rename_i elsewhere
          rw [if_neg elsewhere]
          exact replicated.absent index bound shared isAbsent
  | userPage slot vaddr paddr =>
      obtain ⟨_, aligned, _, installed⟩ := applied
      exact installed.replicated replicated aligned spares
  | sharedPage slot source src vaddr paddr =>
      obtain ⟨_, aligned, own, _, _, installed⟩ := applied
      exact installed.replicated replicated aligned own
  | unmap pd vaddr =>
      obtain ⟨_, aligned, kernelOwn, _, cleared⟩ := applied
      apply cleared.replicated replicated aligned
      by_cases isKernel : pd = .kernel
      · exact kernelOwn isKernel
      · exact spares isKernel
  | unmapAbsent slot vaddr =>
      obtain ⟨listed, _, isAbsent, cleared⟩ := applied
      apply replicated.unchanged
      · intro pd isLive
        rwa [cleared.live] at isLive
      · intro pd _ index bound shared
        rw [cleared.pageDirs]
        split
        · rename_i here
          obtain ⟨member, rfl⟩ := here
          have same := replicated.coherent slot listed _ bound shared
          rw [same] at isAbsent
          rw [Finset.mem_singleton.mp member, same, replicated.absent _ bound shared isAbsent]
        · rfl
  | clone slot =>
      constructor
      · exact Cloned.coherent applied replicated.coherent
      · intro index bound shared isAbsent
        rw [applied.pageDirs, if_neg (by simp)] at isAbsent ⊢
        exact replicated.absent index bound shared isAbsent
  | reclaim slot =>
      apply replicated.unchanged
      · intro pd isLive
        exact (applied.2.mem_live.mp isLive).1
      · intro pd _ index _ _
        rw [applied.2.pageDirs]

namespace Kernel

def SparesKernel (kernel : Kernel) : Call → Prop
  | .mapPage caller vaddr => vaddr % kPageSize4M = 0 → isReplicated vaddr = true →
      ∀ task, kernel.tasks caller = some task →
        kernel.paging.isVirtualMapped task.pageDirectory vaddr = true
  | .unmapPage caller vaddr => vaddr % kPageSize4M = 0 → isReplicated vaddr = true →
      ∀ task, kernel.tasks caller = some task →
        kernel.paging.isVirtualMapped task.pageDirectory vaddr = false
  | _ => True

theorem callEdit_sparesKernel {kernel : Kernel} {call : Call} {edit : Edit} {new : Paging}
    (condition : kernel.SparesKernel call) (allowed : kernel.CallEdit call edit)
    (applied : edit.Applies kernel.paging new) : edit.SparesKernel := by
  cases call with
  | mapPage caller vaddr =>
      obtain ⟨slot, paddr, uses, unmapped, rfl⟩ := allowed
      obtain ⟨task, found, same⟩ := Option.map_eq_some_iff.mp uses
      obtain ⟨directory, _⟩ := Prod.mk.inj same
      by_contra shared
      have mapped := condition applied.2.1 (by simpa [Edit.SparesKernel] using shared) task found
      rw [directory, unmapped] at mapped
      cases mapped
  | unmapPage caller vaddr =>
      obtain ⟨slot, uses, rfl⟩ := allowed
      obtain ⟨task, found, same⟩ := Option.map_eq_some_iff.mp uses
      obtain ⟨directory, _⟩ := Prod.mk.inj same
      by_cases mapped : kernel.paging.isVirtualMapped (.region slot) vaddr = true
      · rw [if_pos mapped] at applied ⊢
        intro _
        by_contra shared
        have unmapped := condition applied.2.1 (by simpa using shared) task found
        rw [directory, mapped] at unmapped
        cases unmapped
      · rw [if_neg mapped]
        exact True.intro
  | destroyUserTask handle =>
      obtain ⟨slot, _, rfl⟩ := allowed
      exact True.intro
  | sharePage caller handle src =>
      obtain ⟨slot, source, vaddr, paddr, _, _, rfl⟩ := allowed
      exact True.intro
  | createUserTask _ _ _ _ _ _ => exact absurd allowed id
  | kernelJumpToUserEntry _ _ _ _ => exact absurd allowed id
  | exit _ => exact absurd allowed id
  | growHeap _ => exact absurd allowed id

theorem creation_sparesKernel {edit : Edit} (creation : edit.IsCreation) : edit.SparesKernel := by
  obtain ⟨slot, rfl | setup⟩ := creation
  · exact True.intro
  · cases edit with
    | userPage other vaddr paddr =>
        obtain ⟨_, rfl | rfl⟩ := setup
        · exact (by decide : isReplicated userSharedSpaceStart = false)
        · exact (by decide : isReplicated userStart = false)
    | unmap pd vaddr => exact absurd setup id
    | _ => exact True.intro

theorem boot_sparesKernel {edit : Edit} (boot : IsBoot edit) : edit.SparesKernel := by
  cases edit with
  | unmap pd vaddr => exact fun other => absurd boot other
  | userPage _ _ _ => exact absurd boot id
  | _ => exact True.intro

theorem within_replicated {Allowed : Edit → Prop} (spares : ∀ edit, Allowed edit → edit.SparesKernel)
    {old new : Paging} (within : edits.Within Allowed old new) (replicated : Replicated old) :
    Replicated new := by
  refine within.preserves Replicated ?_ replicated
  intro state edit after allowed before applied
  exact Edit.replicated (spares edit allowed) before applied

theorem perform_replicated {kernel after : Kernel} {call : Call} (owned : Owned kernel)
    (replicated : Replicated kernel.paging) (enabled : kernel.Enabled call) (condition : kernel.SparesKernel call)
    (performed : kernel.perform call = .ok after) : Replicated after.paging := by
  obtain ⟨_, unchanged | within | ⟨edit, allowed, applied⟩⟩ := perform_cases owned enabled performed
  · rw [unchanged]
    exact replicated
  · exact within_replicated (fun _ => creation_sparesKernel) within replicated
  · exact Edit.replicated (callEdit_sparesKernel condition allowed applied) replicated applied

theorem kernelSetup_replicated {highMemKB : UInt32} {slots : Nat → PageDirectory} {memory : Memory}
    {scheduler : List UInt32} {initrd : Option (List UInt32)} {kernel : Kernel}
    (run : kernelSetup highMemKB slots memory scheduler initrd = .ok kernel) : Replicated kernel.paging := by
  obtain ⟨_, start, initialized, within⟩ := kernelSetup_edits run
  exact within_replicated (fun _ => boot_sparesKernel) within initialized.replicated

abbrev NoClash {α : Type} (result : Except Fault α) : Prop :=
  Returns result (· ≠ .otherEntryUsed) fun _ => True

theorem pure_noClash {α : Type} (value : α) : NoClash (pure value : Except Fault α) :=
  returns_pure.mpr True.intro

theorem error_noClash {α : Type} {fault : Fault} (other : fault ≠ .otherEntryUsed) :
    NoClash (.error fault : Except Fault α) :=
  returns_error.mpr other

theorem getTask_noClash (kernel : Kernel) (handle : Nat) : NoClash (kernel.getTask handle) := by
  unfold getTask
  cases kernel.tasks handle with
  | none => exact error_noClash (by decide)
  | some task => exact returns_ok.mpr True.intro

theorem nextFreePhysicalPage_noClash (start : Nat) (bitmap : PhysicalBitmap4M) :
    NoClash (bitmap.nextFreePhysicalPage start) := by
  unfold PhysicalBitmap4M.nextFreePhysicalPage
  cases bitmap.bits.getFirstZero start with
  | none => exact error_noClash (by decide)
  | some page => exact returns_ok.mpr True.intro

theorem addPage_noClash {pd : PageDirPtr} {vaddr paddr : UInt32} {flags : UInt8} {reuse : Bool}
    {state : Paging}
    (matching : vaddr % kPageSize4M = 0 → ∀ other ∈ state.targets pd vaddr, other ≠ pd →
      state.pageDirs other (pageIndex4M vaddr) = state.pageDirs pd (pageIndex4M vaddr)) :
    NoClash (state.addPage pd vaddr paddr flags reuse) := by
  have spec := addPage_spec state pd vaddr paddr flags reuse
  refine (spec.mono fun _ _ => True.intro).weaken ?_
  rintro fault found rfl
  obtain ⟨aligned, isAbsent, other, member, different, taken⟩ := found
  rw [matching aligned other member different, isAbsent] at taken
  cases taken

theorem addPage_own_noClash {pd : PageDirPtr} {vaddr paddr : UInt32} {flags : UInt8} {reuse : Bool}
    {state : Paging} (own : pd = .kernel → isReplicated vaddr = false) :
    NoClash (state.addPage pd vaddr paddr flags reuse) := by
  apply addPage_noClash
  intro _ other member different
  rw [targets_own own, Finset.mem_singleton] at member
  exact absurd member different

theorem removePage_noClash {pd : PageDirPtr} {vaddr : UInt32} {state : Paging} :
    NoClash (state.removePage pd vaddr) := by
  have spec := removePage_spec state pd vaddr
  refine (spec.mono fun _ _ => True.intro).weaken ?_
  rintro fault found rfl
  exact found

theorem getPhysicalAddr_noClash {pd : PageDirPtr} {vaddr : UInt32} {state : Paging} :
    NoClash (state.getPhysicalAddr pd vaddr) :=
  returns_require_or (by decide) fun _ => returns_require_or (by decide) fun _ =>
    returns_require_or (by decide) fun _ => pure_noClash _

theorem ksbrkPages_noClash (pages : Nat) {heap : UInt32} {paging : Paging}
    (replicated : Replicated paging) : NoClash (ksbrkPages pages heap paging) := by
  induction pages generalizing heap paging with
  | zero => exact pure_noClash _
  | succ pages ih =>
      refine (nextFreePhysicalPage_noClash 1 _).then ?_
      intro paddr found
      refine Returns.then ?_ ?_
      · apply addPage_noClash
        intro aligned other member _
        exact replicated.coherent.target_entry aligned member
      · intro middle added
        obtain ⟨_, above, free⟩ := PhysicalBitmap4M.nextFreePhysicalPage_eq_ok found
        obtain ⟨_, aligned, _, installed⟩ :=
          (addPage_spec paging .kernel heap paddr 0 false).of_ok added
        have applied : (Edit.kernelPage heap paddr).Applies paging middle :=
          ⟨aligned, free, fun _ => by omega, installed⟩
        have spares : (Edit.kernelPage heap paddr).SparesKernel := True.intro
        exact ih (Edit.replicated spares replicated applied)

theorem ksbrkPage_noClash {pages heap : UInt32} {paging : Paging} (replicated : Replicated paging) :
    NoClash (ksbrkPage pages heap paging) := by
  unfold ksbrkPage
  split
  · exact pure_noClash _
  · exact (ksbrkPages_noClash _ replicated).then fun _ _ => pure_noClash _

theorem growHeap_noClash {bytes : UInt32} {kernel : Kernel} (replicated : Replicated kernel.paging) :
    NoClash (kernel.growHeap bytes) := by
  have grown : NoClash (ksbrk bytes kernel.heap kernel.paging) := by
    unfold ksbrk
    split
    · exact ksbrkPage_noClash replicated
    · split
      · exact ksbrkPage_noClash replicated
      · exact ksbrkPage_noClash replicated
  refine grown.then ?_
  rintro ⟨paging, heap⟩ _
  cases heap with
  | none => exact error_noClash (by decide)
  | some heap => exact pure_noClash _

theorem growth_replicated {old new : Paging} (within : edits.Within Edit.IsGrowth old new)
    (replicated : Replicated old) : Replicated new := by
  refine within_replicated ?_ within replicated
  intro edit growth
  cases edit with
  | kernelPage vaddr paddr => exact True.intro
  | _ => exact absurd growth id

theorem kmalloc_noClash (requests : List UInt32) {kernel : Kernel}
    (replicated : Replicated kernel.paging) : NoClash (kmalloc requests kernel) := by
  induction requests generalizing kernel with
  | nil => exact pure_noClash _
  | cons bytes rest ih =>
      refine (growHeap_noClash replicated).then ?_
      intro grown run
      exact ih (growth_replicated (growHeap_edits run).1 replicated)

theorem translate_noClash (pd : PageDirectory) (vaddr : UInt32) : NoClash (translate pd vaddr) :=
  returns_require_or (by decide) fun _ => pure_noClash _

theorem writeBytes_noClash (pd : PageDirectory) (bytes : List UInt8) (dst : UInt32)
    (memory : Memory) : NoClash (writeBytes pd dst bytes memory) := by
  induction bytes generalizing dst memory with
  | nil => exact pure_noClash _
  | cons byte rest ih => exact (translate_noClash pd dst).then fun _ _ => ih _ _

theorem memcpyVirtual_noClash (pd : PageDirectory) (size : Nat) (dst src : UInt32)
    (memory : Memory) : NoClash (memcpyVirtual pd dst src size memory) := by
  induction size generalizing dst src memory with
  | zero => exact pure_noClash _
  | succ size ih =>
      exact (translate_noClash pd src).then fun _ _ =>
        (translate_noClash pd dst).then fun _ _ => ih _ _ _

theorem taskMemcpy_noClash {task current : PageDirPtr} {vaddr : UInt32}
    {copy : UInt32 → PageDirectory → Memory → Except Fault Memory} {kernel : Kernel}
    (copies : ∀ address pd memory, NoClash (copy address pd memory)) :
    NoClash (taskMemcpy task current vaddr copy kernel) := by
  refine getPhysicalAddr_noClash.then fun paddr _ => ?_
  refine (addPage_own_noClash fun _ => by decide).then fun paging _ => ?_
  refine (copies _ _ _).then fun memory _ => ?_
  exact removePage_noClash.then fun _ _ => pure_noClash _

theorem writeStack_noClash {task current : PageDirPtr} (words : List (UInt32 × UInt32))
    (kernel : Kernel) : NoClash (writeStack task current words kernel) := by
  induction words generalizing kernel with
  | nil => exact pure_noClash _
  | cons word rest ih =>
      refine Returns.then ?_ fun next _ => ih next
      exact taskMemcpy_noClash fun _ pd memory => writeBytes_noClash pd _ _ memory

theorem setupSharedSpace_noClash {slot : Nat} {current : PageDirPtr} {arg entryOffset : UInt32}
    {copyfunc : CopyArgFunc} {kernel : Kernel}
    (copies : ∀ first last pd memory, NoClash (copyfunc arg first last pd memory)) :
    NoClash (setupSharedSpace slot current arg entryOffset copyfunc kernel) := by
  refine (nextFreePhysicalPage_noClash 1 _).then fun paddr _ => ?_
  refine returns_require_or (by decide) fun _ => ?_
  refine (addPage_own_noClash (by simp)).then fun first _ => ?_
  refine (addPage_own_noClash fun _ => by decide).then fun second _ => ?_
  refine (copies _ _ _ _).then fun copied _ => ?_
  refine (writeStack_noClash _ _).then fun written _ => ?_
  exact removePage_noClash.then fun _ _ => pure_noClash _

theorem setupCode_noClash {slot : Nat} {current : PageDirPtr} {func codesize : UInt32}
    {kernel : Kernel} : NoClash (setupCode slot current func codesize kernel) := by
  refine (nextFreePhysicalPage_noClash 0 _).then fun paddr _ => ?_
  refine (addPage_own_noClash (by simp)).then fun first _ => ?_
  refine getPhysicalAddr_noClash.then fun mapped _ => ?_
  refine returns_require_or (by decide) fun _ => ?_
  unfold write
  split
  · exact pure_noClash _
  · exact taskMemcpy_noClash fun _ pd memory => memcpyVirtual_noClash pd _ _ _ memory

theorem userTask_noClash {caller : Nat} {func codesize arg : UInt32} {copyfunc : CopyArgFunc}
    {entryOffset : UInt32} {growth : Growth} {kernel : Kernel} (replicated : Replicated kernel.paging)
    (copies : ∀ first last pd memory, NoClash (copyfunc arg first last pd memory)) :
    NoClash (userTask caller func codesize arg copyfunc entryOffset growth kernel) := by
  refine (getTask_noClash _ _).then fun current _ => ?_
  refine (kmalloc_noClash _ replicated).then fun first allocated => ?_
  have firstReplicated := growth_replicated (kmalloc_edits _ allocated).1 replicated
  have cloneFaults : NoClash (first.paging.clone .kernel) := by
    have spec := clone_spec first.paging .kernel
    refine (spec.mono fun _ _ => True.intro).weaken ?_
    rintro fault ⟨rfl, _⟩
    decide
  refine cloneFaults.then ?_
  rintro ⟨paging, slot⟩ cloned
  have copied : (Edit.clone slot).Applies first.paging paging :=
    (clone_spec first.paging .kernel).of_ok cloned
  have spares : (Edit.clone slot).SparesKernel := True.intro
  have cloneReplicated := Edit.replicated spares firstReplicated copied
  refine Returns.then ((getTask_noClash _ _).then fun _ _ => pure_noClash _) fun second child => ?_
  obtain ⟨samePaging, _, _⟩ := addChildTask_eq child
  have secondReplicated : Replicated second.paging := by
    rw [samePaging]
    exact cloneReplicated
  refine Returns.then (kmalloc_noClash _ secondReplicated) fun third childMalloc => ?_
  have childGrowth : edits.Within Edit.IsGrowth second.paging third.paging :=
    (kmalloc_edits _ childMalloc).1
  have thirdReplicated := growth_replicated childGrowth secondReplicated
  refine (kmalloc_noClash _ thirdReplicated).then fun fourth stackMalloc => ?_
  have stackGrowth := (kmalloc_edits _ stackMalloc).1
  have fourthReplicated := growth_replicated stackGrowth thirdReplicated
  refine (setupSharedSpace_noClash copies).then fun fifth shared => ?_
  have listed : slot ∈ fourth.paging.slots := by
    rw [Edit.setup_slots (growth_setup slot (childGrowth.trans stackGrowth)), samePaging]
    exact (copied.slots ▸ Finset.mem_insert_self slot _ : slot ∈ paging.slots)
  have setup := (setupSharedSpace_edits listed shared).1
  have fifthReplicated : Replicated fifth.paging :=
    within_replicated (fun _ allowed => creation_sparesKernel ⟨slot, Or.inr allowed⟩) setup
      fourthReplicated
  refine (kmalloc_noClash _ fifthReplicated).then fun sixth _ => ?_
  exact setupCode_noClash.then fun _ _ => pure_noClash _

theorem copyArgDefault_noClash (arg first last : UInt32) (pd : PageDirectory) (memory : Memory) :
    NoClash (copyArgDefault arg first last pd memory) :=
  (writeBytes_noClash pd _ _ memory).then fun _ _ => pure_noClash _

theorem copyInitrd_noClash (data size arg first last : UInt32) (pd : PageDirectory)
    (memory : Memory) : NoClash (copyInitrd data size arg first last pd memory) := by
  refine returns_require_or (by decide) fun _ => ?_
  refine (writeBytes_noClash pd _ _ memory).then fun _ _ => ?_
  exact (memcpyVirtual_noClash pd _ _ _ _).then fun _ _ => pure_noClash _

theorem destroyUserTask_noClash {kernel : Kernel} {handle : Nat} (owned : Owned kernel) :
    NoClash (kernel.destroyUserTask handle) := by
  refine (getTask_noClash _ _).then fun task found => ?_
  refine returns_require_or (by decide) fun isUser => ?_
  have uses := owner_of (getTask_eq_ok.mp found)
  rw [isUser] at uses
  obtain ⟨slot, listed, same⟩ := owned.userTasks handle _ uses
  have reclaims : NoClash (kernel.paging.reclaimPageDirRegion task.pageDirectory) := by
    rw [same]
    have spec := reclaimPageDirRegion_spec kernel.paging (mem_slots.mp listed).1
    refine (spec.mono fun _ _ => True.intro).weaken ?_
    rintro fault ⟨rfl, _⟩
    decide
  refine reclaims.then fun paging _ => ?_
  refine returns_require_or (by decide) fun _ => ?_
  cases task.parent with
  | none => exact pure_noClash _
  | some parent =>
      refine Returns.then ?_ fun _ _ => pure_noClash _
      exact (getTask_noClash _ _).then fun _ _ =>
        returns_require_or (by decide) fun _ => pure_noClash _

theorem mapPage_noClash {kernel : Kernel} {caller : Nat} {vaddr : UInt32} (owned : Owned kernel)
    (running : kernel.RunningUser caller) : NoClash (kernel.mapPage caller vaddr) := by
  unfold mapPage
  split
  · exact pure_noClash _
  · refine (getTask_noClash _ _).then fun task found => ?_
    obtain ⟨slot, _, uses, _⟩ := owned.caller running found
    split
    · exact pure_noClash _
    · refine (nextFreePhysicalPage_noClash 1 _).then fun paddr _ => ?_
      split
      · exact pure_noClash _
      · refine (addPage_own_noClash ?_).then fun _ _ => pure_noClash _
        rw [uses]
        simp

theorem sharePage_noClash {kernel : Kernel} {caller handle : Nat} {src : UInt32}
    (owned : Owned kernel) (running : kernel.RunningUser caller) :
    NoClash (kernel.sharePage caller handle src) := by
  refine (getTask_noClash _ _).then fun task _ => ?_
  refine returns_require_or (by decide) fun _ => ?_
  refine returns_require_or (by decide) fun _ => ?_
  refine (getTask_noClash _ _).then fun current found => ?_
  obtain ⟨slot, _, uses, _⟩ := owned.caller running found
  cases kernel.paging.getNextFreeVirtualUser current.pageDirectory with
  | none => exact error_noClash (by decide)
  | some dst =>
      refine returns_require_or (by decide) fun _ => ?_
      refine returns_require_or (by decide) fun _ => ?_
      refine getPhysicalAddr_noClash.then fun paddr _ => ?_
      refine (addPage_own_noClash ?_).then fun _ _ => pure_noClash _
      rw [uses]
      simp

/-- In a state with the kernel's entries in place, no call stops at the assertion that
another task uses one of them. -/
theorem perform_noClash {kernel : Kernel} {call : Call} (owned : Owned kernel)
    (replicated : Replicated kernel.paging) (enabled : kernel.Enabled call) :
    NoClash (kernel.perform call) := by
  cases call with
  | createUserTask caller entry codesize arg entryOffset growth =>
      have created := @userTask_noClash caller entry codesize arg copyArgDefault entryOffset growth
        kernel replicated (copyArgDefault_noClash arg)
      exact Returns.then created fun _ _ => pure_noClash _
  | kernelJumpToUserEntry vfsData vfsSize arg growth =>
      have created := @userTask_noClash mainKernelTask vfsData vfsSize arg
        (copyInitrd vfsData vfsSize) 0 growth kernel replicated (copyInitrd_noClash vfsData vfsSize arg)
      exact Returns.then created fun _ _ => pure_noClash _
  | destroyUserTask handle => exact destroyUserTask_noClash owned
  | exit caller => exact (getTask_noClash _ _).then fun _ _ => pure_noClash _
  | mapPage caller vaddr => exact (mapPage_noClash owned enabled).then fun _ _ => pure_noClash _
  | unmapPage caller vaddr =>
      refine (getTask_noClash _ _).then fun _ _ => returns_require_or (by decide) fun _ => ?_
      exact removePage_noClash.then fun _ _ => pure_noClash _
  | sharePage caller handle src =>
      exact (sharePage_noClash owned enabled).then fun _ _ => pure_noClash _
  | growHeap bytes => exact growHeap_noClash replicated

instance (kernel : Kernel) (call : Call) : Decidable (kernel.SparesKernel call) :=
  match call with
  | .mapPage caller vaddr =>
      decidable_of_iff (vaddr % kPageSize4M = 0 → isReplicated vaddr = true →
        (kernel.tasks caller).all (fun task =>
          kernel.paging.isVirtualMapped task.pageDirectory vaddr) = true)
        (by simp [SparesKernel, Option.all_eq_true])
  | .unmapPage caller vaddr =>
      decidable_of_iff (vaddr % kPageSize4M = 0 → isReplicated vaddr = true →
        (kernel.tasks caller).all (fun task =>
          !kernel.paging.isVirtualMapped task.pageDirectory vaddr) = true)
        (by simp [SparesKernel, Option.all_eq_true])
  | .createUserTask _ _ _ _ _ _ => inferInstanceAs (Decidable True)
  | .kernelJumpToUserEntry _ _ _ _ => inferInstanceAs (Decidable True)
  | .destroyUserTask _ => inferInstanceAs (Decidable True)
  | .exit _ => inferInstanceAs (Decidable True)
  | .sharePage _ _ _ => inferInstanceAs (Decidable True)
  | .growHeap _ => inferInstanceAs (Decidable True)

end Kernel

end ToyKernel
