import ToyKernel.Kernel.Calls

/-!
Address-space isolation. As long as no page is shared and only mapped pages are
unmapped, a frame that user mode can reach has exactly one mapping in the whole
system. The reference counts never wrap, because every page directory maps a frame
at most once.
-/

namespace ToyKernel

open Library Paging

namespace Paging

def UserMaps (state : Paging) (pd : PageDirPtr) (index frame : Nat) : Prop :=
  index < 1024 ∧ userAccessible (state.pageDirs pd index) = true ∧
    frameOf (state.pageDirs pd index) = some frame

instance (state : Paging) (pd : PageDirPtr) (index frame : Nat) :
    Decidable (state.UserMaps pd index frame) :=
  inferInstanceAs (Decidable (_ ∧ _ ∧ _))

structure Isolated (state : Paging) : Prop where
  counted : ∀ frame < 1024, Counted state frame
  single : ∀ pd ∈ state.live, ∀ frame, state.mapCount pd frame ≤ 1
  exclusive : ∀ pd ∈ state.live, ∀ index frame, state.UserMaps pd index frame →
    state.mappings frame = 1
  kernelOnly : ∀ index frame, ¬state.UserMaps .kernel index frame

variable {old new state : Paging} {targets : Finset PageDirPtr} {index page slot : Nat}
  {entry : UInt32} {pd : PageDirPtr}

theorem fits_of_single (single : ∀ pd ∈ state.live, ∀ frame, state.mapCount pd frame ≤ 1)
    (frame : Nat) : state.mappings frame + reserved frame < 65536 := by
  have bound := mappings_le fun pd isLive => single pd isLive frame
  have small := reserved_le frame
  omega

theorem UserMaps.mapped {frame : Nat} (maps : state.UserMaps pd index frame)
    (isLive : pd ∈ state.live) : 0 < state.mappings frame :=
  mappings_pos isLive maps.1 maps.2.2

section Fewer

theorem entry_kept (entries : ∀ pd ∈ new.live, ∀ index, new.pageDirs pd index = old.pageDirs pd index ∨
      present (new.pageDirs pd index) = false) {frame : Nat} (isLive : pd ∈ new.live)
    (maps : frameOf (new.pageDirs pd index) = some frame) : new.pageDirs pd index = old.pageDirs pd index := by
  rcases entries pd isLive index with same | absent
  · exact same
  · rw [frameOf_eq_none.mpr absent] at maps
    cases maps

theorem userMaps_kept (entries : ∀ pd ∈ new.live, ∀ index, new.pageDirs pd index = old.pageDirs pd index ∨
      present (new.pageDirs pd index) = false) {frame : Nat} (isLive : pd ∈ new.live)
    (maps : new.UserMaps pd index frame) : old.UserMaps pd index frame := by
  have same := entry_kept entries isLive maps.2.2
  rw [UserMaps, same] at maps
  exact maps

theorem mapCount_fewer (entries : ∀ pd ∈ new.live, ∀ index, new.pageDirs pd index = old.pageDirs pd index ∨
      present (new.pageDirs pd index) = false) (isLive : pd ∈ new.live) (frame : Nat) :
    new.mapCount pd frame ≤ old.mapCount pd frame := by
  apply occurrences_mono
  intro index _ maps
  rw [entry_kept entries isLive maps] at maps
  exact maps

end Fewer

theorem Isolated.fewer (isolated : Isolated old) (counted : ∀ frame < 1024, Counted new frame)
    (live : ∀ pd ∈ new.live, pd ∈ old.live)
    (entries : ∀ pd ∈ new.live, ∀ index, new.pageDirs pd index = old.pageDirs pd index ∨
      present (new.pageDirs pd index) = false)
    (mappings : ∀ frame, new.mappings frame ≤ old.mappings frame) : Isolated new := by
  constructor
  · exact counted
  · intro pd isLive frame
    exact Nat.le_trans (mapCount_fewer entries isLive frame) (isolated.single pd (live pd isLive) frame)
  · intro pd isLive index frame maps
    have before := isolated.exclusive pd (live pd isLive) index frame (userMaps_kept entries isLive maps)
    have positive := maps.mapped isLive
    have fewer := mappings frame
    omega
  · intro index frame maps
    exact isolated.kernelOnly index frame (userMaps_kept entries (kernel_mem_live new) maps)

theorem Equivalent.isolated (equivalent : Equivalent old new) (isolated : Isolated old) :
    Isolated new := by
  apply isolated.fewer
  · intro frame bound
    exact equivalent.counted (isolated.counted frame bound)
  · intro pd isLive
    rwa [live_congr (slots_congr equivalent.region)] at isLive
  · intro pd _ index
    rcases equivalent.entries pd index with same | ⟨_, zeroed⟩
    · exact Or.inl same
    · rw [zeroed]
      exact Or.inr present_zero
  · intro frame
    rw [equivalent.mappings]

theorem Cleared.isolated (cleared : Cleared old new {pd} index page) (isolated : Isolated old)
    (isLive : pd ∈ old.live) (bound : index < 1024)
    (maps : frameOf (old.pageDirs pd index) = some page) : Isolated new := by
  have listed : ({pd} : Finset PageDirPtr) ⊆ old.live := by
    simpa using isLive
  have allMap : ∀ query ∈ ({pd} : Finset PageDirPtr),
      frameOf (old.pageDirs query index) = some page := by
    intro query member
    rw [Finset.mem_singleton.mp member]
    exact maps
  apply isolated.fewer
  · intro frame below
    exact cleared.counted (isolated.counted frame below) listed bound allMap
  · intro query member
    rwa [cleared.live] at member
  · intro query _ i
    rw [cleared.pageDirs]
    split
    · exact Or.inr present_zero
    · exact Or.inl rfl
  · intro frame
    have removed := cleared.mappings listed bound allMap frame
    omega

theorem Reclaimed.isolated (reclaimed : Reclaimed old new slot) (isolated : Isolated old)
    (listed : slot ∈ old.slots) : Isolated new := by
  apply isolated.fewer
  · intro frame bound
    exact reclaimed.counted (isolated.counted frame bound) listed
  · intro query isLive
    exact (reclaimed.mem_live.mp isLive).1
  · intro query _ i
    rw [reclaimed.pageDirs]
    exact Or.inl rfl
  · intro frame
    have removed := reclaimed.mappings listed frame
    omega

/-- A page on an unused frame keeps the isolation if at most one new entry is for user mode. -/
theorem Installed.isolated (installed : Installed old new targets index entry page)
    (isolated : Isolated old) (listed : targets ⊆ old.live) (nonempty : targets.Nonempty)
    (bound : index < 1024) (maps : frameOf entry = some page) (frameBound : page < 1024)
    (unused : old.frameUsed page = false)
    (private_ : userAccessible entry = true → targets.card = 1 ∧ .kernel ∉ targets) :
    Isolated new := by
  have free := ((isolated.counted page frameBound).free unused).1
  have live := installed.live
  have added := installed.mappings listed bound maps
  have single : ∀ pd ∈ new.live, ∀ frame, new.mapCount pd frame ≤ 1 := by
    intro pd isLive frame
    rw [live] at isLive
    by_cases same : frame = page
    · rw [same]
      exact installed.mapCount_fresh free isLive
    · exact Nat.le_trans (installed.mapCount_other maps pd same) (isolated.single pd isLive frame)
  constructor
  · intro frame below
    exact installed.counted (isolated.counted frame below) listed nonempty bound maps
      (fits_of_single single frame)
  · exact single
  · intro pd isLive i frame userMaps
    rw [live] at isLive
    rw [added]
    rw [UserMaps, installed.pageDirs] at userMaps
    split at userMaps
    · obtain ⟨_, user, holds⟩ := userMaps
      rw [maps] at holds
      rw [if_pos (Option.some.inj holds).symm, (private_ user).1, ← Option.some.inj holds, free]
    · have before := isolated.exclusive pd isLive i frame userMaps
      have different : frame ≠ page := by
        rintro rfl
        omega
      rw [if_neg different, before]
  · intro i frame userMaps
    rw [UserMaps, installed.pageDirs] at userMaps
    split at userMaps
    · rename_i target
      exact (private_ userMaps.2.1).2 target.1
    · exact isolated.kernelOnly i frame userMaps

theorem Cloned.isolated (cloned : Cloned old new .kernel slot) (isolated : Isolated old) :
    Isolated new := by
  have single : ∀ pd ∈ new.live, ∀ frame, new.mapCount pd frame ≤ 1 := by
    intro pd isLive frame
    rw [mapCount, cloned.pageDirs]
    rcases cloned.mem_live.mp isLive with rfl | before
    · rw [if_pos rfl]
      exact isolated.single .kernel (kernel_mem_live old) frame
    · split
      · exact isolated.single .kernel (kernel_mem_live old) frame
      · exact isolated.single pd before frame
  constructor
  · intro frame below
    exact cloned.counted (isolated.counted frame below) (kernel_mem_live old)
      (fits_of_single single frame)
  · exact single
  · intro pd isLive i frame userMaps
    rw [UserMaps, cloned.pageDirs] at userMaps
    by_cases isNew : pd = .region slot
    · rw [if_pos isNew] at userMaps
      exact absurd userMaps (isolated.kernelOnly i frame)
    · rw [if_neg isNew] at userMaps
      have before := (cloned.mem_live.mp isLive).resolve_left isNew
      have once := isolated.exclusive pd before i frame userMaps
      have notKernel : pd ≠ .kernel := by
        rintro rfl
        exact isolated.kernelOnly i frame userMaps
      have elsewhere : old.mapCount .kernel frame = 0 := by
        by_contra mapped
        obtain ⟨j, member, kernelMaps⟩ := exists_of_occurrences_pos (Nat.pos_of_ne_zero mapped)
        have same := eq_of_occurrences_le_one (Nat.le_of_eq once)
          (mem_keys.mpr ⟨before, userMaps.1⟩ : (pd, i) ∈ old.keys)
          (mem_keys.mpr ⟨kernel_mem_live old, mem_indices.mp member⟩ : (PageDirPtr.kernel, j) ∈ old.keys)
          userMaps.2.2 kernelMaps
        exact notKernel (congrArg Prod.fst same)
      rw [cloned.mappings, once, elsewhere]
  · intro i frame userMaps
    rw [UserMaps, cloned.pageDirs, if_neg (by simp)] at userMaps
    exact isolated.kernelOnly i frame userMaps

theorem Initialized.isolated (initialized : Initialized state) : Isolated state := by
  have kernelEntries : ∀ index, userAccessible (state.pageDirs .kernel index) = false := by
    intro index
    rw [initialized.kernel]
    split
    · decide
    · split
      · decide
      · decide
  have noUsers : ∀ pd ∈ state.live, ∀ index frame, ¬state.UserMaps pd index frame := by
    intro pd isLive index frame maps
    have user := maps.2.1
    rw [initialized.only_kernel isLive, kernelEntries] at user
    cases user
  constructor
  · intro frame bound
    exact initialized.counted bound
  · intro pd isLive frame
    have part := mapCount_le_mappings isLive frame
    have total := initialized.mappings frame
    split at total <;> omega
  · intro pd isLive index frame maps
    exact absurd maps (noUsers pd isLive index frame)
  · exact noUsers .kernel (kernel_mem_live state)

end Paging

def Edit.IsPrivate : Edit → Prop
  | .sharedPage _ _ _ _ _ => False
  | .unmapAbsent _ _ => False
  | _ => True

theorem Edit.isolated {edit : Edit} {old new : Paging} (allowed : edit.IsPrivate)
    (isolated : Isolated old) (applied : edit.Applies old new) : Isolated new := by
  cases edit with
  | temporary => exact Equivalent.isolated applied isolated
  | kernelPage vaddr paddr =>
      obtain ⟨_, unused, _, installed⟩ := applied
      refine installed.isolated isolated (targets_subset_live (kernel_mem_live old))
        ⟨.kernel, self_mem_targets _ _ _⟩ (pageIndex4M_lt vaddr) (frameOf_pageEntry paddr 0)
        (pageIndex4M_lt paddr) unused ?_
      intro user
      rw [userAccessible_pageEntry] at user
      exact absurd user (by decide)
  | userPage slot vaddr paddr =>
      obtain ⟨listed, _, unused, installed⟩ := applied
      refine installed.isolated isolated (by simpa using listed) (Finset.singleton_nonempty _)
        (pageIndex4M_lt vaddr) (frameOf_pageEntry paddr _) (pageIndex4M_lt paddr) unused ?_
      intro _
      exact ⟨Finset.card_singleton _, by simp⟩
  | sharedPage slot source src vaddr paddr => exact absurd allowed id
  | unmap pd vaddr =>
      obtain ⟨isLive, _, _, isPresent, cleared⟩ := applied
      exact cleared.isolated isolated isLive (pageIndex4M_lt vaddr)
        (frameOf_eq_some.mpr ⟨isPresent, rfl⟩)
  | unmapAbsent slot vaddr => exact absurd allowed id
  | clone slot => exact Cloned.isolated applied isolated
  | reclaim slot => exact applied.2.isolated isolated applied.1

namespace Kernel

/-- No page is shared, and only pages that are mapped are unmapped. -/
def KeepsPrivate (kernel : Kernel) : Call → Prop
  | .sharePage _ _ _ => False
  | .unmapPage caller vaddr => ∃ task, kernel.tasks caller = some task ∧
      kernel.paging.isVirtualMapped task.pageDirectory vaddr = true
  | _ => True

theorem callEdit_private {kernel : Kernel} {call : Call} {edit : Edit}
    (condition : kernel.KeepsPrivate call) (allowed : kernel.CallEdit call edit) :
    edit.IsPrivate := by
  cases call with
  | destroyUserTask handle =>
      obtain ⟨slot, _, rfl⟩ := allowed
      exact True.intro
  | mapPage caller vaddr =>
      obtain ⟨slot, paddr, _, _, rfl⟩ := allowed
      exact True.intro
  | unmapPage caller vaddr =>
      obtain ⟨slot, uses, rfl⟩ := allowed
      obtain ⟨task, found, mapped⟩ := condition
      have owner := owner_of found
      rw [uses] at owner
      obtain ⟨same, _⟩ := Prod.mk.inj (Option.some.inj owner)
      rw [if_pos (by rw [same]; exact mapped)]
      exact True.intro
  | sharePage caller handle src => exact absurd condition id
  | createUserTask _ _ _ _ _ _ => exact absurd allowed id
  | kernelJumpToUserEntry _ _ _ _ => exact absurd allowed id
  | exit _ => exact absurd allowed id
  | growHeap _ => exact absurd allowed id

theorem creation_private {edit : Edit} (creation : edit.IsCreation) : edit.IsPrivate := by
  obtain ⟨slot, rfl | setup⟩ := creation
  · exact True.intro
  · cases edit with
    | sharedPage _ _ _ _ _ => exact absurd setup id
    | unmapAbsent _ _ => exact absurd setup id
    | _ => exact True.intro

theorem boot_private {edit : Edit} (boot : IsBoot edit) : edit.IsPrivate := by
  cases edit with
  | sharedPage _ _ _ _ _ => exact absurd boot id
  | unmapAbsent _ _ => exact absurd boot id
  | _ => exact True.intro

theorem within_isolated {Allowed : Edit → Prop} (keeps : ∀ edit, Allowed edit → edit.IsPrivate)
    {old new : Paging} (within : edits.Within Allowed old new) (isolated : Isolated old) :
    Isolated new := by
  refine within.preserves Isolated ?_ isolated
  intro state edit after allowed before applied
  exact Edit.isolated (keeps edit allowed) before applied

theorem perform_isolated {kernel after : Kernel} {call : Call} (owned : Owned kernel)
    (isolated : Isolated kernel.paging) (enabled : kernel.Enabled call) (condition : kernel.KeepsPrivate call)
    (performed : kernel.perform call = .ok after) : Isolated after.paging := by
  obtain ⟨_, unchanged | within | ⟨edit, allowed, applied⟩⟩ := perform_cases owned enabled performed
  · rw [unchanged]
    exact isolated
  · exact within_isolated (fun _ => creation_private) within isolated
  · exact Edit.isolated (callEdit_private condition allowed) isolated applied

theorem kernelSetup_isolated {highMemKB : UInt32} {slots : Nat → PageDirectory} {memory : Memory}
    {scheduler : List UInt32} {initrd : Option (List UInt32)} {kernel : Kernel}
    (run : kernelSetup highMemKB slots memory scheduler initrd = .ok kernel) : Isolated kernel.paging := by
  obtain ⟨_, start, initialized, within⟩ := kernelSetup_edits run
  exact within_isolated (fun _ => boot_private) within initialized.isolated

theorem reachable_isolated {kernel : Kernel} (reachable : (runs KeepsPrivate).Reachable kernel) :
    Owned kernel ∧ Isolated kernel.paging := by
  refine reachable.invariant (fun state => Owned state ∧ Isolated state.paging) ?_ ?_
  · rintro state ⟨highMemKB, slots, memory, scheduler, initrd, run⟩
    exact ⟨(kernelSetup_edits run).1, kernelSetup_isolated run⟩
  · rintro state call after ⟨owned, isolated⟩ ⟨enabled, condition, performed⟩
    exact ⟨(perform_cases owned enabled performed).1, perform_isolated owned isolated enabled condition performed⟩

/-- The frames that user mode reaches in one task are reached nowhere else: not in
another task, not at another address, and not by the kernel. -/
structure UserFramesIsolated (kernel : Kernel) : Prop where
  tasks : ∀ left right leftTask rightTask, kernel.tasks left = some leftTask →
    kernel.tasks right = some rightTask → leftTask.isUserTask = true → rightTask.isUserTask = true →
    left ≠ right → ∀ i j frame, kernel.paging.UserMaps leftTask.pageDirectory i frame →
      ¬kernel.paging.UserMaps rightTask.pageDirectory j frame
  entries : ∀ left ∈ kernel.paging.live, ∀ right ∈ kernel.paging.live, ∀ i j frame,
    kernel.paging.UserMaps left i frame → kernel.paging.UserMaps right j frame → left = right ∧ i = j
  kernel : ∀ pd ∈ kernel.paging.live, ∀ i frame, kernel.paging.UserMaps pd i frame → ∀ j < 1024,
    frameOf (kernel.paging.pageDirs .kernel j) ≠ some frame

theorem Isolated.userFrames {kernel : Kernel} (isolated : Isolated kernel.paging) (owned : Owned kernel) :
    UserFramesIsolated kernel := by
  have unique : ∀ left ∈ kernel.paging.live, ∀ right ∈ kernel.paging.live, ∀ i j frame,
      kernel.paging.UserMaps left i frame → j < 1024 →
      frameOf (kernel.paging.pageDirs right j) = some frame → left = right ∧ i = j := by
    intro left leftLive right rightLive i j frame maps below otherMaps
    have once := isolated.exclusive left leftLive i frame maps
    have same := eq_of_occurrences_le_one (Nat.le_of_eq once)
      (mem_keys.mpr ⟨leftLive, maps.1⟩ : (left, i) ∈ kernel.paging.keys)
      (mem_keys.mpr ⟨rightLive, below⟩ : (right, j) ∈ kernel.paging.keys) maps.2.2 otherMaps
    exact Prod.mk.inj same
  have userLive : ∀ handle task, kernel.tasks handle = some task → task.isUserTask = true →
      kernel.owner handle = some (task.pageDirectory, true) ∧ task.pageDirectory ∈ kernel.paging.live := by
    intro handle task found isUser
    have owner := owner_of found
    rw [isUser] at owner
    obtain ⟨slot, listed, uses⟩ := owned.userTasks handle _ owner
    refine ⟨owner, ?_⟩
    rw [uses]
    exact region_mem_live.mpr listed
  refine ⟨?_, ?_, ?_⟩
  · intro left right leftTask rightTask leftFound rightFound leftUser rightUser different i j frame
      leftMaps rightMaps
    obtain ⟨leftOwner, leftLive⟩ := userLive left leftTask leftFound leftUser
    obtain ⟨rightOwner, rightLive⟩ := userLive right rightTask rightFound rightUser
    obtain ⟨same, _⟩ := unique _ leftLive _ rightLive i j frame leftMaps rightMaps.1 rightMaps.2.2
    rw [← same] at rightOwner
    exact different (owned.distinct left right _ leftOwner rightOwner)
  · intro left leftLive right rightLive i j frame leftMaps rightMaps
    exact unique left leftLive right rightLive i j frame leftMaps rightMaps.1 rightMaps.2.2
  · intro pd isLive i frame maps j below kernelMaps
    obtain ⟨isKernel, _⟩ := unique pd isLive .kernel (kernel_mem_live _) i j frame maps below kernelMaps
    rw [isKernel] at maps
    exact isolated.kernelOnly i frame maps

instance (kernel : Kernel) (call : Call) : Decidable (kernel.KeepsPrivate call) :=
  match call with
  | .sharePage _ _ _ => inferInstanceAs (Decidable False)
  | .unmapPage caller vaddr =>
      decidable_of_iff ((kernel.tasks caller).any (fun task =>
        kernel.paging.isVirtualMapped task.pageDirectory vaddr) = true)
        (by simp [KeepsPrivate, Option.any_eq_true])
  | .createUserTask _ _ _ _ _ _ => inferInstanceAs (Decidable True)
  | .kernelJumpToUserEntry _ _ _ _ => inferInstanceAs (Decidable True)
  | .destroyUserTask _ => inferInstanceAs (Decidable True)
  | .exit _ => inferInstanceAs (Decidable True)
  | .mapPage _ _ => inferInstanceAs (Decidable True)
  | .growHeap _ => inferInstanceAs (Decidable True)

end Kernel

end ToyKernel
