import ToyKernel.Kernel.Isolation

/-!
Kernel memory and user mode. `share_page` maps whatever frame the other task's page
directory names, also one of the kernel's own; every other call keeps the frames of
the kernel regions out of reach. Frame 0 is left out of the counts: unmapping a page
that is not mapped releases it, but the kernel regions never use it.
-/

namespace ToyKernel

open Library Paging

namespace Paging

structure Hidden (state : Paging) : Prop where
  counted : ∀ frame < 1024, frame ≠ 0 → Counted state frame
  absent : ∀ pd ∈ state.live, ∀ index < 1024, present (state.pageDirs pd index) = false →
    state.pageDirs pd index = 0
  firstFrame : ∀ index < 1024, isReplicated (pageAddr4M index) = true →
    frameOf (state.pageDirs .kernel index) ≠ some 0
  kernelOnly : ∀ index frame, ¬state.UserMaps .kernel index frame
  single : ∀ frame ≠ 0, state.mapCount .kernel frame ≠ 0 → ∀ pd ∈ state.live,
    state.mapCount pd frame ≤ 1
  hidden : ∀ pd ∈ state.live, ∀ i frame, state.UserMaps pd i frame → ∀ j < 1024,
    isReplicated (pageAddr4M j) = true → frameOf (state.pageDirs .kernel j) ≠ some frame

variable {old new state : Paging} {targets : Finset PageDirPtr} {index page slot : Nat}
  {entry : UInt32} {pd : PageDirPtr}

theorem Hidden.fewer (isHidden : Hidden old)
    (counted : ∀ frame < 1024, frame ≠ 0 → Counted new frame)
    (live : ∀ pd ∈ new.live, pd ∈ old.live)
    (entries : ∀ pd ∈ new.live, ∀ index, new.pageDirs pd index = old.pageDirs pd index ∨
      new.pageDirs pd index = 0) : Hidden new := by
  have absent : ∀ pd ∈ new.live, ∀ index, new.pageDirs pd index = old.pageDirs pd index ∨
      present (new.pageDirs pd index) = false := by
    intro pd isLive index
    refine (entries pd isLive index).imp_right fun zeroed => ?_
    rw [zeroed]
    exact present_zero
  have kernelLive := kernel_mem_live new
  constructor
  · exact counted
  · intro pd isLive index bound isAbsent
    rcases entries pd isLive index with same | zeroed
    · rw [same] at isAbsent ⊢
      exact isHidden.absent pd (live pd isLive) index bound isAbsent
    · exact zeroed
  · intro index bound replicated maps
    have same := entry_kept absent kernelLive maps
    rw [same] at maps
    exact isHidden.firstFrame index bound replicated maps
  · intro index frame maps
    exact isHidden.kernelOnly index frame (userMaps_kept absent kernelLive maps)
  · intro frame nonzero mapped pd isLive
    have kernelFewer := mapCount_fewer absent kernelLive frame
    exact Nat.le_trans (mapCount_fewer absent isLive frame)
      (isHidden.single frame nonzero (by omega) pd (live pd isLive))
  · intro pd isLive i frame maps j bound replicated kernelMaps
    have same := entry_kept absent kernelLive kernelMaps
    rw [same] at kernelMaps
    exact isHidden.hidden pd (live pd isLive) i frame (userMaps_kept absent isLive maps) j bound replicated
      kernelMaps

theorem Equivalent.hidden (equivalent : Equivalent old new) (isHidden : Hidden old) : Hidden new := by
  apply isHidden.fewer
  · intro frame bound nonzero
    exact equivalent.counted (isHidden.counted frame bound nonzero)
  · intro pd isLive
    rwa [live_congr (slots_congr equivalent.region)] at isLive
  · intro pd _ index
    rcases equivalent.entries pd index with same | ⟨_, zeroed⟩
    · exact Or.inl same
    · exact Or.inr zeroed

theorem Cleared.hidden (cleared : Cleared old new {pd} index page) (isHidden : Hidden old)
    (isLive : pd ∈ old.live) (bound : index < 1024)
    (maps : frameOf (old.pageDirs pd index) = some page ∨
      (present (old.pageDirs pd index) = false ∧ page = 0)) : Hidden new := by
  apply isHidden.fewer
  · intro frame below nonzero
    rcases maps with mapped | ⟨isAbsent, zero⟩
    · refine cleared.counted (isHidden.counted frame below nonzero) (by simpa using isLive) bound ?_
      intro query member
      rw [Finset.mem_singleton.mp member]
      exact mapped
    · have before := isHidden.counted frame below nonzero
      have other : frame ≠ page := by omega
      have same : new.mappings frame = old.mappings frame := by
        rw [Paging.mappings, Paging.mappings, keys_congr cleared.region]
        apply occurrences_congr
        rintro ⟨query, i⟩ _
        rw [table, table, cleared.pageDirs]
        split
        · rename_i here
          obtain ⟨member, rfl⟩ := here
          rw [Finset.mem_singleton.mp member, frameOf_zero, frameOf_eq_none.mpr isAbsent]
        · rfl
      refine ⟨?_, ?_⟩
      · rw [cleared.count, if_neg other, same]
        exact before.count
      · rw [cleared.used, cleared.count, if_neg other, before.used]
        simp [other]
  · intro query member
    rwa [cleared.live] at member
  · intro query _ i
    rw [cleared.pageDirs]
    split
    · exact Or.inr rfl
    · exact Or.inl rfl

theorem Reclaimed.hidden (reclaimed : Reclaimed old new slot) (isHidden : Hidden old)
    (listed : slot ∈ old.slots) : Hidden new := by
  apply isHidden.fewer
  · intro frame bound nonzero
    exact reclaimed.counted (isHidden.counted frame bound nonzero) listed
  · intro query isLive
    exact (reclaimed.mem_live.mp isLive).1
  · intro query _ i
    rw [reclaimed.pageDirs]
    exact Or.inl rfl

/-- A new page keeps kernel memory hidden when its frame is not a kernel frame, or
when it is a page of the kernel on a frame that nobody maps. -/
theorem Installed.hidden (installed : Installed old new targets index entry page)
    (isHidden : Hidden old) (listed : targets ⊆ old.live) (nonempty : targets.Nonempty)
    (bound : index < 1024) (maps : frameOf entry = some page)
    (limit : page ≠ 0 → new.mappings page + reserved page < 65536)
    (single : page ≠ 0 → new.mapCount .kernel page ≠ 0 → ∀ pd ∈ old.live, new.mapCount pd page ≤ 1)
    (user : userAccessible entry = true → .kernel ∉ targets ∧ ∀ j < 1024,
      isReplicated (pageAddr4M j) = true → frameOf (old.pageDirs .kernel j) ≠ some page)
    (kernel : .kernel ∈ targets → isReplicated (pageAddr4M index) = true →
      page ≠ 0 ∧ old.mappings page = 0) : Hidden new := by
  have live := installed.live
  have isPresent := (frameOf_eq_some.mp maps).1
  constructor
  · intro frame below nonzero
    have before := isHidden.counted frame below nonzero
    refine installed.counted before listed nonempty bound maps ?_
    by_cases same : frame = page
    · rw [same]
      exact limit (same ▸ nonzero)
    · have small := old.physicalBitmap.count_lt frame
      have exact_ := before.count
      change old.count frame < 65536 at small
      rw [installed.mappings listed bound maps, if_neg same]
      omega
  · intro pd isLive i below isAbsent
    rw [installed.pageDirs] at isAbsent ⊢
    split at isAbsent
    · rw [isPresent] at isAbsent
      cases isAbsent
    · rename_i elsewhere
      rw [if_neg elsewhere]
      rw [live] at isLive
      exact isHidden.absent pd isLive i below isAbsent
  · intro i below replicated holds
    rw [installed.pageDirs] at holds
    split at holds
    · rename_i here
      rw [maps] at holds
      exact (kernel here.1 (here.2 ▸ replicated)).1 (Option.some.inj holds)
    · exact isHidden.firstFrame i below replicated holds
  · intro i frame userMaps
    rw [UserMaps, installed.pageDirs] at userMaps
    split at userMaps
    · rename_i here
      exact (user userMaps.2.1).1 here.1
    · exact isHidden.kernelOnly i frame userMaps
  · intro frame nonzero mapped pd isLive
    rw [live] at isLive
    by_cases same : frame = page
    · subst same
      exact single nonzero mapped pd isLive
    · have fewer := installed.mapCount_other maps .kernel same
      exact Nat.le_trans (installed.mapCount_other maps pd same)
        (isHidden.single frame nonzero (by omega) pd isLive)
  · intro pd isLive i frame userMaps j below replicated kernelMaps
    rw [live] at isLive
    rw [UserMaps, installed.pageDirs] at userMaps
    rw [installed.pageDirs] at kernelMaps
    split at userMaps
    · obtain ⟨outside, notKernel⟩ := user userMaps.2.1
      have same := userMaps.2.2
      rw [maps] at same
      rw [if_neg (by simp [outside]), ← Option.some.inj same] at kernelMaps
      exact notKernel j below replicated kernelMaps
    · split at kernelMaps
      · rename_i here
        rw [maps] at kernelMaps
        have positive := mappings_pos isLive userMaps.1 userMaps.2.2
        rw [← Option.some.inj kernelMaps, (kernel here.1 (here.2 ▸ replicated)).2] at positive
        omega
      · exact isHidden.hidden pd isLive i frame userMaps j below replicated kernelMaps

theorem Cloned.hidden (cloned : Cloned old new .kernel slot) (isHidden : Hidden old) : Hidden new := by
  have sameKernel : ∀ i, new.pageDirs .kernel i = old.pageDirs .kernel i := by
    intro i
    rw [cloned.pageDirs, if_neg (by simp)]
  have copied : ∀ pd ∈ new.live, ∃ source ∈ old.live, new.pageDirs pd = old.pageDirs source ∧
      (source = pd ∨ source = .kernel) := by
    intro pd isLive
    rw [cloned.pageDirs]
    by_cases isNew : pd = .region slot
    · rw [if_pos isNew]
      exact ⟨.kernel, kernel_mem_live old, rfl, Or.inr rfl⟩
    · rw [if_neg isNew]
      exact ⟨pd, (cloned.mem_live.mp isLive).resolve_left isNew, rfl, Or.inl rfl⟩
  constructor
  · intro frame below nonzero
    have before := isHidden.counted frame below nonzero
    refine cloned.counted before (kernel_mem_live old) ?_
    have small := old.physicalBitmap.count_lt frame
    have exact_ := before.count
    change old.count frame < 65536 at small
    rw [cloned.mappings]
    by_cases mapped : old.mapCount .kernel frame = 0
    · omega
    · have once := isHidden.single frame nonzero mapped
      have total := mappings_le once
      have part := once .kernel (kernel_mem_live old)
      have reservation := reserved_le frame
      omega
  · intro pd isLive i below isAbsent
    obtain ⟨source, sourceLive, same, _⟩ := copied pd isLive
    rw [same] at isAbsent ⊢
    exact isHidden.absent source sourceLive i below isAbsent
  · intro i below replicated holds
    rw [sameKernel] at holds
    exact isHidden.firstFrame i below replicated holds
  · intro i frame userMaps
    rw [UserMaps, sameKernel] at userMaps
    exact isHidden.kernelOnly i frame userMaps
  · intro frame nonzero mapped pd isLive
    rw [cloned.mapCount_kernel] at mapped
    obtain ⟨source, sourceLive, same, _⟩ := copied pd isLive
    rw [mapCount, same]
    exact isHidden.single frame nonzero mapped source sourceLive
  · intro pd isLive i frame userMaps j below replicated kernelMaps
    obtain ⟨source, sourceLive, same, rfl | rfl⟩ := copied pd isLive
    · rw [UserMaps, same] at userMaps
      rw [sameKernel] at kernelMaps
      exact isHidden.hidden source sourceLive i frame userMaps j below replicated kernelMaps
    · rw [UserMaps, same] at userMaps
      exact isHidden.kernelOnly i frame userMaps

theorem Initialized.hidden (initialized : Initialized state) : Hidden state := by
  have isolated := initialized.isolated
  constructor
  · intro frame bound _
    exact initialized.counted bound
  · intro pd isLive i _ isAbsent
    rw [initialized.only_kernel isLive, initialized.kernel] at isAbsent ⊢
    split at isAbsent
    · rw [present_pageEntry] at isAbsent
      cases isAbsent
    · split at isAbsent
      · rw [present_pageEntry] at isAbsent
        cases isAbsent
      · rename_i notFirst notSecond
        rw [if_neg notFirst, if_neg notSecond]
  · intro i bound _ holds
    have positive := mappings_pos (kernel_mem_live state) bound holds
    rw [initialized.mappings] at positive
    simp at positive
  · exact isolated.kernelOnly
  · intro frame _ _ pd isLive
    exact isolated.single pd isLive frame
  · intro pd isLive i frame userMaps
    rw [initialized.only_kernel isLive] at userMaps
    exact absurd userMaps (isolated.kernelOnly i frame)

end Paging

def Edit.SharesUserFrame (state : Paging) : Edit → Prop
  | .sharedPage _ _ _ _ paddr => state.mapCount .kernel (pageIndex4M paddr) = 0 ∧
      state.count (pageIndex4M paddr) < 65535
  | _ => True

theorem Edit.hidden {edit : Edit} {old new : Paging} (condition : edit.SharesUserFrame old)
    (isHidden : Hidden old) (applied : edit.Applies old new) : Hidden new := by
  cases edit with
  | temporary => exact Equivalent.hidden applied isHidden
  | kernelPage vaddr paddr =>
      obtain ⟨aligned, unused, nonzero, installed⟩ := applied
      have listed : old.targets .kernel vaddr ⊆ old.live := targets_subset_live (kernel_mem_live old)
      have free : pageIndex4M paddr ≠ 0 → old.mappings (pageIndex4M paddr) = 0 := fun other =>
        ((isHidden.counted _ (pageIndex4M_lt paddr) other).free unused).1
      have maps := frameOf_pageEntry paddr 0
      refine installed.hidden isHidden listed ⟨.kernel, self_mem_targets _ _ _⟩
        (pageIndex4M_lt vaddr) maps ?_ ?_ ?_ ?_
      · intro other
        have card := Finset.card_le_card listed
        have few := old.live_card_le
        have reservation := reserved_le (pageIndex4M paddr)
        rw [installed.mappings listed (pageIndex4M_lt vaddr) maps, if_pos rfl, free other]
        omega
      · intro other _ pd isLive
        exact installed.mapCount_fresh (free other) isLive
      · intro user
        rw [userAccessible_pageEntry] at user
        exact absurd user (by decide)
      · intro _ replicated
        rw [pageAddr4M_pageIndex4M aligned] at replicated
        exact ⟨nonzero replicated, free (nonzero replicated)⟩
  | userPage slot vaddr paddr =>
      obtain ⟨isSlot, _, unused, installed⟩ := applied
      have listed : {.region slot} ⊆ old.live := by simpa using isSlot
      have free : pageIndex4M paddr ≠ 0 → old.mappings (pageIndex4M paddr) = 0 := fun other =>
        ((isHidden.counted _ (pageIndex4M_lt paddr) other).free unused).1
      have maps := frameOf_pageEntry paddr pgUser.toUInt8
      refine installed.hidden isHidden listed (Finset.singleton_nonempty _) (pageIndex4M_lt vaddr)
        maps ?_ ?_ ?_ (by simp)
      · intro other
        have reservation := reserved_le (pageIndex4M paddr)
        rw [installed.mappings listed (pageIndex4M_lt vaddr) maps, if_pos rfl, free other,
          Finset.card_singleton]
        omega
      · intro other mapped
        rw [installed.mapCount_kernel (by simp)] at mapped
        have part := mapCount_le_mappings (kernel_mem_live old) (pageIndex4M paddr)
        have none := free other
        omega
      · intro _
        refine ⟨by simp, ?_⟩
        intro j below replicated
        by_cases first : pageIndex4M paddr = 0
        · rw [first]
          exact isHidden.firstFrame j below replicated
        · exact unmapped_of_mappings (free first) (kernel_mem_live old) below
  | sharedPage slot source src vaddr paddr =>
      obtain ⟨isSlot, _, _, _, _, installed⟩ := applied
      obtain ⟨notKernel, fits⟩ := condition
      have listed : {.region slot} ⊆ old.live := by simpa using isSlot
      have maps := frameOf_pageEntry paddr pgUser.toUInt8
      refine installed.hidden isHidden listed (Finset.singleton_nonempty _) (pageIndex4M_lt vaddr)
        maps ?_ ?_ ?_ (by simp)
      · intro other
        have exact_ := (isHidden.counted _ (pageIndex4M_lt paddr) other).count
        rw [installed.mappings listed (pageIndex4M_lt vaddr) maps, if_pos rfl, Finset.card_singleton]
        omega
      · intro _ mapped
        rw [installed.mapCount_kernel (by simp)] at mapped
        exact absurd notKernel mapped
      · intro _
        exact ⟨by simp, fun j below _ => unmapped_of_mapCount notKernel below⟩
  | unmap pd vaddr =>
      obtain ⟨isLive, _, _, isPresent, cleared⟩ := applied
      exact cleared.hidden isHidden isLive (pageIndex4M_lt vaddr)
        (Or.inl (frameOf_eq_some.mpr ⟨isPresent, rfl⟩))
  | unmapAbsent slot vaddr =>
      obtain ⟨isSlot, _, isAbsent, cleared⟩ := applied
      have isLive := region_mem_live.mpr isSlot
      have zero := isHidden.absent _ isLive _ (pageIndex4M_lt vaddr) isAbsent
      refine cleared.hidden isHidden isLive (pageIndex4M_lt vaddr) (Or.inr ⟨isAbsent, ?_⟩)
      rw [zero]
      decide
  | clone slot => exact Cloned.hidden applied isHidden
  | reclaim slot => exact applied.2.hidden isHidden applied.1

namespace Kernel

/-- A shared page is on a frame that the kernel does not map and whose reference count
has room for one more. -/
def SharesUserFrames (kernel : Kernel) : Call → Prop
  | .sharePage _ handle src => ∀ task frame, kernel.tasks handle = some task →
      frameOf (kernel.paging.pageDirs task.pageDirectory (pageIndex4M src)) = some frame →
      kernel.paging.mapCount .kernel frame = 0 ∧ kernel.paging.count frame < 65535
  | _ => True

theorem within_hidden {Allowed : Edit → Prop} (keeps : ∀ edit, Allowed edit → edit.IsPrivate)
    {old new : Paging} (within : edits.Within Allowed old new) (isHidden : Hidden old) :
    Hidden new := by
  refine within.preserves Hidden ?_ isHidden
  intro state edit after allowed before applied
  refine Edit.hidden ?_ before applied
  have isPrivate := keeps edit allowed
  cases edit with
  | sharedPage _ _ _ _ _ => exact absurd isPrivate id
  | _ => exact True.intro

theorem callEdit_sharesUserFrame {kernel : Kernel} {call : Call} {edit : Edit} {new : Paging}
    (condition : kernel.SharesUserFrames call) (allowed : kernel.CallEdit call edit)
    (applied : edit.Applies kernel.paging new) : edit.SharesUserFrame kernel.paging := by
  cases call with
  | destroyUserTask handle =>
      obtain ⟨slot, _, rfl⟩ := allowed
      exact True.intro
  | mapPage caller vaddr =>
      obtain ⟨slot, paddr, _, _, rfl⟩ := allowed
      exact True.intro
  | unmapPage caller vaddr =>
      obtain ⟨slot, uses, rfl⟩ := allowed
      split
      · exact True.intro
      · exact True.intro
  | sharePage caller handle src =>
      obtain ⟨slot, source, vaddr, paddr, _, uses, rfl⟩ := allowed
      obtain ⟨task, found, same⟩ := Option.map_eq_some_iff.mp uses
      refine condition task _ found ?_
      rw [show task.pageDirectory = source from congrArg Prod.fst same]
      exact applied.2.2.2.2.1
  | createUserTask _ _ _ _ _ _ => exact absurd allowed id
  | kernelJumpToUserEntry _ _ _ _ => exact absurd allowed id
  | exit _ => exact absurd allowed id
  | growHeap _ => exact absurd allowed id

theorem perform_hidden {kernel after : Kernel} {call : Call} (owned : Owned kernel)
    (isHidden : Hidden kernel.paging) (enabled : kernel.Enabled call) (condition : kernel.SharesUserFrames call)
    (performed : kernel.perform call = .ok after) : Hidden after.paging := by
  obtain ⟨_, unchanged | within | ⟨edit, allowed, applied⟩⟩ := perform_cases owned enabled performed
  · rw [unchanged]
    exact isHidden
  · exact within_hidden (fun _ => creation_private) within isHidden
  · exact Edit.hidden (callEdit_sharesUserFrame condition allowed applied) isHidden applied

theorem kernelSetup_hidden {highMemKB : UInt32} {slots : Nat → PageDirectory} {memory : Memory}
    {scheduler : List UInt32} {initrd : Option (List UInt32)} {kernel : Kernel}
    (run : kernelSetup highMemKB slots memory scheduler initrd = .ok kernel) : Hidden kernel.paging := by
  obtain ⟨_, start, initialized, within⟩ := kernelSetup_edits run
  exact within_hidden (fun _ => boot_private) within initialized.hidden

theorem reachable_hidden {kernel : Kernel} (reachable : (runs SharesUserFrames).Reachable kernel) :
    Owned kernel ∧ Hidden kernel.paging := by
  refine reachable.invariant (fun state => Owned state ∧ Hidden state.paging) ?_ ?_
  · rintro state ⟨highMemKB, slots, memory, scheduler, initrd, run⟩
    exact ⟨(kernelSetup_edits run).1, kernelSetup_hidden run⟩
  · rintro state call after ⟨owned, isHidden⟩ ⟨enabled, condition, performed⟩
    exact ⟨(perform_cases owned enabled performed).1, perform_hidden owned isHidden enabled condition performed⟩

def KernelHidden (kernel : Kernel) : Prop :=
  ∀ pd ∈ kernel.paging.live, ∀ i frame, kernel.paging.UserMaps pd i frame → ∀ j < 1024,
    isReplicated (pageAddr4M j) = true → frameOf (kernel.paging.pageDirs .kernel j) ≠ some frame

theorem not_mapped_iff (state : Paging) (frame : Nat) :
    ((List.range 1024).all fun index => frameOf (state.pageDirs .kernel index) != some frame) = true ↔
      state.mapCount .kernel frame = 0 := by
  rw [List.all_eq_true]
  constructor
  · intro absent
    apply occurrences_zero
    intro index member holds
    have differs := absent index (List.mem_range.mpr (mem_indices.mp member))
    rw [holds] at differs
    simp at differs
  · intro zero index member
    simpa using unmapped_of_mapCount zero (List.mem_range.mp member)

instance (kernel : Kernel) (call : Call) : Decidable (kernel.SharesUserFrames call) :=
  match call with
  | .sharePage _ handle src =>
      decidable_of_iff ((kernel.tasks handle).all (fun task =>
        (frameOf (kernel.paging.pageDirs task.pageDirectory (pageIndex4M src))).all fun frame =>
          ((List.range 1024).all fun index =>
            frameOf (kernel.paging.pageDirs .kernel index) != some frame) &&
          decide (kernel.paging.count frame < 65535)) = true)
        (by
          simp only [SharesUserFrames, Option.all_eq_true, Bool.and_eq_true, not_mapped_iff,
            decide_eq_true_eq]
          exact ⟨fun all task frame found => all task found frame,
            fun all task found frame => all task frame found⟩)
  | .unmapPage _ _ => inferInstanceAs (Decidable True)
  | .createUserTask _ _ _ _ _ _ => inferInstanceAs (Decidable True)
  | .kernelJumpToUserEntry _ _ _ _ => inferInstanceAs (Decidable True)
  | .destroyUserTask _ => inferInstanceAs (Decidable True)
  | .exit _ => inferInstanceAs (Decidable True)
  | .mapPage _ _ => inferInstanceAs (Decidable True)
  | .growHeap _ => inferInstanceAs (Decidable True)

end Kernel

end ToyKernel
