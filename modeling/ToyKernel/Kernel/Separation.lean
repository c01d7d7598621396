import ToyKernel.Kernel.Copies
import ToyKernel.Kernel.Isolation

/-!
Address spaces while constructors are at work. A frame that user mode can reach may
also be mapped in the kernel's page directory, but only as the shared page of a task
under construction; otherwise it has one mapping in the whole system.
-/

namespace ToyKernel

open Library Paging

namespace Paging

def sharedIndex : Nat := 3

structure Separated (state : Paging) : Prop where
  counted : ∀ frame < 1024, Counted state frame
  single : ∀ pd ∈ state.live, ∀ frame, state.mapCount pd frame ≤ 1
  owned : ∀ slot ∈ state.slots, ∀ i frame, state.UserMaps (.region slot) i frame →
    ∀ pd ∈ state.live, ∀ j < 1024, frameOf (state.pageDirs pd j) = some frame →
      (pd = .region slot ∧ j = i) ∨ (pd = .kernel ∧ j = sharedIndex ∧ i = sharedIndex)
  kernelOnly : ∀ index frame, ¬state.UserMaps .kernel index frame

variable {old new state : Paging} {targets : Finset PageDirPtr} {index page slot : Nat}
  {entry : UInt32} {pd : PageDirPtr}

theorem Separated.fewer (separated : Separated old) (counted : ∀ frame < 1024, Counted new frame)
    (slots : new.slots = old.slots)
    (entries : ∀ pd ∈ new.live, ∀ index, new.pageDirs pd index = old.pageDirs pd index ∨
      present (new.pageDirs pd index) = false) : Separated new := by
  have live : new.live = old.live := live_congr slots
  constructor
  · exact counted
  · intro pd isLive frame
    exact Nat.le_trans (mapCount_fewer entries isLive frame) (separated.single pd (live ▸ isLive) frame)
  · intro slot listed i frame maps pd isLive j bound otherMaps
    rw [entry_kept entries isLive otherMaps] at otherMaps
    have before := userMaps_kept entries (region_mem_live.mpr listed) maps
    rw [slots] at listed
    rw [live] at isLive
    exact separated.owned slot listed i frame before pd isLive j bound otherMaps
  · intro index frame maps
    exact separated.kernelOnly index frame (userMaps_kept entries (kernel_mem_live new) maps)

theorem Equivalent.separated (equivalent : Equivalent old new) (separated : Separated old) :
    Separated new := by
  apply separated.fewer
  · intro frame bound
    exact equivalent.counted (separated.counted frame bound)
  · exact slots_congr equivalent.region
  · intro pd _ index
    rcases equivalent.entries pd index with same | ⟨_, zeroed⟩
    · exact Or.inl same
    · rw [zeroed]
      exact Or.inr present_zero

theorem Cleared.separated (cleared : Cleared old new {pd} index page) (separated : Separated old)
    (isLive : pd ∈ old.live) (bound : index < 1024)
    (maps : frameOf (old.pageDirs pd index) = some page) : Separated new := by
  apply separated.fewer
  · intro frame below
    refine cleared.counted (separated.counted frame below) (by simpa using isLive) bound ?_
    intro query member
    rw [Finset.mem_singleton.mp member]
    exact maps
  · exact slots_congr cleared.region
  · intro query _ i
    rw [cleared.pageDirs]
    split
    · exact Or.inr present_zero
    · exact Or.inl rfl

/-- A new page keeps the separation when every page directory still maps its frame at most once, and
when it is a user page on a frame without a mapping, a kernel page on a frame without a mapping, or
the kernel's view of a shared page. -/
theorem Installed.separated (installed : Installed old new targets index entry page)
    (separated : Separated old) (listed : targets ⊆ old.live) (nonempty : targets.Nonempty)
    (bound : index < 1024) (maps : frameOf entry = some page)
    (once : ∀ pd ∈ old.live, new.mapCount pd page ≤ 1)
    (user : userAccessible entry = true → ∃ slot, targets = {.region slot} ∧ old.mappings page = 0)
    (shared : ∀ slot ∈ old.slots, ∀ i, old.UserMaps (.region slot) i page →
      targets = {.kernel} ∧ index = sharedIndex ∧ i = sharedIndex) : Separated new := by
  have live := installed.live
  have single : ∀ pd ∈ new.live, ∀ frame, new.mapCount pd frame ≤ 1 := by
    intro pd isLive frame
    rw [live] at isLive
    by_cases same : frame = page
    · rw [same]
      exact once pd isLive
    · exact Nat.le_trans (installed.mapCount_other maps pd same) (separated.single pd isLive frame)
  constructor
  · intro frame below
    exact installed.counted (separated.counted frame below) listed nonempty bound maps
      (fits_of_single single frame)
  · exact single
  · intro slot inUse i frame userMaps pd isLive j below otherMaps
    rw [slots_congr installed.region] at inUse
    rw [live] at isLive
    rw [UserMaps, installed.pageDirs] at userMaps
    rw [installed.pageDirs] at otherMaps
    split at userMaps
    · -- the new page is the user page: no other entry has its frame
      rename_i here
      obtain ⟨isUser, holds⟩ := userMaps.2
      rw [maps] at holds
      obtain rfl := Option.some.inj holds
      obtain ⟨only, isTarget, unmapped⟩ := user isUser
      split at otherMaps
      · rename_i there
        rw [isTarget, Finset.mem_singleton] at here there
        exact Or.inl ⟨there.1.trans here.1.symm, there.2.trans here.2.symm⟩
      · exact absurd otherMaps (unmapped_of_mappings unmapped isLive below)
    · split at otherMaps
      · rename_i there
        rw [maps] at otherMaps
        obtain rfl := Option.some.inj otherMaps
        obtain ⟨isKernel, isShared, itsIndex⟩ := shared slot inUse i userMaps
        rw [isKernel, Finset.mem_singleton] at there
        exact Or.inr ⟨there.1, there.2.trans isShared, itsIndex⟩
      · exact separated.owned slot inUse i frame userMaps pd isLive j below otherMaps
  · intro i frame userMaps
    rw [UserMaps, installed.pageDirs] at userMaps
    split at userMaps
    · rename_i here
      obtain ⟨only, isTarget, _⟩ := user userMaps.2.1
      rw [isTarget, Finset.mem_singleton] at here
      exact absurd here.1 (by simp)
    · exact separated.kernelOnly i frame userMaps

theorem Installed.separated_fresh (installed : Installed old new targets index entry page)
    (separated : Separated old) (listed : targets ⊆ old.live) (nonempty : targets.Nonempty)
    (bound : index < 1024) (maps : frameOf entry = some page) (frameBound : page < 1024)
    (unused : old.frameUsed page = false)
    (user : userAccessible entry = true → ∃ slot, targets = {.region slot}) : Separated new := by
  have free := ((separated.counted page frameBound).free unused).1
  refine installed.separated separated listed nonempty bound maps ?_ ?_ ?_
  · intro pd isLive
    exact installed.mapCount_fresh free isLive
  · intro isUser
    obtain ⟨slot, only⟩ := user isUser
    exact ⟨slot, only, free⟩
  · intro slot inUse i userMaps
    exact absurd userMaps.2.2 (unmapped_of_mappings free (region_mem_live.mpr inUse) userMaps.1)

/-- A clone of the kernel's page directory, while no shared page is mapped there. -/
theorem Cloned.separated (cloned : Cloned old new .kernel slot) (separated : Separated old)
    (closed : present (old.pageDirs .kernel sharedIndex) = false) : Separated new := by
  have single : ∀ pd ∈ new.live, ∀ frame, new.mapCount pd frame ≤ 1 := by
    intro pd isLive frame
    rw [mapCount, cloned.pageDirs]
    rcases cloned.mem_live.mp isLive with rfl | before
    · rw [if_pos rfl]
      exact separated.single .kernel (kernel_mem_live old) frame
    · split
      · exact separated.single .kernel (kernel_mem_live old) frame
      · exact separated.single pd before frame
  constructor
  · intro frame below
    exact cloned.counted (separated.counted frame below) (kernel_mem_live old)
      (fits_of_single single frame)
  · exact single
  · intro other listed i frame userMaps pd isLive j below otherMaps
    rw [UserMaps, cloned.pageDirs] at userMaps
    by_cases isNew : PageDirPtr.region other = .region slot
    · rw [if_pos isNew] at userMaps
      exact absurd userMaps (separated.kernelOnly i frame)
    · rw [if_neg isNew] at userMaps
      have inUse : other ∈ old.slots := by
        rw [cloned.slots, Finset.mem_insert] at listed
        exact listed.resolve_left fun same => isNew (by rw [same])
      rw [cloned.pageDirs] at otherMaps
      by_cases isClone : pd = .region slot
      · rw [if_pos isClone] at otherMaps
        rcases separated.owned other inUse i frame userMaps .kernel (kernel_mem_live old) j below
          otherMaps with ⟨impossible, _⟩ | ⟨_, rfl, _⟩
        · cases impossible
        · rw [frameOf_eq_none.mpr closed] at otherMaps
          cases otherMaps
      · rw [if_neg isClone] at otherMaps
        exact separated.owned other inUse i frame userMaps pd
          ((cloned.mem_live.mp isLive).resolve_left isClone) j below otherMaps
  · intro i frame userMaps
    rw [UserMaps, cloned.pageDirs, if_neg (by simp)] at userMaps
    exact separated.kernelOnly i frame userMaps

theorem Initialized.separated (initialized : Initialized state) : Separated state := by
  have isolated := initialized.isolated
  refine ⟨isolated.counted, isolated.single, ?_, isolated.kernelOnly⟩
  intro slot listed
  rw [initialized.slots] at listed
  simp at listed

structure Extends (closes : Prop) (old new : Paging) : Prop where
  slots : old.slots ⊆ new.slots
  entries : ∀ pd ∈ old.live, ∀ index < 1024, ¬(closes ∧ pd = .kernel ∧ index = sharedIndex) →
    present (old.pageDirs pd index) = true → new.pageDirs pd index = old.pageDirs pd index

theorem Extends.refl (closes : Prop) (state : Paging) : Extends closes state state :=
  ⟨Finset.Subset.refl _, fun _ _ _ _ _ _ => rfl⟩

theorem Extends.live {closes : Prop} (extension : Extends closes old new) (isLive : pd ∈ old.live) :
    pd ∈ new.live := by
  cases pd with
  | kernel => exact kernel_mem_live new
  | region slot => exact region_mem_live.mpr (extension.slots (region_mem_live.mp isLive))

theorem Extends.trans {closes : Prop} {middle : Paging} (left : Extends closes old middle)
    (right : Extends closes middle new) : Extends closes old new := by
  refine ⟨left.slots.trans right.slots, ?_⟩
  intro pd isLive index bound elsewhere isPresent
  have first := left.entries pd isLive index bound elsewhere isPresent
  rw [← first] at isPresent
  rw [right.entries pd (left.live isLive) index bound elsewhere isPresent, first]

theorem Extends.opened {closes : Prop} (extension : Extends closes old new) (stays : ¬closes) :
    Extends False old new :=
  ⟨extension.slots, fun pd isLive index bound _ isPresent =>
    extension.entries pd isLive index bound (fun here => stays here.1) isPresent⟩

theorem Extends.userMaps {closes : Prop} {frame : Nat} (extension : Extends closes old new)
    (listed : slot ∈ old.slots) (maps : old.UserMaps (.region slot) index frame) :
    new.UserMaps (.region slot) index frame := by
  have same := extension.entries (.region slot) (region_mem_live.mpr listed) index maps.1 (by simp)
    (frameOf_eq_some.mp maps.2.2).1
  rw [UserMaps, same]
  exact maps

theorem Equivalent.extends (closes : Prop) (equivalent : Equivalent old new) :
    Extends closes old new := by
  refine ⟨(slots_congr equivalent.region).symm.subset, ?_⟩
  intro pd _ index _ _ isPresent
  rcases equivalent.entries pd index with same | ⟨absent, _⟩
  · exact same
  · rw [absent] at isPresent
    cases isPresent

theorem Installed.extends (closes : Prop) (installed : Installed old new targets index entry page) :
    Extends closes old new := by
  refine ⟨(slots_congr installed.region).symm.subset, ?_⟩
  intro pd _ i _ _ isPresent
  rw [installed.pageDirs, if_neg]
  rintro ⟨target, rfl⟩
  rw [installed.empty pd target] at isPresent
  cases isPresent

theorem Cleared.extends (cleared : Cleared old new {.kernel} sharedIndex page) :
    Extends True old new := by
  refine ⟨(slots_congr cleared.region).symm.subset, ?_⟩
  intro pd _ i _ elsewhere _
  rw [cleared.pageDirs, if_neg]
  rintro ⟨target, isShared⟩
  exact elsewhere ⟨True.intro, Finset.mem_singleton.mp target, isShared⟩

theorem Cloned.extends (closes : Prop) (cloned : Cloned old new .kernel slot) :
    Extends closes old new := by
  refine ⟨?_, ?_⟩
  · rw [cloned.slots]
    exact Finset.subset_insert slot old.slots
  · intro pd isLive index _ _ _
    rw [cloned.pageDirs, if_neg]
    rintro rfl
    exact cloned.fresh (region_mem_live.mp isLive)

end Paging

namespace Kernel

/-- The page behind the temporary page is never mapped: to get there, the heap would have to grow
over the end of the address space and then over the kernel's own page. -/
structure HeapApart (paging : Paging) (heap : UInt32) : Prop where
  code : present (paging.pageDirs .kernel 1) = true
  gap : present (paging.pageDirs .kernel 6) = false
  index : pageIndex4M heap ≤ 1 ∨ 8 ≤ pageIndex4M heap

/-- The heap does not depend on changes that keep the kernel's present entries and do not map the
page of the gap. -/
theorem HeapApart.kept {closes : Prop} {old new : Paging} {heap : UInt32} (apart : HeapApart old heap)
    (extension : Extends closes old new) (gap : present (new.pageDirs .kernel 6) = false) :
    HeapApart new heap := by
  refine ⟨?_, gap, apart.index⟩
  have same := extension.entries .kernel (kernel_mem_live old) 1 (by decide)
    (fun here => absurd here.2.2 (by decide)) apart.code
  rw [same]
  exact apart.code

theorem HeapApart.equivalent {old new : Paging} {heap : UInt32} (apart : HeapApart old heap)
    (equivalent : Equivalent old new) : HeapApart new heap := by
  refine apart.kept (equivalent.extends False) ?_
  rcases equivalent.entries .kernel 6 with same | ⟨_, zeroed⟩
  · rw [same]
    exact apart.gap
  · rw [zeroed]
    exact present_zero

structure HeapGrown (old new : Paging) (heap : UInt32) : Prop where
  separated : Separated new
  apart : HeapApart new heap
  extension : Extends False old new
  slots : new.slots = old.slots

theorem nextPage_index (heap : UInt32) :
    pageIndex4M (heap + kPageSize4M) = (pageIndex4M heap + 1) % 1024 := by
  have size : kPageSize4M.toNat = 4194304 := by decide
  have bound := heap.toNat_lt
  rw [pageIndex4M_eq, pageIndex4M_eq, UInt32.toNat_add, size]
  omega

theorem ksbrkPages_separated (pages : Nat) {heap top : UInt32} {paging after : Paging}
    (separated : Separated paging) (apart : HeapApart paging heap)
    (run : ksbrkPages pages heap paging = .ok (after, top)) : HeapGrown paging after top := by
  induction pages generalizing heap paging with
  | zero =>
      obtain ⟨rfl, rfl⟩ := Prod.mk.inj (pure_eq_ok.mp run)
      exact ⟨separated, apart, .refl _ _, rfl⟩
  | succ pages ih =>
      obtain ⟨paddr, found, rest⟩ := bind_eq_ok.mp run
      obtain ⟨middle, added, later⟩ := bind_eq_ok.mp rest
      obtain ⟨_, _, free⟩ := PhysicalBitmap4M.nextFreePhysicalPage_eq_ok found
      obtain ⟨_, aligned, _, installed⟩ := (addPage_spec paging .kernel heap paddr 0 false).of_ok added
      have isTarget := self_mem_targets paging .kernel heap
      have separatedMiddle : Separated middle := by
        refine installed.separated_fresh separated (targets_subset_live (kernel_mem_live paging))
          ⟨_, isTarget⟩ (pageIndex4M_lt heap) (frameOf_pageEntry paddr 0) (pageIndex4M_lt paddr) free ?_
        intro user
        rw [userAccessible_pageEntry] at user
        exact absurd user (by decide)
      have passed : pageIndex4M heap ≠ 1 := by
        intro same
        have empty := installed.empty .kernel isTarget
        rw [same, apart.code] at empty
        cases empty
      have above := apart.index
      have extension := installed.extends False
      have gap : present (middle.pageDirs .kernel 6) = false := by
        rw [installed.pageDirs, if_neg (by rintro ⟨_, same⟩; omega)]
        exact apart.gap
      have apartMiddle : HeapApart middle (heap + kPageSize4M) := by
        refine ⟨(apart.kept extension gap).code, gap, ?_⟩
        have bound := pageIndex4M_lt heap
        rw [nextPage_index]
        omega
      have grown := ih separatedMiddle apartMiddle later
      exact ⟨grown.separated, grown.apart, extension.trans grown.extension,
        grown.slots.trans (slots_congr installed.region)⟩

theorem ksbrkPage_separated {pages heap top : UInt32} {paging after : Paging}
    (separated : Separated paging) (apart : HeapApart paging heap)
    (run : ksbrkPage pages heap paging = .ok (after, some top)) : HeapGrown paging after top := by
  unfold ksbrkPage at run
  split at run
  · cases (Prod.mk.inj (pure_eq_ok.mp run)).2
  · obtain ⟨⟨middle, reached⟩, grown, done⟩ := bind_eq_ok.mp run
    obtain ⟨rfl, same⟩ := Prod.mk.inj (pure_eq_ok.mp done)
    obtain rfl := Option.some.inj same
    exact ksbrkPages_separated _ separated apart grown

theorem growHeap_separated {bytes : UInt32} {kernel after : Kernel} (separated : Separated kernel.paging)
    (apart : HeapApart kernel.paging kernel.heap) (run : growHeap bytes kernel = .ok after) :
    HeapGrown kernel.paging after.paging after.heap ∧ SameTasks kernel after ∧
      after.memory = kernel.memory := by
  obtain ⟨⟨paging, top⟩, grown, rest⟩ := bind_eq_ok.mp run
  cases top with
  | none => cases rest
  | some heap =>
      obtain rfl := pure_eq_ok.mp rest
      refine ⟨?_, ⟨rfl, rfl⟩, rfl⟩
      unfold ksbrk at grown
      split at grown
      · exact ksbrkPage_separated separated apart grown
      · split at grown
        · exact ksbrkPage_separated separated apart grown
        · exact ksbrkPage_separated separated apart grown

theorem kmalloc_separated (requests : List UInt32) {kernel after : Kernel}
    (separated : Separated kernel.paging) (apart : HeapApart kernel.paging kernel.heap)
    (run : kmalloc requests kernel = .ok after) : HeapGrown kernel.paging after.paging after.heap := by
  induction requests generalizing kernel with
  | nil =>
      obtain rfl := pure_eq_ok.mp run
      exact ⟨separated, apart, .refl _ _, rfl⟩
  | cons bytes rest ih =>
      obtain ⟨middle, grown, later⟩ := bind_eq_ok.mp run
      obtain ⟨first, _, _⟩ := growHeap_separated separated apart grown
      have second := ih first.separated first.apart later
      exact ⟨second.separated, second.apart, first.extension.trans second.extension,
        second.slots.trans first.slots⟩

/-- The kernel after its setup, when no constructor has started. -/
theorem kernelSetup_separated {highMemKB : UInt32} {slots : Nat → PageDirectory} {memory : Memory}
    {requests : List UInt32} {initrd : Option (List UInt32)} {kernel : Kernel}
    (run : kernelSetup highMemKB slots memory requests initrd = .ok kernel) :
    Separated kernel.paging ∧ HeapApart kernel.paging kernel.heap := by
  obtain ⟨start, initialized, rest⟩ := bind_eq_ok.mp run
  have fresh := (initializePaging_spec highMemKB slots).of_ok initialized
  obtain ⟨first, grown, rest⟩ := bind_eq_ok.mp rest
  obtain ⟨second, allocated, rest⟩ := bind_eq_ok.mp rest
  have apart : HeapApart start kernHeapBegin := by
    refine ⟨?_, ?_, by decide⟩
    · rw [fresh.kernel, if_pos rfl]
      exact present_pageEntry _ _
    · rw [fresh.kernel, if_neg (by decide), if_neg (by decide)]
      exact present_zero
  obtain ⟨grownFirst, _, _⟩ := growHeap_separated fresh.separated apart grown
  have grownSecond := kmalloc_separated requests grownFirst.separated grownFirst.apart allocated
  cases initrd with
  | none =>
      obtain rfl := pure_eq_ok.mp rest
      exact ⟨grownSecond.separated, grownSecond.apart⟩
  | some growth =>
      obtain ⟨mapped, added, rest⟩ := bind_eq_ok.mp rest
      obtain ⟨third, moduleMalloc, rest⟩ := bind_eq_ok.mp rest
      obtain ⟨new, removed, done⟩ := bind_eq_ok.mp rest
      obtain rfl := pure_eq_ok.mp done
      have own : isReplicated 0 = false := by decide
      have zero : pageIndex4M 0 = 0 := by decide
      have unused : second.paging.frameUsed 0 = false := by
        refine growth_firstFrame ((growHeap_edits grown).1.trans (kmalloc_edits _ allocated).1) ?_
        rw [Bool.eq_false_iff, ne_eq, fresh.used 0 (by decide), fresh.count 0 (by decide)]
        decide
      obtain ⟨_, _, _, installed⟩ := (addPage_spec second.paging .kernel 0 0 0 true).of_ok added
      rw [targets_own fun _ => own, zero] at installed
      have separatedMapped : Separated mapped := by
        refine installed.separated_fresh grownSecond.separated (by simp) (Finset.singleton_nonempty _)
          (by decide) (frameOf_pageEntry 0 0) (by decide) unused ?_
        intro user
        rw [userAccessible_pageEntry] at user
        exact absurd user (by decide)
      have apartMapped : HeapApart mapped second.heap := by
        refine grownSecond.apart.kept (installed.extends False) ?_
        rw [installed.pageDirs, if_neg (by decide)]
        exact grownSecond.apart.gap
      have grownThird : HeapGrown mapped third.paging third.heap :=
        kmalloc_separated growth separatedMapped apartMapped moduleMalloc
      have isPresent : present (mapped.pageDirs .kernel 0) = true := by
        rw [installed.pageDirs, if_pos ⟨Finset.mem_singleton_self _, rfl⟩]
        exact present_pageEntry 0 0
      have still : present (third.paging.pageDirs .kernel 0) = true := by
        rw [grownThird.extension.entries .kernel (kernel_mem_live _) 0 (by decide) (by simp) isPresent]
        exact isPresent
      obtain ⟨_, cleared, _⟩ := (removePage_spec third.paging .kernel 0).of_ok removed
      rw [targets_own fun _ => own, zero] at cleared
      refine ⟨cleared.separated grownThird.separated (kernel_mem_live _) (by decide)
        (frameOf_eq_some.mpr ⟨still, rfl⟩), ?_, ?_, grownThird.apart.index⟩
      · rw [cleared.pageDirs, if_neg (by decide)]
        exact grownThird.apart.code
      · rw [cleared.pageDirs, if_neg (by decide)]
        exact grownThird.apart.gap

end Kernel

end ToyKernel
