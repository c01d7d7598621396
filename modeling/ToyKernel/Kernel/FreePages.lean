import ToyKernel.Kernel.Pointers

/-!
Where the frames of physical memory are over a whole run. A frame is in use exactly while some page
directory maps it, the kernel's own page directory only maps the kernel, the page directories and the
heap, and every other page directory belongs to a user task: when all of these are destroyed, every
frame that is not part of the kernel heap is free again.
-/

namespace ToyKernel

open Library Paging

def PhysicalBitmap4M.numFreePages (bitmap : PhysicalBitmap4M) : Nat :=
  (List.range kRamAs4MPages).countP fun page => !bitmap.bits.isSet page

namespace Paging

/-- The pages that the kernel's page directory maps, without the first one, which it maps only while
it copies the initrd. -/
def kernelPages (state : Paging) : Finset Nat :=
  (Finset.Ico 1 1024).filter fun index => present (state.pageDirs .kernel index) = true

/-- The count of the first frame. Unmapping a page that is not mapped lowers it, so it may be too
small, but never too large. -/
structure FirstCounted (state : Paging) : Prop where
  count : state.count 0 ≤ state.mappings 0
  used : state.frameUsed 0 = true ↔ 0 < state.count 0

variable {old new state : Paging} {targets : Finset PageDirPtr} {index page slot : Nat} {entry : UInt32}
  {pd : PageDirPtr}

theorem mem_kernelPages : index ∈ kernelPages state ↔
    (1 ≤ index ∧ index < 1024) ∧ present (state.pageDirs .kernel index) = true := by
  rw [kernelPages, Finset.mem_filter, Finset.mem_Ico]

theorem kernelPages_congr (same : ∀ index, index ≠ 0 →
    frameOf (new.pageDirs .kernel index) = frameOf (old.pageDirs .kernel index)) :
    kernelPages new = kernelPages old := by
  ext index
  rw [mem_kernelPages, mem_kernelPages]
  refine and_congr_right fun bounds => ?_
  have entries := same index (by omega)
  cases isPresent : present (old.pageDirs .kernel index) with
  | true =>
      rw [frameOf_eq_some.mpr ⟨isPresent, rfl⟩] at entries
      exact iff_of_true (frameOf_eq_some.mp entries).1 rfl
  | false =>
      rw [frameOf_eq_none.mpr isPresent] at entries
      rw [frameOf_eq_none.mp entries]

theorem Equivalent.firstCounted (equivalent : Equivalent old new) (first : FirstCounted old) :
    FirstCounted new := by
  refine ⟨?_, equivalent.used 0 first.used⟩
  rw [equivalent.count, equivalent.mappings]
  exact first.count

theorem Installed.firstCounted (installed : Installed old new targets index entry page)
    (first : FirstCounted old) (listed : targets ⊆ old.live) (bound : index < 1024)
    (maps : frameOf entry = some page)
    (counts : page = 0 → 0 < (old.count 0 + targets.card) % 65536) : FirstCounted new := by
  have added := installed.mappings listed bound maps 0
  have count := installed.count 0
  have before := first.count
  by_cases same : 0 = page
  · rw [if_pos same] at added count
    have positive := counts same.symm
    refine ⟨?_, ?_⟩
    · rw [added, count]
      exact (Nat.mod_le _ _).trans (Nat.add_le_add_right before _)
    · rw [installed.used, count]
      exact iff_of_true (Or.inl same) positive
  · rw [if_neg same] at added count
    refine ⟨by omega, ?_⟩
    rw [installed.used, first.used, count]
    simp [same]

theorem Cleared.mappings_absent (cleared : Cleared old new {pd} index page)
    (absent : present (old.pageDirs pd index) = false) (frame : Nat) :
    new.mappings frame = old.mappings frame := by
  rw [Paging.mappings, Paging.mappings, keys_congr cleared.region]
  apply occurrences_congr
  rintro ⟨query, i⟩ _
  rw [table, table, cleared.pageDirs]
  split
  · rename_i here
    obtain ⟨member, rfl⟩ := here
    rw [Finset.mem_singleton.mp member, frameOf_zero, frameOf_eq_none.mpr absent]
  · rfl

theorem Cleared.firstCounted (cleared : Cleared old new {pd} index page) (first : FirstCounted old)
    (lost : old.mappings 0 ≤ new.mappings 0 + if 0 = page then 1 else 0) : FirstCounted new := by
  have enough := cleared.enough
  have count := cleared.count 0
  have before := first.count
  rw [Finset.card_singleton] at enough count
  by_cases same : 0 = page
  · rw [if_pos same] at lost count
    refine ⟨by omega, ?_⟩
    rw [← same] at enough
    rw [cleared.used, first.used, count, Finset.card_singleton, ← same]
    simp only [true_and]
    omega
  · rw [if_neg same] at lost count
    refine ⟨by omega, ?_⟩
    rw [cleared.used, first.used, count]
    simp [same]

theorem Cloned.firstCounted (cloned : Cloned old new pd slot) (first : FirstCounted old)
    (unmapped : old.mapCount pd 0 = 0) : FirstCounted new := by
  have added := cloned.mappings 0
  have count := cloned.count 0
  have small := old.physicalBitmap.count_lt 0
  change old.count 0 < 65536 at small
  rw [unmapped, Nat.add_zero] at added count
  rw [Nat.mod_eq_of_lt small] at count
  refine ⟨?_, ?_⟩
  · rw [added, count]
    exact first.count
  · rw [cloned.used, count]
    exact first.used

theorem Reclaimed.firstCounted (reclaimed : Reclaimed old new slot) (first : FirstCounted old)
    (listed : slot ∈ old.slots) : FirstCounted new := by
  have removed := reclaimed.mappings listed 0
  have count := reclaimed.count 0
  have enough := reclaimed.enough 0
  have before := first.count
  refine ⟨by omega, ?_⟩
  rw [reclaimed.used, first.used, count]
  omega

theorem Initialized.firstCounted (initialized : Initialized state) : FirstCounted state := by
  have count := initialized.count 0 (by decide)
  rw [show reserved 0 + (if 0 = 1 ∨ 0 = 2 then 1 else 0) = 0 by decide] at count
  refine ⟨?_, initialized.used 0 (by decide)⟩
  rw [count]
  exact Nat.zero_le _

end Paging

section Edits

variable {edit : Edit} {old new : Paging}

/-- Every edit but a clone keeps the count of the first frame in bounds, and a clone does when the
kernel does not map that frame. -/
theorem Edit.firstCounted (condition : edit.SharesUserFrame old)
    (unmapped : ∀ slot, edit = .clone slot → old.mapCount .kernel 0 = 0) (first : FirstCounted old)
    (applied : edit.Applies old new) : FirstCounted new := by
  have unused {page : Nat} (free : old.frameUsed page = false) (zero : page = 0) : old.count 0 = 0 := by
    rw [zero, Bool.eq_false_iff, ne_eq, first.used] at free
    omega
  cases edit with
  | temporary => exact Equivalent.firstCounted applied first
  | kernelPage vaddr paddr =>
      obtain ⟨_, free, _, installed⟩ := applied
      have listed : old.targets .kernel vaddr ⊆ old.live := targets_subset_live (kernel_mem_live old)
      refine installed.firstCounted first listed (pageIndex4M_lt vaddr) (frameOf_pageEntry paddr 0) ?_
      intro zero
      have positive := Finset.card_pos.mpr ⟨_, self_mem_targets old .kernel vaddr⟩
      have few := (Finset.card_le_card listed).trans old.live_card_le
      rw [unused free zero, Nat.zero_add, Nat.mod_eq_of_lt (by omega)]
      exact positive
  | userPage slot vaddr paddr =>
      obtain ⟨isSlot, _, free, installed⟩ := applied
      refine installed.firstCounted first (by simpa using isSlot) (pageIndex4M_lt vaddr)
        (frameOf_pageEntry paddr _) ?_
      intro zero
      rw [unused free zero, Finset.card_singleton]
      decide
  | sharedPage slot source src vaddr paddr =>
      obtain ⟨isSlot, _, _, _, _, installed⟩ := applied
      refine installed.firstCounted first (by simpa using isSlot) (pageIndex4M_lt vaddr)
        (frameOf_pageEntry paddr _) ?_
      intro zero
      have room := condition.2
      rw [zero] at room
      rw [Finset.card_singleton, Nat.mod_eq_of_lt (by omega)]
      exact Nat.succ_pos _
  | unmap pd vaddr =>
      obtain ⟨isLive, _, _, isPresent, cleared⟩ := applied
      refine cleared.firstCounted first ?_
      have removed := cleared.mappings (by simpa using isLive) (pageIndex4M_lt vaddr) (by
        intro query member
        rw [Finset.mem_singleton.mp member]
        exact frameOf_eq_some.mpr ⟨isPresent, rfl⟩) 0
      rw [Finset.card_singleton] at removed
      exact removed.le
  | unmapAbsent slot vaddr =>
      obtain ⟨_, _, absent, cleared⟩ := applied
      refine cleared.firstCounted first ?_
      rw [cleared.mappings_absent absent]
      exact Nat.le_add_right _ _
  | clone slot => exact Cloned.firstCounted applied first (unmapped slot rfl)
  | reclaim slot => exact applied.2.firstCounted first applied.1

theorem within_firstCounted {Allowed : Edit → Prop} (keeps : ∀ edit, Allowed edit → edit.IsPrivate)
    (noClone : ∀ slot, ¬Allowed (.clone slot)) (within : edits.Within Allowed old new)
    (first : FirstCounted old) : FirstCounted new := by
  refine within.preserves FirstCounted ?_ first
  intro state edit after allowed before applied
  have isPrivate := keeps edit allowed
  refine Edit.firstCounted ?_ ?_ before applied
  · cases edit with
    | sharedPage _ _ _ _ _ => exact absurd isPrivate id
    | _ => exact True.intro
  · rintro slot rfl
    exact absurd allowed (noClone slot)

end Edits

namespace Kernel

structure HeapPages (paging : Paging) (heap : UInt32) : Prop where
  frames : ∀ index ∈ kernelPages paging, ∀ frame, frameOf (paging.pageDirs .kernel index) = some frame →
    1 ≤ frame ∧ frame < kPhysicalPages
  firstPage : ∀ frame, frameOf (paging.pageDirs .kernel 0) = some frame → frame = 0
  started : 2 ≤ (kernelPages paging).card
  heap : heap = UInt32.ofNat ((kernelPages paging).card + 6) * kPageSize4M

section HeapPages

variable {paging new : Paging} {heap : UInt32}

theorem HeapPages.congr (pages : HeapPages paging heap) (same : ∀ index, index ≠ 0 →
    frameOf (new.pageDirs .kernel index) = frameOf (paging.pageDirs .kernel index))
    (firstPage : ∀ frame, frameOf (new.pageDirs .kernel 0) = some frame → frame = 0) :
    HeapPages new heap := by
  have samePages := kernelPages_congr same
  refine ⟨?_, firstPage, ?_, ?_⟩
  · intro index member frame maps
    rw [samePages] at member
    have bounds := (mem_kernelPages.mp member).1
    rw [same index (by omega)] at maps
    exact pages.frames index member frame maps
  · rw [samePages]
    exact pages.started
  · rw [samePages]
    exact pages.heap

theorem HeapPages.kept (pages : HeapPages paging heap)
    (same : ∀ index, frameOf (new.pageDirs .kernel index) = frameOf (paging.pageDirs .kernel index)) :
    HeapPages new heap := by
  refine pages.congr (fun index _ => same index) ?_
  intro frame maps
  rw [same] at maps
  exact pages.firstPage frame maps

/-- The kernel maps one frame for each of its pages. -/
theorem HeapPages.card_frames (pages : HeapPages paging heap) (isHidden : Hidden paging) :
    ((Finset.Ico 1 kPhysicalPages).filter fun frame => paging.mapCount .kernel frame ≠ 0).card =
      (kernelPages paging).card := by
  refine (Finset.card_bij (fun index _ => pageIndex4M (paging.pageDirs .kernel index)) ?_ ?_ ?_).symm
  · intro index member
    obtain ⟨⟨_, bound⟩, isPresent⟩ := mem_kernelPages.mp member
    have maps := frameOf_eq_some.mpr ⟨isPresent, rfl⟩
    obtain ⟨low, high⟩ := pages.frames index member _ maps
    rw [Finset.mem_filter, Finset.mem_Ico]
    exact ⟨⟨low, high⟩, fun zero => unmapped_of_mapCount zero bound maps⟩
  · intro first firstMember second secondMember same
    obtain ⟨⟨_, firstBound⟩, firstPresent⟩ := mem_kernelPages.mp firstMember
    obtain ⟨⟨_, secondBound⟩, secondPresent⟩ := mem_kernelPages.mp secondMember
    have firstMaps := frameOf_eq_some.mpr ⟨firstPresent, rfl⟩
    have secondMaps := frameOf_eq_some.mpr ⟨secondPresent, same.symm⟩
    have low := (pages.frames first firstMember _ firstMaps).1
    have once := isHidden.single _ (by omega)
      (fun zero => unmapped_of_mapCount zero firstBound firstMaps) .kernel (kernel_mem_live paging)
    exact eq_of_occurrences_le_one once (mem_indices.mpr firstBound) (mem_indices.mpr secondBound)
      firstMaps secondMaps
  · intro frame member
    obtain ⟨range, mapped⟩ := Finset.mem_filter.mp member
    obtain ⟨index, listed, maps⟩ := exists_of_occurrences_pos (Nat.pos_of_ne_zero mapped)
    obtain ⟨isPresent, names⟩ := frameOf_eq_some.mp maps
    have low := (Finset.mem_Ico.mp range).1
    refine ⟨index, mem_kernelPages.mpr ⟨⟨?_, mem_indices.mp listed⟩, isPresent⟩, names⟩
    refine Nat.one_le_iff_ne_zero.mpr ?_
    rintro rfl
    have zero := pages.firstPage frame maps
    omega

theorem HeapPages.few (pages : HeapPages paging heap) (isHidden : Hidden paging) :
    (kernelPages paging).card ≤ 31 := by
  rw [← pages.card_frames isHidden]
  refine (Finset.card_filter_le _ _).trans ?_
  rw [Nat.card_Ico]
  decide

theorem HeapPages.heap_toNat (pages : HeapPages paging heap) (isHidden : Hidden paging) :
    heap.toNat = ((kernelPages paging).card + 6) * 4194304 := by
  have few := pages.few isHidden
  rw [pages.heap]
  exact pageAddress_toNat (by omega)

theorem HeapPages.heap_index (pages : HeapPages paging heap) (isHidden : Hidden paging) :
    pageIndex4M heap = (kernelPages paging).card + 6 := by
  rw [pageIndex4M_eq, pages.heap_toNat isHidden]
  exact Nat.mul_div_cancel _ (by decide)

/-- One more page of the heap, on a free frame. -/
theorem HeapPages.grow {paddr : UInt32} (pages : HeapPages paging heap) (isHidden : Hidden paging)
    (unused : paging.frameUsed (pageIndex4M paddr) = false) (positive : 1 ≤ pageIndex4M paddr)
    (installed : Installed paging new (paging.targets .kernel heap) (pageIndex4M heap) (pageEntry paddr 0)
      (pageIndex4M paddr)) : HeapPages new (heap + kPageSize4M) := by
  have here := pages.heap_index isHidden
  have few := pages.few isHidden
  have isTarget := self_mem_targets paging .kernel heap
  have entries : ∀ index, new.pageDirs .kernel index =
      if index = pageIndex4M heap then pageEntry paddr 0 else paging.pageDirs .kernel index := by
    intro index
    rw [installed.pageDirs]
    simp [isTarget]
  have grown : kernelPages new = insert (pageIndex4M heap) (kernelPages paging) := by
    ext index
    rw [Finset.mem_insert, mem_kernelPages, mem_kernelPages, entries]
    by_cases same : index = pageIndex4M heap
    · rw [if_pos same]
      exact iff_of_true ⟨by omega, present_pageEntry paddr 0⟩ (Or.inl same)
    · rw [if_neg same]
      simp [same]
  have fresh : pageIndex4M heap ∉ kernelPages paging := by
    intro member
    have isPresent := (mem_kernelPages.mp member).2
    rw [installed.empty .kernel isTarget] at isPresent
    cases isPresent
  refine ⟨?_, ?_, ?_, ?_⟩
  · intro index member frame maps
    rw [grown, Finset.mem_insert] at member
    rw [entries] at maps
    split at maps
    · rw [frameOf_pageEntry] at maps
      obtain rfl := Option.some.inj maps
      have free := (isHidden.counted _ (pageIndex4M_lt paddr) (by omega)).free unused
      refine ⟨positive, ?_⟩
      by_contra beyond
      have kept := free.2
      rw [reserved, if_pos (by omega)] at kept
      cases kept
    · rename_i elsewhere
      exact pages.frames index (member.resolve_left elsewhere) frame maps
  · intro frame maps
    rw [entries, if_neg (by omega)] at maps
    exact pages.firstPage frame maps
  · rw [grown, Finset.card_insert_of_notMem fresh]
    exact Nat.le_succ_of_le pages.started
  · rw [grown, Finset.card_insert_of_notMem fresh]
    apply UInt32.toNat_inj.mp
    rw [pageAddress_toNat (by omega), UInt32.toNat_add, pages.heap_toNat isHidden]
    have size : kPageSize4M.toNat = 4194304 := by decide
    rw [size]
    omega

structure Accounting (first : UInt32) (paging : Paging) (heap : UInt32) : Prop where
  isHidden : Hidden paging
  pages : HeapPages paging heap
  firstEntry : paging.pageDirs .kernel 0 = first

variable {first : UInt32}

theorem ksbrkPages_accounting (count : Nat) {top : UInt32} (before : Accounting first paging heap)
    (run : ksbrkPages count heap paging = .ok (new, top)) : Accounting first new top := by
  induction count generalizing heap paging with
  | zero =>
      obtain ⟨rfl, rfl⟩ := Prod.mk.inj (pure_eq_ok.mp run)
      exact before
  | succ count ih =>
      obtain ⟨paddr, found, rest⟩ := bind_eq_ok.mp run
      obtain ⟨middle, added, later⟩ := bind_eq_ok.mp rest
      obtain ⟨_, positive, free⟩ := PhysicalBitmap4M.nextFreePhysicalPage_eq_ok found
      obtain ⟨_, aligned, _, installed⟩ := (addPage_spec paging .kernel heap paddr 0 false).of_ok added
      have here := before.pages.heap_index before.isHidden
      have hidden : Hidden middle := by
        refine Edit.hidden (show (Edit.kernelPage heap paddr).SharesUserFrame paging from True.intro)
          before.isHidden ⟨aligned, free, fun _ => ?_, installed⟩
        omega
      refine ih ⟨hidden, before.pages.grow before.isHidden free positive installed, ?_⟩ later
      rw [installed.pageDirs, if_neg (by rintro ⟨_, same⟩; omega)]
      exact before.firstEntry

theorem ksbrkPage_accounting {count top : UInt32} (before : Accounting first paging heap)
    (run : ksbrkPage count heap paging = .ok (new, some top)) : Accounting first new top := by
  unfold ksbrkPage at run
  split at run
  · cases (Prod.mk.inj (pure_eq_ok.mp run)).2
  · obtain ⟨⟨middle, reached⟩, grown, done⟩ := bind_eq_ok.mp run
    obtain ⟨rfl, same⟩ := Prod.mk.inj (pure_eq_ok.mp done)
    obtain rfl := Option.some.inj same
    exact ksbrkPages_accounting _ before grown

theorem growHeap_accounting {bytes : UInt32} {kernel after : Kernel}
    (before : Accounting first kernel.paging kernel.heap) (run : growHeap bytes kernel = .ok after) :
    Accounting first after.paging after.heap := by
  obtain ⟨⟨paging, top⟩, grown, rest⟩ := bind_eq_ok.mp run
  cases top with
  | none => cases rest
  | some heap =>
      obtain rfl := pure_eq_ok.mp rest
      unfold ksbrk at grown
      split at grown
      · exact ksbrkPage_accounting before grown
      · split at grown
        · exact ksbrkPage_accounting before grown
        · exact ksbrkPage_accounting before grown

theorem kmalloc_accounting (requests : List UInt32) {kernel after : Kernel}
    (before : Accounting first kernel.paging kernel.heap) (run : kmalloc requests kernel = .ok after) :
    Accounting first after.paging after.heap := by
  induction requests generalizing kernel with
  | nil =>
      obtain rfl := pure_eq_ok.mp run
      exact before
  | cons bytes rest ih =>
      obtain ⟨middle, grown, later⟩ := bind_eq_ok.mp run
      exact ih (growHeap_accounting before grown) later

/-- Nothing that leaves the frames of the kernel's entries as they are touches the account. -/
theorem Accounting.kept (before : Accounting 0 paging heap) (isHidden : Hidden new)
    (same : ∀ index, frameOf (new.pageDirs .kernel index) = frameOf (paging.pageDirs .kernel index)) :
    Accounting 0 new heap := by
  refine ⟨isHidden, before.pages.kept same, ?_⟩
  apply isHidden.absent .kernel (kernel_mem_live new) 0 (by decide)
  rw [← frameOf_eq_none, same, before.firstEntry, frameOf_zero]

theorem Accounting.unmapped (before : Accounting 0 paging heap) : paging.mapCount .kernel 0 = 0 := by
  apply occurrences_zero
  intro index listed maps
  by_cases zero : index = 0
  · rw [zero, before.firstEntry, frameOf_zero] at maps
    cases maps
  · have bound := mem_indices.mp listed
    have member := mem_kernelPages.mpr ⟨⟨Nat.pos_of_ne_zero zero, bound⟩, (frameOf_eq_some.mp maps).1⟩
    have low := (before.pages.frames index member 0 maps).1
    omega

end HeapPages

section Construction

variable {kernel after : Kernel} {task current : PageDirPtr}

theorem writeStack_heap (words : List (UInt32 × UInt32)) (run : writeStack task current words kernel = .ok after) :
    after.heap = kernel.heap := by
  induction words generalizing kernel with
  | nil =>
      obtain rfl := pure_eq_ok.mp run
      rfl
  | cons entry rest ih =>
      obtain ⟨written, wrote, later⟩ := bind_eq_ok.mp run
      exact (ih later).trans (taskMemcpy_heap wrote)

theorem setupSharedSpace_kernel {slot : Nat} {arg entryOffset : UInt32} {copyfunc : CopyArgFunc}
    (run : setupSharedSpace slot current arg entryOffset copyfunc kernel = .ok after) :
    after.heap = kernel.heap ∧ ∀ index, frameOf (after.paging.pageDirs .kernel index) =
      frameOf (kernel.paging.pageDirs .kernel index) := by
  obtain ⟨paddr, found, rest⟩ := bind_eq_ok.mp run
  obtain ⟨_, _, rest⟩ := bind_eq_ok.mp rest
  obtain ⟨first, added, rest⟩ := bind_eq_ok.mp rest
  obtain ⟨second, doubled, rest⟩ := bind_eq_ok.mp rest
  obtain ⟨⟨memory, stackArg⟩, _, rest⟩ := bind_eq_ok.mp rest
  obtain ⟨written, stacked, rest⟩ := bind_eq_ok.mp rest
  obtain ⟨new, removed, done⟩ := bind_eq_ok.mp rest
  obtain rfl := pure_eq_ok.mp done
  obtain ⟨kept, _⟩ := writeStack_edits _ stacked
  have back : Equivalent first new := temporary_edit (by decide) doubled kept removed
  obtain ⟨_, _, _, installed⟩ := (addPage_spec kernel.paging (.region slot) userSharedSpaceStart paddr
    pgUser.toUInt8 false).of_ok added
  rw [targets_own (by simp)] at installed
  have sameHeap := writeStack_heap _ stacked
  refine ⟨sameHeap, ?_⟩
  intro index
  change frameOf (new.pageDirs .kernel index) = _
  rw [back.frameOf, installed.pageDirs, if_neg (by simp)]

theorem setupCode_kernel {slot : Nat} {func codesize : UInt32}
    (run : setupCode slot current func codesize kernel = .ok after) :
    after.heap = kernel.heap ∧ ∀ index, frameOf (after.paging.pageDirs .kernel index) =
      frameOf (kernel.paging.pageDirs .kernel index) := by
  obtain ⟨paddr, found, rest⟩ := bind_eq_ok.mp run
  obtain ⟨middle, added, rest⟩ := bind_eq_ok.mp rest
  obtain ⟨mapped, _, rest⟩ := bind_eq_ok.mp rest
  obtain ⟨_, _, copied⟩ := bind_eq_ok.mp rest
  obtain ⟨_, _, _, installed⟩ :=
    (addPage_spec kernel.paging (.region slot) userStart paddr pgUser.toUInt8 false).of_ok added
  rw [targets_own (by simp)] at installed
  have unchanged : ∀ index, frameOf (middle.pageDirs .kernel index) =
      frameOf (kernel.paging.pageDirs .kernel index) := by
    intro index
    rw [installed.pageDirs, if_neg (by simp)]
  unfold write at copied
  split at copied
  · obtain rfl := pure_eq_ok.mp copied
    exact ⟨rfl, unchanged⟩
  · have sameHeap := taskMemcpy_heap copied
    refine ⟨sameHeap, ?_⟩
    intro index
    have back : Equivalent middle after.paging := (taskMemcpy_edits copied).1
    rw [back.frameOf, unchanged]

/-- A finished constructor of a user task. -/
theorem userTask_accounting {caller handle : Nat} {func codesize arg entryOffset : UInt32} {copyfunc : CopyArgFunc}
    {growth : Growth} (before : Accounting 0 kernel.paging kernel.heap) (counted : FirstCounted kernel.paging)
    (run : userTask caller func codesize arg copyfunc entryOffset growth kernel = .ok (after, handle)) :
    Accounting 0 after.paging after.heap ∧ FirstCounted after.paging := by
  obtain ⟨task, first, paging, slot, second, third, fourth, fifth, sixth, _, allocated, cloned, child,
    childMalloc, stackMalloc, shared, nodeMalloc, code, _⟩ := userTask_eq_ok.mp run
  have account1 := kmalloc_accounting _ before allocated
  have copied := (clone_spec first.paging .kernel).of_ok cloned
  have account2 : Accounting 0 paging first.heap := by
    refine account1.kept (Cloned.hidden copied account1.isHidden) ?_
    intro index
    rw [copied.pageDirs, if_neg (by simp)]
  obtain ⟨samePaging, _, _⟩ := addChildTask_eq child
  have sameHeap : second.heap = first.heap := by
    obtain ⟨_, _, made⟩ := bind_eq_ok.mp child
    obtain rfl := pure_eq_ok.mp made
    rfl
  have account4 : Accounting 0 fourth.paging fourth.heap := by
    refine kmalloc_accounting _ (kmalloc_accounting _ ?_ childMalloc) stackMalloc
    change Accounting 0 second.paging second.heap
    rw [samePaging, sameHeap]
    exact account2
  obtain ⟨growth3, _⟩ := kmalloc_edits _ childMalloc
  obtain ⟨growth4, _⟩ := kmalloc_edits _ stackMalloc
  have slots : fourth.paging.slots = insert slot first.paging.slots := by
    have kept : fourth.paging.slots = second.paging.slots :=
      Edit.setup_slots (growth_setup slot (growth3.trans growth4))
    rw [kept, samePaging]
    exact copied.slots
  have listed : slot ∈ fourth.paging.slots := by
    rw [slots]
    exact Finset.mem_insert_self _ _
  obtain ⟨toFifth, _⟩ := setupSharedSpace_edits listed shared
  obtain ⟨sharedHeap, sharedEntries⟩ := setupSharedSpace_kernel shared
  have creation : ∀ edit, Edit.IsSetup slot edit → edit.IsPrivate :=
    fun edit setup => creation_private ⟨slot, Or.inr setup⟩
  have account5 : Accounting 0 fifth.paging fifth.heap := by
    rw [sharedHeap]
    exact account4.kept (within_hidden creation toFifth account4.isHidden) sharedEntries
  have account6 := kmalloc_accounting _ account5 nodeMalloc
  obtain ⟨growth6, _⟩ := kmalloc_edits _ nodeMalloc
  have listedLate : slot ∈ sixth.paging.slots := by
    rw [Edit.setup_slots (growth_setup slot growth6), Edit.setup_slots toFifth]
    exact listed
  obtain ⟨toLast, _⟩ := setupCode_edits listedLate code
  obtain ⟨codeHeap, codeEntries⟩ := setupCode_kernel code
  refine ⟨?_, ?_⟩
  · rw [codeHeap]
    exact account6.kept (within_hidden creation toLast account6.isHidden) codeEntries
  · -- the clone is the only step for which the kernel's own mappings matter
    obtain ⟨growth1, _⟩ := kmalloc_edits _ allocated
    have counted1 := within_firstCounted creation (fun _ => id) (growth_setup slot growth1) counted
    have counted2 := copied.firstCounted counted1 account1.unmapped
    have later : edits.Within (Edit.IsSetup slot) second.paging after.paging :=
      (((growth_setup slot (growth3.trans growth4)).trans toFifth).trans
        (growth_setup slot growth6)).trans toLast
    rw [samePaging] at later
    exact within_firstCounted creation (fun _ => id) later counted2

end Construction

section Owners

variable {kernel after : Kernel} {call : Call}

/-- What a call does to the page directories in use and to their owners. -/
theorem perform_owners (owned : Owned kernel) (enabled : kernel.Enabled call)
    (performed : kernel.perform call = .ok after) :
    (∃ slot, Created kernel after slot) ∨ (∃ handle slot, Destroyed kernel after handle slot) ∨
      (after.paging.slots = kernel.paging.slots ∧ ∀ handle, after.owner handle = kernel.owner handle) := by
  cases call with
  | createUserTask caller entry codesize arg entryOffset growth =>
      obtain ⟨⟨new, handle⟩, run, done⟩ := bind_eq_ok.mp performed
      obtain rfl := pure_eq_ok.mp done
      exact Or.inl (userTask_edits run).2
  | kernelJumpToUserEntry vfsData vfsSize arg growth =>
      obtain ⟨⟨new, handle⟩, run, done⟩ := bind_eq_ok.mp performed
      obtain rfl := pure_eq_ok.mp done
      exact Or.inl (userTask_edits run).2
  | destroyUserTask handle =>
      obtain ⟨slot, destroyed, _⟩ := destroyUserTask_edit owned performed
      exact Or.inr (Or.inl ⟨handle, slot, destroyed⟩)
  | exit caller =>
      obtain ⟨samePaging, _, sameOwner⟩ := exitThisTask_eq performed
      exact Or.inr (Or.inr ⟨by rw [samePaging], sameOwner⟩)
  | mapPage caller vaddr =>
      obtain ⟨⟨new, result⟩, run, done⟩ := bind_eq_ok.mp performed
      obtain rfl := pure_eq_ok.mp done
      obtain ⟨same, unchanged | ⟨edit, ⟨slot, paddr, _, _, rfl⟩, applied⟩⟩ := mapPage_edit owned enabled run
      · exact Or.inr (Or.inr ⟨by rw [unchanged], same.owner⟩)
      · exact Or.inr (Or.inr ⟨slots_congr applied.2.2.2.region, same.owner⟩)
  | unmapPage caller vaddr =>
      obtain ⟨same, edit, ⟨slot, uses, rfl⟩, applied⟩ := unmapPage_edit owned enabled performed
      refine Or.inr (Or.inr ⟨?_, same.owner⟩)
      split at applied
      · exact slots_congr applied.2.2.2.2.region
      · exact slots_congr applied.2.2.2.region
  | sharePage caller handle src =>
      obtain ⟨⟨new, dst⟩, run, done⟩ := bind_eq_ok.mp performed
      obtain rfl := pure_eq_ok.mp done
      obtain ⟨same, edit, ⟨slot, source, vaddr, paddr, _, _, rfl⟩, applied⟩ := sharePage_edit owned enabled run
      exact Or.inr (Or.inr ⟨slots_congr applied.2.2.2.2.2.region, same.owner⟩)
  | growHeap bytes =>
      obtain ⟨within, same⟩ := growHeap_edits performed
      exact Or.inr (Or.inr ⟨Edit.setup_slots (growth_setup 0 within), same.owner⟩)

def Claimed (kernel : Kernel) : Prop :=
  ∀ slot ∈ kernel.paging.slots, ∃ handle, kernel.owner handle = some (.region slot, true)

theorem Claimed.step (claimed : kernel.Claimed) (owned : Owned kernel) (enabled : kernel.Enabled call)
    (performed : kernel.perform call = .ok after) : after.Claimed := by
  intro slot listed
  rcases perform_owners owned enabled performed with ⟨new, created⟩ | ⟨handle, old, destroyed⟩ | ⟨slots, same⟩
  · rw [created.slots, Finset.mem_insert] at listed
    rcases listed with rfl | before
    · refine ⟨kernel.nextTid, ?_⟩
      rw [created.owner, if_pos rfl]
    · obtain ⟨handle, uses⟩ := claimed slot before
      have earlier := owned.known handle _ uses
      refine ⟨handle, ?_⟩
      rw [created.owner, if_neg (by omega)]
      exact uses
  · rw [destroyed.slots, Finset.mem_erase] at listed
    obtain ⟨other, uses⟩ := claimed slot listed.2
    refine ⟨other, ?_⟩
    rw [destroyed.owner, if_neg]
    · exact uses
    · rintro rfl
      rw [destroyed.owned] at uses
      obtain ⟨same, _⟩ := Prod.mk.inj (Option.some.inj uses)
      exact listed.1 (PageDirPtr.region.inj same).symm
  · rw [slots] at listed
    obtain ⟨handle, uses⟩ := claimed slot listed
    exact ⟨handle, by rw [same]; exact uses⟩

end Owners

section Runs

variable {kernel after : Kernel} {call : Call}

structure Accounted (kernel : Kernel) : Prop where
  owned : Owned kernel
  accounting : Accounting 0 kernel.paging kernel.heap
  first : FirstCounted kernel.paging
  claimed : kernel.Claimed

theorem mapPage_heap {caller : Nat} {vaddr : UInt32} {result : MapResult}
    (run : kernel.mapPage caller vaddr = .ok (after, result)) : after.heap = kernel.heap := by
  unfold mapPage at run
  split at run
  · obtain ⟨rfl, _⟩ := Prod.mk.inj (pure_eq_ok.mp run)
    rfl
  · obtain ⟨task, _, rest⟩ := bind_eq_ok.mp run
    split at rest
    · obtain ⟨rfl, _⟩ := Prod.mk.inj (pure_eq_ok.mp rest)
      rfl
    · obtain ⟨paddr, _, rest⟩ := bind_eq_ok.mp rest
      split at rest
      · obtain ⟨rfl, _⟩ := Prod.mk.inj (pure_eq_ok.mp rest)
        rfl
      · obtain ⟨paging, _, done⟩ := bind_eq_ok.mp rest
        obtain ⟨rfl, _⟩ := Prod.mk.inj (pure_eq_ok.mp done)
        rfl

theorem sharePage_heap {caller handle : Nat} {src dst : UInt32}
    (run : kernel.sharePage caller handle src = .ok (after, dst)) : after.heap = kernel.heap := by
  obtain ⟨task, _, rest⟩ := bind_eq_ok.mp run
  obtain ⟨_, _, rest⟩ := bind_eq_ok.mp rest
  obtain ⟨_, _, rest⟩ := bind_eq_ok.mp rest
  obtain ⟨current, _, rest⟩ := bind_eq_ok.mp rest
  cases free : kernel.paging.getNextFreeVirtualUser current.pageDirectory with
  | none =>
      rw [free] at rest
      cases rest
  | some vaddr =>
      rw [free] at rest
      obtain ⟨_, _, rest⟩ := bind_eq_ok.mp rest
      obtain ⟨_, _, rest⟩ := bind_eq_ok.mp rest
      obtain ⟨paddr, _, rest⟩ := bind_eq_ok.mp rest
      obtain ⟨paging, _, done⟩ := bind_eq_ok.mp rest
      obtain ⟨rfl, _⟩ := Prod.mk.inj (pure_eq_ok.mp done)
      rfl

theorem destroyUserTask_heap {handle : Nat} (run : kernel.destroyUserTask handle = .ok after) :
    after.heap = kernel.heap := by
  obtain ⟨task, _, rest⟩ := bind_eq_ok.mp run
  obtain ⟨_, _, rest⟩ := bind_eq_ok.mp rest
  obtain ⟨paging, _, rest⟩ := bind_eq_ok.mp rest
  obtain ⟨_, _, rest⟩ := bind_eq_ok.mp rest
  cases parent : task.parent with
  | none =>
      rw [parent] at rest
      obtain rfl := pure_eq_ok.mp rest
      rfl
  | some ancestor =>
      rw [parent] at rest
      obtain ⟨unlinked, removed, done⟩ := bind_eq_ok.mp rest
      obtain ⟨_, _, removed⟩ := bind_eq_ok.mp removed
      obtain ⟨_, _, removed⟩ := bind_eq_ok.mp removed
      obtain rfl := pure_eq_ok.mp removed
      obtain rfl := pure_eq_ok.mp done
      rfl

/-- A call constructs a task, lets the heap grow, or makes at most one edit and leaves the heap alone. -/
theorem perform_heap (owned : Owned kernel) (enabled : kernel.Enabled call)
    (performed : kernel.perform call = .ok after) :
    (∃ caller handle func codesize arg copyfunc entryOffset growth,
      userTask caller func codesize arg copyfunc entryOffset growth kernel = .ok (after, handle)) ∨
    (∃ bytes, growHeap bytes kernel = .ok after) ∨
    (after.heap = kernel.heap ∧ (after.paging = kernel.paging ∨
      ∃ edit, kernel.CallEdit call edit ∧ edit.Applies kernel.paging after.paging)) := by
  cases call with
  | createUserTask caller entry codesize arg entryOffset growth =>
      obtain ⟨⟨new, handle⟩, run, done⟩ := bind_eq_ok.mp performed
      obtain rfl := pure_eq_ok.mp done
      exact Or.inl ⟨_, handle, _, _, _, _, _, _, run⟩
  | kernelJumpToUserEntry vfsData vfsSize arg growth =>
      obtain ⟨⟨new, handle⟩, run, done⟩ := bind_eq_ok.mp performed
      obtain rfl := pure_eq_ok.mp done
      exact Or.inl ⟨_, handle, _, _, _, _, _, _, run⟩
  | destroyUserTask handle =>
      obtain ⟨slot, destroyed, applied⟩ := destroyUserTask_edit owned performed
      exact Or.inr (Or.inr ⟨destroyUserTask_heap performed, Or.inr ⟨_, ⟨slot, destroyed.owned, rfl⟩, applied⟩⟩)
  | exit caller =>
      obtain ⟨task, _, done⟩ := bind_eq_ok.mp performed
      obtain rfl := pure_eq_ok.mp done
      exact Or.inr (Or.inr ⟨rfl, Or.inl rfl⟩)
  | mapPage caller vaddr =>
      obtain ⟨⟨new, result⟩, run, done⟩ := bind_eq_ok.mp performed
      obtain rfl := pure_eq_ok.mp done
      exact Or.inr (Or.inr ⟨mapPage_heap run, (mapPage_edit owned enabled run).2⟩)
  | unmapPage caller vaddr =>
      have edit := unmapPage_edit owned enabled performed
      obtain ⟨current, _, rest⟩ := bind_eq_ok.mp performed
      obtain ⟨_, _, rest⟩ := bind_eq_ok.mp rest
      obtain ⟨paging, _, done⟩ := bind_eq_ok.mp rest
      obtain rfl := pure_eq_ok.mp done
      exact Or.inr (Or.inr ⟨rfl, Or.inr edit.2⟩)
  | sharePage caller handle src =>
      obtain ⟨⟨new, dst⟩, run, done⟩ := bind_eq_ok.mp performed
      obtain rfl := pure_eq_ok.mp done
      exact Or.inr (Or.inr ⟨sharePage_heap run, Or.inr (sharePage_edit owned enabled run).2⟩)
  | growHeap bytes => exact Or.inr (Or.inl ⟨bytes, performed⟩)

/-- The edit of a call is to a page directory of a user task. -/
theorem callEdit_spares {edit : Edit} {new : Paging} (allowed : kernel.CallEdit call edit)
    (applied : edit.Applies kernel.paging new) :
    (∀ slot, edit ≠ .clone slot) ∧ ∀ index, new.pageDirs .kernel index = kernel.paging.pageDirs .kernel index := by
  cases call with
  | destroyUserTask handle =>
      obtain ⟨slot, _, rfl⟩ := allowed
      exact ⟨by simp, fun index => by rw [applied.2.pageDirs]⟩
  | mapPage caller vaddr =>
      obtain ⟨slot, paddr, _, _, rfl⟩ := allowed
      exact ⟨by simp, fun index => by rw [applied.2.2.2.pageDirs, if_neg (by simp)]⟩
  | unmapPage caller vaddr =>
      obtain ⟨slot, _, rfl⟩ := allowed
      split at applied
      · rename_i mapped
        rw [if_pos mapped]
        exact ⟨by simp, fun index => by rw [applied.2.2.2.2.pageDirs, if_neg (by simp)]⟩
      · rename_i absent
        rw [if_neg absent]
        exact ⟨by simp, fun index => by rw [applied.2.2.2.pageDirs, if_neg (by simp)]⟩
  | sharePage caller handle src =>
      obtain ⟨slot, source, vaddr, paddr, _, _, rfl⟩ := allowed
      exact ⟨by simp, fun index => by rw [applied.2.2.2.2.2.pageDirs, if_neg (by simp)]⟩
  | createUserTask _ _ _ _ _ _ => exact absurd allowed id
  | kernelJumpToUserEntry _ _ _ _ => exact absurd allowed id
  | exit _ => exact absurd allowed id
  | growHeap _ => exact absurd allowed id

theorem Accounted.step (before : Accounted kernel) (owned : Owned after) (isHidden : Hidden after.paging)
    (enabled : kernel.Enabled call) (condition : kernel.SharesUserFrames call)
    (performed : kernel.perform call = .ok after) : Accounted after := by
  have claimed := before.claimed.step before.owned enabled performed
  rcases perform_heap before.owned enabled performed with
    ⟨_, _, _, _, _, _, _, _, run⟩ | ⟨bytes, run⟩ | ⟨sameHeap, unchanged | ⟨edit, allowed, applied⟩⟩
  · obtain ⟨accounting, first⟩ := userTask_accounting before.accounting before.first run
    exact ⟨owned, accounting, first, claimed⟩
  · obtain ⟨within, _⟩ := growHeap_edits run
    have setup := growth_setup 0 within
    have first := within_firstCounted (fun edit setup => creation_private ⟨0, Or.inr setup⟩) (fun _ => id)
      setup before.first
    exact ⟨owned, growHeap_accounting before.accounting run, first, claimed⟩
  · refine ⟨owned, ?_, ?_, claimed⟩
    · rw [unchanged, sameHeap]
      exact before.accounting
    · rw [unchanged]
      exact before.first
  · obtain ⟨noClone, entries⟩ := callEdit_spares allowed applied
    refine ⟨owned, ?_, ?_, claimed⟩
    · rw [sameHeap]
      exact before.accounting.kept isHidden fun index => by rw [entries]
    · exact Edit.firstCounted (callEdit_sharesUserFrame condition allowed applied)
        (fun slot same => absurd same (noClone slot)) before.first applied

theorem Initialized.accounting {state : Paging} (initialized : Initialized state) :
    Accounting 0 state kernHeapBegin := by
  have pages : kernelPages state = {1, 2} := by
    ext index
    rw [mem_kernelPages, initialized.kernel, Finset.mem_insert, Finset.mem_singleton]
    split
    · rename_i here
      exact iff_of_true ⟨by omega, present_pageEntry _ _⟩ (Or.inl here)
    · split
      · rename_i here
        exact iff_of_true ⟨by omega, present_pageEntry _ _⟩ (Or.inr here)
      · simp [*, present_zero]
  refine ⟨initialized.hidden, ⟨?_, ?_, ?_, ?_⟩, ?_⟩
  · intro index member frame maps
    rw [initialized.kernel] at maps
    rw [pages, Finset.mem_insert, Finset.mem_singleton] at member
    rcases member with rfl | rfl
    · rw [if_pos rfl, frameOf_pageEntry] at maps
      obtain rfl := Option.some.inj maps
      decide
    · rw [if_neg (by decide), if_pos rfl, frameOf_pageEntry] at maps
      obtain rfl := Option.some.inj maps
      decide
  · intro frame maps
    rw [initialized.kernel, if_neg (by decide), if_neg (by decide), frameOf_zero] at maps
    cases maps
  · rw [pages]
    decide
  · rw [pages]
    decide
  · rw [initialized.kernel, if_neg (by decide), if_neg (by decide)]

/-- The kernel after its setup: the first page is closed again. -/
theorem kernelSetup_accounted {highMemKB : UInt32} {slots : Nat → PageDirectory} {memory : Memory}
    {requests : List UInt32} {initrd : Option (List UInt32)}
    (run : kernelSetup highMemKB slots memory requests initrd = .ok kernel) : Accounted kernel := by
  obtain ⟨owned, start, initialized, within⟩ := kernelSetup_edits run
  have first := within_firstCounted (fun _ => boot_private) (fun _ => id) within initialized.firstCounted
  have noSlots : kernel.paging.slots = ∅ := by
    refine within.preserves (fun state => state.slots = ∅) ?_ initialized.slots
    intro state edit after allowed same applied
    rw [← same]
    cases edit with
    | kernelPage vaddr paddr => exact slots_congr applied.2.2.2.region
    | unmap pd vaddr => exact slots_congr applied.2.2.2.2.region
    | _ => exact absurd allowed id
  refine ⟨owned, ?_, first, fun slot listed => by rw [noSlots] at listed; simp at listed⟩
  obtain ⟨fresh, booted, rest⟩ := bind_eq_ok.mp run
  have isInitialized := (initializePaging_spec highMemKB slots).of_ok booted
  obtain ⟨early, grown, rest⟩ := bind_eq_ok.mp rest
  obtain ⟨second, allocated, rest⟩ := bind_eq_ok.mp rest
  have account2 := kmalloc_accounting requests (growHeap_accounting (Initialized.accounting isInitialized) grown)
    allocated
  cases initrd with
  | none =>
      obtain rfl := pure_eq_ok.mp rest
      exact account2
  | some growth =>
      obtain ⟨mapped, added, rest⟩ := bind_eq_ok.mp rest
      obtain ⟨third, moduleMalloc, rest⟩ := bind_eq_ok.mp rest
      obtain ⟨new, removed, done⟩ := bind_eq_ok.mp rest
      obtain rfl := pure_eq_ok.mp done
      have own : isReplicated 0 = false := by decide
      have zero : pageIndex4M 0 = 0 := by decide
      have unused : second.paging.frameUsed 0 = false := by
        refine growth_firstFrame ((growHeap_edits grown).1.trans (kmalloc_edits _ allocated).1) ?_
        rw [Bool.eq_false_iff, ne_eq, isInitialized.used 0 (by decide), isInitialized.count 0 (by decide)]
        decide
      obtain ⟨_, aligned, _, installed⟩ := (addPage_spec second.paging .kernel 0 0 0 true).of_ok added
      have hiddenMapped : Hidden mapped := by
        refine Edit.hidden (show (Edit.kernelPage 0 0).SharesUserFrame second.paging from True.intro)
          account2.isHidden ⟨aligned, by rw [zero]; exact unused, by simp [own], installed⟩
      rw [targets_own fun _ => own, zero] at installed
      have accountMapped : Accounting (pageEntry 0 0) mapped second.heap := by
        refine ⟨hiddenMapped, account2.pages.congr ?_ ?_, ?_⟩
        · intro index other
          rw [installed.pageDirs, if_neg (by simp [other])]
        · intro frame maps
          rw [installed.pageDirs, if_pos ⟨Finset.mem_singleton_self _, rfl⟩, frameOf_pageEntry] at maps
          exact (Option.some.inj maps).symm
        · rw [installed.pageDirs, if_pos ⟨Finset.mem_singleton_self _, rfl⟩]
      have account3 : Accounting (pageEntry 0 0) third.paging third.heap :=
        kmalloc_accounting growth accountMapped moduleMalloc
      obtain ⟨_, cleared, _⟩ := (removePage_spec third.paging .kernel 0).of_ok removed
      rw [targets_own fun _ => own, zero, account3.firstEntry] at cleared
      have closed : new.pageDirs .kernel 0 = 0 := by
        rw [cleared.pageDirs, if_pos ⟨Finset.mem_singleton_self _, rfl⟩]
      have hiddenNew : Hidden new := cleared.hidden account3.isHidden (kernel_mem_live _) (by decide)
        (Or.inl (by rw [account3.firstEntry, frameOf_pageEntry]; decide))
      refine ⟨hiddenNew, account3.pages.congr ?_ ?_, closed⟩
      · intro index other
        change frameOf (new.pageDirs .kernel index) = _
        rw [cleared.pageDirs, if_neg (by simp [other])]
      · intro frame maps
        change frameOf (new.pageDirs .kernel 0) = _ at maps
        rw [closed, frameOf_zero] at maps
        cases maps

theorem Accounted.equivalent {paging : Paging} (before : Accounted kernel)
    (equivalent : Equivalent kernel.paging paging) (memory : Memory) : Accounted { kernel with paging, memory } := by
  have slots := slots_congr equivalent.region
  refine ⟨before.owned.congr slots (fun _ => rfl) rfl, ?_, equivalent.firstCounted before.first, ?_⟩
  · exact before.accounting.kept (Equivalent.hidden equivalent before.accounting.isHidden) (equivalent.frameOf .kernel)
  · intro slot listed
    rw [slots] at listed
    exact before.claimed slot listed

theorem reachable_accounted (reachable : (ownRuns SharesUserFrames).Reachable kernel) : Accounted kernel := by
  refine (ownRuns_invariant Accounted (fun _ _ _ _ _ _ => kernelSetup_accounted) ?_ ?_ reachable).2
  · intro state call next sound before enabled condition performed
    have isHidden := perform_hidden sound.owned before.accounting.isHidden enabled condition performed
    exact before.step (sound.perform enabled performed).owned isHidden enabled condition performed
  · intro state paging memory before equivalent
    exact before.equivalent equivalent memory

end Runs

section FreePages

variable {kernel : Kernel}

theorem numFreePages_eq (paging : Paging) : paging.physicalBitmap.numFreePages =
    ((Finset.range 1024).filter fun frame => paging.frameUsed frame = false).card := by
  rw [PhysicalBitmap4M.numFreePages, List.countP_eq_length_filter]
  refine congrArg List.length (List.filter_congr ?_)
  intro frame _
  change (!paging.physicalBitmap.bits.isSet frame) = decide (paging.physicalBitmap.bits.isSet frame = false)
  cases paging.physicalBitmap.bits.isSet frame with
  | true => rfl
  | false => rfl

theorem Accounted.noSlots (accounted : Accounted kernel)
    (noTasks : ∀ handle task, kernel.tasks handle = some task → task.isUserTask = false) :
    kernel.paging.slots = ∅ := by
  refine Finset.eq_empty_of_forall_notMem ?_
  intro slot listed
  obtain ⟨handle, uses⟩ := accounted.claimed slot listed
  obtain ⟨task, found, same⟩ := Option.map_eq_some_iff.mp uses
  have isUser : task.isUserTask = true := congrArg Prod.snd same
  rw [noTasks handle task found] at isUser
  cases isUser

/-- Without user tasks the free frames are the first one and those that the kernel does not map. -/
theorem Accounted.used_iff (accounted : Accounted kernel) (noSlots : kernel.paging.slots = ∅) {frame : Nat}
    (bound : frame < 1024) : kernel.paging.frameUsed frame = false ↔
      frame = 0 ∨ frame ∈ (Finset.Ico 1 kPhysicalPages).filter fun frame =>
        kernel.paging.mapCount .kernel frame = 0 := by
  have mapped : kernel.paging.mappings frame = kernel.paging.mapCount .kernel frame := by
    rw [mappings_eq_sum, noSlots, Finset.sum_empty, Nat.add_zero]
  rw [Bool.eq_false_iff, ne_eq, Finset.mem_filter, Finset.mem_Ico]
  by_cases zero : frame = 0
  · subst zero
    rw [accounted.accounting.unmapped] at mapped
    have count := accounted.first.count
    rw [accounted.first.used]
    omega
  · have counted := accounted.accounting.isHidden.counted frame bound zero
    have count := counted.count
    rw [mapped, reserved] at count
    rw [counted.used]
    split at count
    · omega
    · omega

end FreePages

end Kernel

end ToyKernel
