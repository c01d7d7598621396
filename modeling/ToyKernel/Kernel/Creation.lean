import ToyKernel.Kernel.Separation
import ToyKernel.Kernel.TaskCopies

/-!
What the constructor of `UserTask` does to physical memory. The argument goes through the page
directory of the task that runs the constructor, the initial stack and the code go to the new task.
-/

namespace ToyKernel

open Library Paging

namespace Paging

/-- From the given one on, frames that are not marked as used have no references and no mappings. -/
def Unclaimed (low : Nat) (state : Paging) : Prop :=
  ∀ frame, low ≤ frame → frame < 1024 → state.frameUsed frame = false →
    state.count frame = 0 ∧ ∀ pd ∈ state.live, ∀ index < 1024, frameOf (state.pageDirs pd index) ≠ some frame

def KernelMapped (state : Paging) : Prop :=
  present (state.pageDirs .kernel 1) = true ∧ present (state.pageDirs .kernel 2) = true

variable {old new : Paging} {targets : Finset PageDirPtr} {index page slot low : Nat} {entry : UInt32}

theorem Installed.unclaimed (installed : Installed old new targets index entry page)
    (maps : frameOf entry = some page) (unclaimed : Unclaimed low old) : Unclaimed low new := by
  intro frame above bound free
  have different : frame ≠ page := by
    intro same
    rw [(installed.used frame).mpr (Or.inl same)] at free
    cases free
  have freeBefore : old.frameUsed frame = false := by
    by_contra used
    rw [(installed.used frame).mpr (Or.inr (by simpa using used))] at free
    cases free
  obtain ⟨count, unmapped⟩ := unclaimed frame above bound freeBefore
  refine ⟨?_, ?_⟩
  · rw [installed.count, if_neg different]
    exact count
  · intro pd isLive i below mapped
    rw [live_congr (slots_congr installed.region)] at isLive
    rw [installed.pageDirs] at mapped
    split at mapped
    · rw [maps] at mapped
      exact different (Option.some.inj mapped).symm
    · exact unmapped pd isLive i below mapped

theorem Cloned.unclaimed (cloned : Cloned old new .kernel slot) (unclaimed : Unclaimed low old) :
    Unclaimed low new := by
  intro frame above bound free
  rw [cloned.used] at free
  obtain ⟨count, unmapped⟩ := unclaimed frame above bound free
  have kernelUnmapped := unmapped .kernel (kernel_mem_live old)
  refine ⟨?_, ?_⟩
  · have none : old.mapCount .kernel frame = 0 :=
      occurrences_zero fun i member => kernelUnmapped i (mem_indices.mp member)
    rw [cloned.count, count, none]
  · intro pd isLive i below mapped
    rw [cloned.pageDirs] at mapped
    split at mapped
    · exact kernelUnmapped i below mapped
    · rename_i other
      exact unmapped pd ((cloned.mem_live.mp isLive).resolve_left other) i below mapped

theorem Hidden.unclaimed {state : Paging} (isHidden : Hidden state) : Unclaimed 1 state := by
  intro frame above bound free
  have counted := isHidden.counted frame bound (by omega)
  exact ⟨counted.unreferenced free, fun pd isLive index below => unmapped_of_mappings (counted.free free).1 isLive below⟩

theorem Extends.kernelEntries {closes : Prop} (extension : Extends closes old new) (mapped : KernelMapped old) :
    new.pageDirs .kernel 1 = old.pageDirs .kernel 1 ∧ new.pageDirs .kernel 2 = old.pageDirs .kernel 2 :=
  ⟨extension.entries .kernel (kernel_mem_live old) 1 (by decide) (fun here => absurd here.2.2 (by decide)) mapped.1,
    extension.entries .kernel (kernel_mem_live old) 2 (by decide) (fun here => absurd here.2.2 (by decide)) mapped.2⟩

theorem KernelMapped.kept {closes : Prop} (mapped : KernelMapped old) (extension : Extends closes old new) :
    KernelMapped new := by
  obtain ⟨first, second⟩ := extension.kernelEntries mapped
  rw [KernelMapped, first, second]
  exact mapped

/-- The replicated pages below the heap are the two of the kernel itself. -/
theorem replicated_index {vaddr : UInt32} (replicated : isReplicated vaddr = true)
    (elsewhere : isKernelHeap vaddr = false) : pageIndex4M vaddr = 1 ∨ pageIndex4M vaddr = 2 := by
  have start : kernelStart.toNat = 4194304 := by decide
  have stop : kernelEnd.toNat = 8388608 := by decide
  have regionStart : pageDirectoryRegionStart.toNat = 8388608 := by decide
  have regionEnd : pageDirectoryRegionEnd.toNat = 12582912 := by decide
  rw [isReplicated, elsewhere, Bool.or_false, Bool.or_eq_true, isKernelCode, isPageDirRegion,
    Bool.and_eq_true, Bool.and_eq_true] at replicated
  simp only [decide_eq_true_eq, UInt32.le_iff_toNat_le, UInt32.lt_iff_toNat_lt] at replicated
  rw [pageIndex4M_eq]
  omega

structure Enlarged (low : Nat) (old new : Paging) : Prop where
  tidy : Tidy new
  mapped : KernelMapped new
  unclaimed : Unclaimed low new
  extension : Extends False old new
  used : ∀ frame, old.frameUsed frame = true → new.frameUsed frame = true

theorem Enlarged.trans {middle : Paging} (first : Enlarged low old middle) (second : Enlarged low middle new) :
    Enlarged low old new :=
  ⟨second.tidy, second.mapped, second.unclaimed, first.extension.trans second.extension,
    fun frame used => second.used frame (first.used frame used)⟩

theorem Installed.enlarged (installed : Installed old new targets index entry page) (maps : frameOf entry = some page)
    (tidy : Tidy old) (mapped : KernelMapped old) (unclaimed : Unclaimed low old) : Enlarged low old new where
  tidy := installed.tidy tidy (frameOf_eq_some.mp maps).1
  mapped := mapped.kept (installed.extends False)
  unclaimed := installed.unclaimed maps unclaimed
  extension := installed.extends False
  used frame used := (installed.used frame).mpr (Or.inr used)

theorem Cloned.enlarged (cloned : Cloned old new .kernel slot) (tidy : Tidy old) (mapped : KernelMapped old)
    (unclaimed : Unclaimed low old) : Enlarged low old new where
  tidy := Cloned.tidy cloned tidy (kernel_mem_live old)
  mapped := mapped.kept (cloned.extends False)
  unclaimed := cloned.unclaimed unclaimed
  extension := cloned.extends False
  used frame used := by rwa [cloned.used]

theorem Extends.unmapped {frame : Nat} (extension : Extends False old new)
    (unmapped : ∀ pd ∈ new.live, ∀ index < 1024, frameOf (new.pageDirs pd index) ≠ some frame) :
    ∀ pd ∈ old.live, ∀ index < 1024, frameOf (old.pageDirs pd index) ≠ some frame := by
  intro pd isLive index bound maps
  have same := extension.entries pd isLive index bound (by simp) (frameOf_eq_some.mp maps).1
  rw [← same] at maps
  exact unmapped pd (extension.live isLive) index bound maps

theorem Initialized.kernelMapped {state : Paging} (initialized : Initialized state) : KernelMapped state := by
  rw [KernelMapped, initialized.kernel, initialized.kernel, if_pos rfl, if_neg (by decide), if_pos rfl]
  exact ⟨present_pageEntry _ _, present_pageEntry _ _⟩

end Paging

/-- No edit touches the pages of the kernel and of the page directories. -/
theorem Edit.kernelEntries {edit : Edit} {old new : Paging} (applied : edit.Applies old new)
    (mapped : KernelMapped old) :
    new.pageDirs .kernel 1 = old.pageDirs .kernel 1 ∧ new.pageDirs .kernel 2 = old.pageDirs .kernel 2 := by
  cases edit with
  | temporary => exact (Equivalent.extends False applied).kernelEntries mapped
  | kernelPage vaddr paddr => exact (applied.2.2.2.extends False).kernelEntries mapped
  | userPage slot vaddr paddr => exact (applied.2.2.2.extends False).kernelEntries mapped
  | sharedPage slot source src vaddr paddr => exact (applied.2.2.2.2.2.extends False).kernelEntries mapped
  | unmap pd vaddr =>
      obtain ⟨_, aligned, own, _, cleared⟩ := applied
      have elsewhere : ∀ i < 1024, isReplicated (pageAddr4M i) = true →
          new.pageDirs .kernel i = old.pageDirs .kernel i := by
        intro i _ replicated
        rw [cleared.pageDirs, if_neg]
        rintro ⟨member, rfl⟩
        rw [pageAddr4M_pageIndex4M aligned, own (Finset.mem_singleton.mp member).symm] at replicated
        cases replicated
      exact ⟨elsewhere 1 (by decide) (by decide), elsewhere 2 (by decide) (by decide)⟩
  | unmapAbsent slot vaddr =>
      obtain ⟨_, _, _, cleared⟩ := applied
      rw [cleared.pageDirs, cleared.pageDirs, if_neg (by simp), if_neg (by simp)]
      exact ⟨rfl, rfl⟩
  | clone slot => exact (Cloned.extends False applied).kernelEntries mapped
  | reclaim slot =>
      rw [applied.2.pageDirs]
      exact ⟨rfl, rfl⟩

theorem Edit.kernelMapped {edit : Edit} {old new : Paging} (applied : edit.Applies old new)
    (mapped : KernelMapped old) : KernelMapped new := by
  obtain ⟨first, second⟩ := Edit.kernelEntries applied mapped
  rw [KernelMapped, first, second]
  exact mapped

namespace Kernel

section Growth

variable {old new : Paging} {low slot index : Nat}

theorem growth_enlarged (within : edits.Within Edit.IsGrowth old new) (tidy : Tidy old) (mapped : KernelMapped old)
    (unclaimed : Unclaimed low old) : Enlarged low old new := by
  refine within.preserves (Enlarged low old) ?_ ⟨tidy, mapped, unclaimed, .refl _ _, fun _ used => used⟩
  intro state edit after growth grown applied
  cases edit with
  | kernelPage vaddr paddr =>
      obtain ⟨_, _, _, installed⟩ := applied
      exact grown.trans (installed.enlarged (frameOf_pageEntry paddr 0) grown.tidy grown.mapped grown.unclaimed)
  | _ => exact absurd growth id

theorem growth_entries (within : edits.Within Edit.IsGrowth old new) (mapped : KernelMapped old)
    (bound : index < 1024) (elsewhere : isKernelHeap (pageAddr4M index) = false) :
    new.pageDirs (.region slot) index = old.pageDirs (.region slot) index := by
  have whole : KernelMapped new ∧ new.pageDirs (.region slot) index = old.pageDirs (.region slot) index := by
    refine within.preserves (fun state => KernelMapped state ∧
      state.pageDirs (.region slot) index = old.pageDirs (.region slot) index) ?_ ⟨mapped, rfl⟩
    rintro state edit after growth ⟨before, same⟩ applied
    refine ⟨Edit.kernelMapped applied before, ?_⟩
    cases edit with
    | kernelPage vaddr paddr =>
        obtain ⟨aligned, _, _, installed⟩ := applied
        rw [installed.pageDirs, if_neg, same]
        rintro ⟨member, rfl⟩
        -- a replicated page that is not in the heap's region is one of the kernel's own pages
        have absent := installed.empty .kernel (self_mem_targets _ _ _)
        have replicated : isReplicated vaddr = true := by
          by_contra own
          rw [targets_own fun _ => by simpa using own] at member
          simp at member
        rw [pageAddr4M_pageIndex4M aligned] at elsewhere
        rcases replicated_index replicated elsewhere with first | second
        · rw [first, before.1] at absent
          cases absent
        · rw [second, before.2] at absent
          cases absent
    | _ => exact absurd growth id
  exact whole.2

theorem reachable_kernelMapped {Condition : Kernel → Call → Prop} {kernel : Kernel}
    (reachable : (runs Condition).Reachable kernel) : KernelMapped kernel.paging :=
  (reachable_paging KernelMapped (fun _ initialized => initialized.kernelMapped)
    (fun _ _ _ => Edit.kernelMapped) reachable).2

end Growth

section Pages

variable {pd : PageDirectory} {memory after : Memory} {bytes : List UInt8} {frame : Nat} {vaddr : UInt32}

theorem writeBytes_outside (written : writeBytes pd vaddr bytes memory = .ok after)
    (maps : frameOf (pd (pageIndex4M vaddr)) = some frame)
    (inside : vaddr.toNat % 4194304 + bytes.length ≤ 4194304) {address : Nat}
    (outside : address < frame * 4194304 + vaddr.toNat % 4194304 ∨
      frame * 4194304 + vaddr.toNat % 4194304 + bytes.length ≤ address) : after address = memory address := by
  induction bytes generalizing vaddr memory with
  | nil =>
      obtain rfl := pure_eq_ok.mp written
      rfl
  | cons byte rest ih =>
      obtain ⟨target, translated, later⟩ := bind_eq_ok.mp written
      obtain ⟨found, mapped, rfl⟩ := translate_eq_ok.mp translated
      obtain rfl : frame = found := Option.some.inj (maps.symm.trans mapped)
      rw [List.length_cons] at inside outside
      have first : store memory (frame * 4194304 + vaddr.toNat % 4194304) byte address = memory address :=
        store_other memory byte (by omega)
      cases rest with
      | nil =>
          obtain rfl := pure_eq_ok.mp later
          exact first
      | cons second rest =>
          rw [List.length_cons] at inside outside
          obtain ⟨index, offset⟩ := succ_in_page (show vaddr.toNat % 4194304 + 1 < 4194304 by omega)
          rw [ih later (by rw [index]; exact maps) (by rw [List.length_cons]; omega)
            (by rw [List.length_cons]; omega)]
          exact first

theorem Holds.byte (holds : Holds pd memory vaddr bytes)
    (maps : frameOf (pd (pageIndex4M vaddr)) = some frame)
    (inside : vaddr.toNat % 4194304 + bytes.length ≤ 4194304) {i : Nat} (below : i < bytes.length) :
    memory (frame * 4194304 + vaddr.toNat % 4194304 + i) = bytes[i] := by
  induction bytes generalizing vaddr i with
  | nil => exact absurd below (Nat.not_lt_zero i)
  | cons byte rest ih =>
      obtain ⟨⟨address, translated, isByte⟩, later⟩ := holds
      obtain ⟨found, mapped, rfl⟩ := translate_eq_ok.mp translated
      obtain rfl : frame = found := Option.some.inj (maps.symm.trans mapped)
      rw [List.length_cons] at inside below
      cases i with
      | zero =>
          rw [Nat.add_zero]
          exact isByte
      | succ i =>
          obtain ⟨index, offset⟩ := succ_in_page (show vaddr.toNat % 4194304 + 1 < 4194304 by omega)
          have next := ih later (by rw [index]; exact maps) (by omega) (show i < rest.length by omega)
          rw [offset] at next
          rw [List.getElem_cons_succ, ← next]
          congr 1
          omega

theorem holds_page (maps : frameOf (pd (pageIndex4M vaddr)) = some frame)
    (inside : vaddr.toNat % 4194304 + bytes.length ≤ 4194304)
    (same : ∀ i (below : i < bytes.length),
      memory (frame * 4194304 + vaddr.toNat % 4194304 + i) = bytes[i]) : Holds pd memory vaddr bytes := by
  induction bytes generalizing vaddr with
  | nil => exact True.intro
  | cons byte rest ih =>
      have first := same 0 (Nat.zero_lt_succ _)
      rw [Nat.add_zero] at first
      refine ⟨⟨_, translate_eq_ok.mpr ⟨frame, maps, rfl⟩, first⟩, ?_⟩
      cases rest with
      | nil => exact True.intro
      | cons second rest =>
          rw [List.length_cons, List.length_cons] at inside
          obtain ⟨index, offset⟩ := succ_in_page (show vaddr.toNat % 4194304 + 1 < 4194304 by omega)
          refine ih (by rw [index]; exact maps) (by rw [List.length_cons]; omega) ?_
          intro i below
          have next := same (i + 1) (Nat.succ_lt_succ below)
          rw [List.getElem_cons_succ] at next
          rw [← next, offset]
          congr 1
          omega

theorem writeBytes_holds (written : writeBytes pd vaddr bytes memory = .ok after)
    (maps : frameOf (pd (pageIndex4M vaddr)) = some frame)
    (inside : vaddr.toNat % 4194304 + bytes.length ≤ 4194304) : Holds pd after vaddr bytes := by
  induction bytes generalizing vaddr memory with
  | nil => exact True.intro
  | cons byte rest ih =>
      obtain ⟨target, translated, later⟩ := bind_eq_ok.mp written
      obtain ⟨found, mapped, rfl⟩ := translate_eq_ok.mp translated
      obtain rfl : frame = found := Option.some.inj (maps.symm.trans mapped)
      rw [List.length_cons] at inside
      cases rest with
      | nil =>
          obtain rfl := pure_eq_ok.mp later
          exact ⟨⟨_, translated, store_same _ _ _⟩, True.intro⟩
      | cons second rest =>
          obtain ⟨index, offset⟩ := succ_in_page
            (show vaddr.toNat % 4194304 + 1 < 4194304 by rw [List.length_cons] at inside; omega)
          have mapsNext : frameOf (pd (pageIndex4M (vaddr + 1))) = some frame := by
            rw [index]
            exact maps
          refine ⟨⟨_, translated, ?_⟩, ih later mapsNext (by omega)⟩
          rw [writeBytes_outside later mapsNext (by omega) (Or.inl (by omega))]
          exact store_same _ _ _

end Pages

section Stack

variable {kernel after : Kernel} {task current : PageDirPtr} {dst word stackArg entryOffset : UInt32}
  {words : List (UInt32 × UInt32)} {frame index : Nat}

theorem wordBytes_length (word : UInt32) : (wordBytes word).length = 4 := rfl

theorem writeWord_holds (run : writeWord task current dst word kernel = .ok after)
    (maps : frameOf (kernel.paging.pageDirs task (pageIndex4M dst)) = some frame)
    (inside : dst.toNat % 4194304 + 4 ≤ 4194304) :
    Holds (kernel.paging.pageDirs task) after.memory dst (wordBytes word) ∧
      ∀ address, address < frame * 4194304 + dst.toNat % 4194304 ∨
        frame * 4194304 + dst.toNat % 4194304 + 4 ≤ address → after.memory address = kernel.memory address := by
  obtain ⟨found, pd, lent, written⟩ := taskMemcpy_window run
  obtain rfl : frame = found := Option.some.inj (maps.symm.trans lent.source)
  obtain ⟨sharedPage, sharedOffset⟩ := window_address dst
  have mapsShared : frameOf (pd (pageIndex4M (tmpSharedTaskMemStart + dst % kPageSize4M))) = some frame := by
    rw [sharedPage]
    exact lent.mapped
  rw [← sharedOffset] at inside
  have holds := writeBytes_holds written mapsShared inside
  constructor
  · refine holds_page maps (by rw [← sharedOffset]; exact inside) ?_
    intro i below
    rw [← sharedOffset]
    exact holds.byte mapsShared inside below
  · intro address outside
    rw [← sharedOffset] at outside
    exact writeBytes_outside written mapsShared inside outside

theorem writeStack_holds (run : writeStack task current words kernel = .ok after)
    (inPage : ∀ entry ∈ words, pageIndex4M entry.1 = index ∧ entry.1.toNat % 4194304 + 4 ≤ 4194304)
    (apart : words.Pairwise fun first second => first.1.toNat % 4194304 + 4 ≤ second.1.toNat % 4194304 ∨
      second.1.toNat % 4194304 + 4 ≤ first.1.toNat % 4194304)
    (maps : frameOf (kernel.paging.pageDirs task index) = some frame) :
    (∀ entry ∈ words, Holds (kernel.paging.pageDirs task) after.memory entry.1 (wordBytes entry.2)) ∧
      ∀ address, (∀ entry ∈ words, address < frame * 4194304 + entry.1.toNat % 4194304 ∨
        frame * 4194304 + entry.1.toNat % 4194304 + 4 ≤ address) →
        after.memory address = kernel.memory address := by
  induction words generalizing kernel with
  | nil =>
      obtain rfl := pure_eq_ok.mp run
      exact ⟨fun _ member => absurd member List.not_mem_nil, fun _ _ => rfl⟩
  | cons entry rest ih =>
      obtain ⟨middle, wrote, later⟩ := bind_eq_ok.mp run
      obtain ⟨entryIndex, inside⟩ := inPage entry List.mem_cons_self
      obtain ⟨differs, restApart⟩ := List.pairwise_cons.mp apart
      have mapsEntry : frameOf (kernel.paging.pageDirs task (pageIndex4M entry.1)) = some frame := by
        rw [entryIndex]
        exact maps
      obtain ⟨holds, kept⟩ := writeWord_holds wrote mapsEntry inside
      have equivalent := (taskMemcpy_edits wrote).1
      have mapsMiddle : frameOf (middle.paging.pageDirs task index) = some frame := by
        rw [equivalent.frameOf]
        exact maps
      obtain ⟨restHolds, restKept⟩ := ih later
        (fun other member => inPage other (List.mem_cons_of_mem entry member)) restApart mapsMiddle
      constructor
      · intro other member
        rcases List.mem_cons.mp member with rfl | earlier
        · refine holds_page mapsEntry inside ?_
          intro i below
          rw [wordBytes_length] at below
          rw [restKept]
          · exact holds.byte mapsEntry inside below
          · intro query inRest
            have places := differs query inRest
            omega
        · obtain ⟨otherIndex, otherInside⟩ := inPage other member
          refine holds_page (by rw [otherIndex]; exact maps) otherInside ?_
          intro i below
          exact (restHolds other earlier).byte (by rw [otherIndex]; exact mapsMiddle) otherInside below
      · intro address outside
        rw [restKept address fun other member => outside other (List.mem_cons_of_mem entry member)]
        exact kept address (outside entry List.mem_cons_self)

theorem initialStack_places : ∀ entry ∈ initialStack stackArg entryOffset,
    pageIndex4M entry.1 = pageIndex4M userSharedSpaceStart ∧ entry.1.toNat % 4194304 + 4 ≤ 4194304 ∧
      4194280 ≤ entry.1.toNat % 4194304 := by
  simp only [initialStack, List.forall_mem_cons]
  refine ⟨?_, ?_, ?_, ?_, ?_, ?_, fun _ member => absurd member List.not_mem_nil⟩ <;> decide

/-- The six words are at the top of the page of the new task. -/
theorem initialStack_holds (run : writeStack task current (initialStack stackArg entryOffset) kernel = .ok after)
    (maps : frameOf (kernel.paging.pageDirs task (pageIndex4M userSharedSpaceStart)) = some frame) :
    (∀ entry ∈ initialStack stackArg entryOffset,
      Holds (kernel.paging.pageDirs task) after.memory entry.1 (wordBytes entry.2)) ∧
      ∀ address, address < frame * 4194304 + 4194280 ∨ frame * 4194304 + 4194304 ≤ address →
        after.memory address = kernel.memory address := by
  have apart : (initialStack stackArg entryOffset).Pairwise fun first second =>
      first.1.toNat % 4194304 + 4 ≤ second.1.toNat % 4194304 ∨
        second.1.toNat % 4194304 + 4 ≤ first.1.toNat % 4194304 := by
    have addresses : ((initialStack stackArg entryOffset).map Prod.fst).Pairwise
        fun first second => first.toNat % 4194304 + 4 ≤ second.toNat % 4194304 ∨
          second.toNat % 4194304 + 4 ≤ first.toNat % 4194304 := by
      change ([userSharedSpaceEnd - 4, userSharedSpaceEnd - 8, userSharedSpaceEnd - 12,
        userSharedSpaceEnd - 16, userSharedSpaceEnd - 20, userSharedSpaceEnd - 24] : List UInt32).Pairwise _
      decide
    exact List.pairwise_map.mp addresses
  obtain ⟨holds, kept⟩ := writeStack_holds run (fun entry member =>
    ⟨(initialStack_places entry member).1, (initialStack_places entry member).2.1⟩) apart maps
  refine ⟨holds, ?_⟩
  intro address outside
  apply kept
  intro entry member
  have place := initialStack_places entry member
  omega

end Stack

section Setup

variable {kernel after : Kernel} {task current : PageDirPtr} {vaddr arg entryOffset : UInt32} {slot frame low : Nat}

/-- A copy through a page with other references leaves the page tables as they were. -/
theorem taskMemcpy_kept {copy : UInt32 → PageDirectory → Memory → Except Fault Memory}
    (tidy : Tidy kernel.paging) (isLive : current ∈ kernel.paging.live)
    (maps : frameOf (kernel.paging.pageDirs task (pageIndex4M vaddr)) = some frame)
    (used : kernel.paging.frameUsed frame = true) (counted : 0 < kernel.paging.count frame)
    (room : kernel.paging.count frame < 65535)
    (run : taskMemcpy task current vaddr copy kernel = .ok after) : ∃ memory, after = { kernel with memory } := by
  obtain ⟨isPresent, isFrame⟩ := frameOf_eq_some.mp maps
  obtain ⟨_, _, lent, _⟩ := taskMemcpy_window run
  have lends : kernel.CanLend task current vaddr := by
    refine ⟨lent.free, ?_, ?_, ?_⟩
    · rw [isFrame]
      exact used
    · rw [isFrame]
      exact counted
    · rw [isFrame]
      exact room
  rw [taskMemcpy_lends tidy isLive lends isPresent] at run
  obtain ⟨memory, _, done⟩ := bind_eq_ok.mp run
  exact ⟨memory, (pure_eq_ok.mp done).symm⟩

theorem writeStack_kept {words : List (UInt32 × UInt32)} {index : Nat}
    (run : writeStack task current words kernel = .ok after)
    (tidy : Tidy kernel.paging) (isLive : current ∈ kernel.paging.live)
    (inPage : ∀ entry ∈ words, pageIndex4M entry.1 = index)
    (maps : frameOf (kernel.paging.pageDirs task index) = some frame)
    (used : kernel.paging.frameUsed frame = true) (counted : 0 < kernel.paging.count frame)
    (room : kernel.paging.count frame < 65535) : ∃ memory, after = { kernel with memory } := by
  induction words generalizing kernel with
  | nil =>
      obtain rfl := pure_eq_ok.mp run
      exact ⟨kernel.memory, rfl⟩
  | cons entry rest ih =>
      obtain ⟨middle, wrote, later⟩ := bind_eq_ok.mp run
      have first := inPage entry List.mem_cons_self
      obtain ⟨memory, rfl⟩ := taskMemcpy_kept tidy isLive (by rw [first]; exact maps) used counted room wrote
      obtain ⟨last, done⟩ := ih later tidy isLive
        (fun other member => inPage other (List.mem_cons_of_mem entry member)) maps used counted room
      exact ⟨last, done⟩

/-- The shared page of the new task: its frame, the address space that the copy function saw and the
memory that it left, with the initial stack written over it. -/
structure SharedSetup (kernel after : Kernel) (slot : Nat) (current : PageDirPtr) (arg entryOffset : UInt32)
    (copyfunc : CopyArgFunc) (frame : Nat) (pd : PageDirectory) (middle : Memory) (stackArg : UInt32) : Prop where
  positive : 1 ≤ frame
  bound : frame < 1024
  free : kernel.paging.frameUsed frame = false
  installed : ∃ entry, frameOf entry = some frame ∧ userAccessible entry = true ∧
    Installed kernel.paging after.paging {.region slot} sharedIndex entry frame
  keeps : ∀ index < 1024, present (kernel.paging.pageDirs current index) = true →
    pd index = kernel.paging.pageDirs current index
  own : current ≠ .kernel → current ≠ .region slot → pd = kernel.paging.pageDirs current
  shares : current = .kernel → frameOf (pd sharedIndex) = some frame
  copied : copyfunc arg userSharedSpaceStart userSharedSpaceEnd pd kernel.memory = .ok (middle, stackArg)
  stack : ∀ entry ∈ initialStack stackArg entryOffset,
    Holds (after.paging.pageDirs (.region slot)) after.memory entry.1 (wordBytes entry.2)
  kept : ∀ address, address < frame * 4194304 + 4194280 ∨ frame * 4194304 + 4194304 ≤ address →
    after.memory address = middle address

theorem setupSharedSpace_spec {copyfunc : CopyArgFunc} (tidy : Tidy kernel.paging)
    (unclaimed : Unclaimed low kernel.paging) (reaches : low ≤ 1) (isLive : current ∈ kernel.paging.live)
    (run : setupSharedSpace slot current arg entryOffset copyfunc kernel = .ok after) :
    ∃ frame pd middle stackArg,
      SharedSetup kernel after slot current arg entryOffset copyfunc frame pd middle stackArg := by
  obtain ⟨paddr, found, rest⟩ := bind_eq_ok.mp run
  obtain ⟨_, _, rest⟩ := bind_eq_ok.mp rest
  obtain ⟨first, added, rest⟩ := bind_eq_ok.mp rest
  obtain ⟨second, doubled, rest⟩ := bind_eq_ok.mp rest
  obtain ⟨⟨middle, stackArg⟩, copied, rest⟩ := bind_eq_ok.mp rest
  obtain ⟨written, stacked, rest⟩ := bind_eq_ok.mp rest
  obtain ⟨paging, removed, done⟩ := bind_eq_ok.mp rest
  obtain rfl := pure_eq_ok.mp done
  obtain ⟨_, positive, free⟩ := PhysicalBitmap4M.nextFreePhysicalPage_eq_ok found
  have bound := pageIndex4M_lt paddr
  have page : pageIndex4M userSharedSpaceStart = sharedIndex := by decide
  obtain ⟨_, _, _, installed⟩ :=
    (addPage_spec kernel.paging (.region slot) userSharedSpaceStart paddr pgUser.toUInt8 false).of_ok added
  rw [targets_own (by simp), page] at installed
  obtain ⟨_, _, _, mirrored⟩ := (addPage_spec first .kernel userSharedSpaceStart paddr 0 true).of_ok doubled
  have own : first.targets .kernel userSharedSpaceStart = {.kernel} := targets_own fun _ => by decide
  rw [own, page] at mirrored
  have zero : kernel.paging.count (pageIndex4M paddr) = 0 :=
    (unclaimed _ (by omega) bound free).1
  have firstCount : first.count (pageIndex4M paddr) = 1 := by
    rw [installed.count, if_pos rfl, zero, Finset.card_singleton]
  have firstUsed : first.frameUsed (pageIndex4M paddr) = true := (installed.used _).mpr (Or.inl rfl)
  have secondCount : second.count (pageIndex4M paddr) = 2 := by
    rw [mirrored.count, if_pos rfl, firstCount, Finset.card_singleton]
  have secondUsed : second.frameUsed (pageIndex4M paddr) = true := (mirrored.used _).mpr (Or.inl rfl)
  have firstTidy := installed.tidy tidy (present_pageEntry paddr pgUser.toUInt8)
  have secondTidy := mirrored.tidy firstTidy (present_pageEntry paddr 0)
  have secondLive : current ∈ second.live := by
    rw [live_congr (slots_congr mirrored.region), live_congr (slots_congr installed.region)]
    exact isLive
  have entryFirst : first.pageDirs (.region slot) sharedIndex = pageEntry paddr pgUser.toUInt8 := by
    rw [installed.pageDirs, if_pos ⟨Finset.mem_singleton_self _, rfl⟩]
  have entrySecond : second.pageDirs (.region slot) sharedIndex = pageEntry paddr pgUser.toUInt8 := by
    rw [mirrored.pageDirs, if_neg (by simp), entryFirst]
  have maps : frameOf (second.pageDirs (.region slot) sharedIndex) = some (pageIndex4M paddr) := by
    rw [entrySecond]
    exact frameOf_pageEntry paddr _
  have places : ∀ entry ∈ initialStack stackArg entryOffset, pageIndex4M entry.1 = sharedIndex := by
    intro entry member
    rw [← page]
    exact (initialStack_places entry member).1
  obtain ⟨memory, rfl⟩ := writeStack_kept stacked secondTidy secondLive places maps secondUsed
    (by rw [secondCount]; decide) (by rw [secondCount]; decide)
  have undone := removePage_undoes firstTidy (kernel_mem_live first) (by rw [firstCount, firstUsed]; decide)
    doubled (by rw [own, firstCount, Finset.card_singleton]; decide)
  obtain rfl : first = paging := Except.ok.inj (undone.symm.trans removed)
  obtain ⟨holds, kept⟩ := initialStack_holds stacked (by rw [page]; exact maps)
  refine ⟨pageIndex4M paddr, second.pageDirs current, middle, stackArg, ?_⟩
  constructor
  · exact positive
  · exact bound
  · exact free
  · refine ⟨_, frameOf_pageEntry paddr _, ?_, installed⟩
    rw [userAccessible_pageEntry]
    decide
  · intro index below isPresent
    exact ((installed.extends False).trans (mirrored.extends False)).entries current isLive index below
      (by simp) isPresent
  · intro notKernel notNew
    funext index
    rw [mirrored.pageDirs, if_neg fun here => notKernel (Finset.mem_singleton.mp here.1), installed.pageDirs,
      if_neg fun here => notNew (Finset.mem_singleton.mp here.1)]
  · rintro rfl
    rw [mirrored.pageDirs, if_pos ⟨Finset.mem_singleton_self _, rfl⟩]
    exact frameOf_pageEntry paddr 0
  · exact copied
  · have same : second.pageDirs (.region slot) = first.pageDirs (.region slot) := by
      funext index
      rw [mirrored.pageDirs, if_neg (by simp)]
    rw [← same]
    exact holds
  · exact kept

theorem setupCode_spec {func codesize : UInt32} (small : codesize.toNat ≤ 4194304)
    (run : setupCode slot current func codesize kernel = .ok after) :
    ∃ codeFrame entry middle, codeFrame < 1024 ∧ kernel.paging.frameUsed codeFrame = false ∧
      frameOf entry = some codeFrame ∧
      Installed kernel.paging middle {.region slot} (pageIndex4M userStart) entry codeFrame ∧
      Equivalent middle after.paging ∧
      ∀ address, address / 4194304 ≠ codeFrame → after.memory address = kernel.memory address := by
  obtain ⟨paddr, found, rest⟩ := bind_eq_ok.mp run
  obtain ⟨middle, added, rest⟩ := bind_eq_ok.mp rest
  obtain ⟨mapped, _, rest⟩ := bind_eq_ok.mp rest
  obtain ⟨_, _, copied⟩ := bind_eq_ok.mp rest
  obtain ⟨_, _, free⟩ := PhysicalBitmap4M.nextFreePhysicalPage_eq_ok found
  obtain ⟨_, _, _, installed⟩ :=
    (addPage_spec kernel.paging (.region slot) userStart paddr pgUser.toUInt8 false).of_ok added
  rw [targets_own (by simp)] at installed
  have entry : middle.pageDirs (.region slot) (pageIndex4M userStart) = pageEntry paddr pgUser.toUInt8 := by
    rw [installed.pageDirs, if_pos ⟨Finset.mem_singleton_self _, rfl⟩]
  refine ⟨pageIndex4M paddr, _, middle, pageIndex4M_lt paddr, free, frameOf_pageEntry paddr _, installed,
    (write_edits copied).1, ?_⟩
  intro address outside
  unfold write at copied
  split at copied
  · obtain rfl := pure_eq_ok.mp copied
    rfl
  · obtain ⟨frame, pd, lent, moved⟩ := taskMemcpy_window copied
    have source := lent.source
    change frameOf (middle.pageDirs (.region slot) (pageIndex4M userStart)) = some frame at source
    rw [entry, frameOf_pageEntry] at source
    obtain rfl := Option.some.inj source
    obtain ⟨index, offset⟩ := window_address userStart
    have start : userStart.toNat % 4194304 = 0 := by decide
    rw [start] at offset
    refine memcpyVirtual_outside moved (by rw [index]; exact lent.mapped) (by rw [offset]; omega) address ?_
    rw [offset]
    omega

end Setup

section Construction

variable {kernel after : Kernel} {low : Nat}

theorem growHeap_memory {bytes : UInt32} (run : growHeap bytes kernel = .ok after) : after.memory = kernel.memory := by
  obtain ⟨⟨paging, top⟩, _, rest⟩ := bind_eq_ok.mp run
  cases top with
  | none => cases rest
  | some heap =>
      obtain rfl := pure_eq_ok.mp rest
      rfl

theorem kmalloc_memory (requests : List UInt32) (run : kmalloc requests kernel = .ok after) :
    after.memory = kernel.memory := by
  induction requests generalizing kernel with
  | nil =>
      obtain rfl := pure_eq_ok.mp run
      rfl
  | cons bytes rest ih =>
      obtain ⟨middle, grown, later⟩ := bind_eq_ok.mp run
      rw [ih later, growHeap_memory grown]

structure Constructed (kernel after : Kernel) (task : Task) (handle slot frame codeFrame low : Nat)
    (arg entryOffset : UInt32) (copyfunc : CopyArgFunc) (pd : PageDirectory) (middle : Memory)
    (stackArg : UInt32) : Prop where
  child : ∃ new, after.tasks handle = some new ∧ new.pageDirectory = .region slot
  extension : Extends False kernel.paging after.paging
  entries : ∀ other ∈ kernel.paging.slots, ∀ index < 1024, isKernelHeap (pageAddr4M index) = false →
    after.paging.pageDirs (.region other) index = kernel.paging.pageDirs (.region other) index
  keeps : ∀ index < 1024, present (kernel.paging.pageDirs task.pageDirectory index) = true →
    pd index = kernel.paging.pageDirs task.pageDirectory index
  own : ∀ index < 1024, isKernelHeap (pageAddr4M index) = false → task.pageDirectory ≠ .kernel →
    pd index = kernel.paging.pageDirs task.pageDirectory index
  shares : task.pageDirectory = .kernel → frameOf (pd sharedIndex) = some frame
  unmapped : ∀ query ∈ kernel.paging.live, ∀ index < 1024,
    frameOf (kernel.paging.pageDirs query index) ≠ some frame
  codeUnmapped : low ≤ codeFrame → ∀ query ∈ kernel.paging.live, ∀ index < 1024,
    frameOf (kernel.paging.pageDirs query index) ≠ some codeFrame
  different : frame ≠ codeFrame
  copied : copyfunc arg userSharedSpaceStart userSharedSpaceEnd pd kernel.memory = .ok (middle, stackArg)
  maps : after.paging.UserMaps (.region slot) sharedIndex frame
  stack : ∀ entry ∈ initialStack stackArg entryOffset,
    Holds (after.paging.pageDirs (.region slot)) after.memory entry.1 (wordBytes entry.2)
  kept : ∀ address, address < frame * 4194304 + 4194280 ∨ frame * 4194304 + 4194304 ≤ address →
    address / 4194304 ≠ codeFrame → after.memory address = middle address

/-- The constructor up to the shared page: the heap grows and the kernel's page directory is cloned. -/
theorem userTask_prepared {caller handle : Nat} {func codesize arg entryOffset : UInt32} {copyfunc : CopyArgFunc}
    {growth : Growth} (tidy : Tidy kernel.paging) (mapped : KernelMapped kernel.paging)
    (unclaimed : Unclaimed low kernel.paging)
    (run : userTask caller func codesize arg copyfunc entryOffset growth kernel = .ok (after, handle)) :
    ∃ task slot fourth fifth sixth, kernel.tasks caller = some task ∧ slot ∈ fourth.paging.slots ∧
      slot ∉ kernel.paging.slots ∧ Enlarged low kernel.paging fourth.paging ∧ fourth.memory = kernel.memory ∧
      (∀ other ∈ kernel.paging.slots, ∀ index < 1024, isKernelHeap (pageAddr4M index) = false →
        fourth.paging.pageDirs (.region other) index = kernel.paging.pageDirs (.region other) index) ∧
      setupSharedSpace slot task.pageDirectory arg entryOffset copyfunc fourth = .ok fifth ∧
      kmalloc growth.node fifth = .ok sixth ∧
      setupCode slot task.pageDirectory func codesize sixth = .ok after ∧
      ∃ new, fourth.tasks handle = some new ∧ new.pageDirectory = .region slot := by
  obtain ⟨task, first, paging, slot, second, third, fourth, fifth, sixth, found, allocated, cloned, child,
    childMalloc, stackMalloc, shared, nodeMalloc, code, rfl⟩ := userTask_eq_ok.mp run
  obtain ⟨growth1, _⟩ := kmalloc_edits _ allocated
  have grown1 := growth_enlarged growth1 tidy mapped unclaimed
  have copy := (clone_spec first.paging .kernel).of_ok cloned
  have grown2 : Enlarged low kernel.paging paging :=
    grown1.trans (copy.enlarged grown1.tidy grown1.mapped grown1.unclaimed)
  obtain ⟨samePaging, _, _⟩ := addChildTask_eq child
  have sameMemory : second.memory = first.memory := by
    obtain ⟨_, _, made⟩ := bind_eq_ok.mp child
    obtain rfl := pure_eq_ok.mp made
    rfl
  obtain ⟨growth3, same3⟩ := kmalloc_edits _ childMalloc
  obtain ⟨growth4, same4⟩ := kmalloc_edits _ stackMalloc
  have later : edits.Within Edit.IsGrowth paging fourth.paging := by
    have together := growth3.trans growth4
    change edits.Within Edit.IsGrowth second.paging fourth.paging at together
    rwa [samePaging] at together
  have grown4 := grown2.trans (growth_enlarged later grown2.tidy grown2.mapped grown2.unclaimed)
  have sameSlots : first.paging.slots = kernel.paging.slots := Edit.setup_slots (growth_setup slot growth1)
  refine ⟨task, slot, fourth, fifth, sixth, getTask_eq_ok.mp found, ?_, ?_, grown4, ?_, ?_, shared, nodeMalloc,
    code, ?_⟩
  · rw [Edit.setup_slots (growth_setup slot later), copy.slots]
    exact Finset.mem_insert_self _ _
  · rw [← sameSlots]
    exact copy.fresh
  · rw [kmalloc_memory _ stackMalloc, kmalloc_memory _ childMalloc]
    exact sameMemory.trans (kmalloc_memory _ allocated)
  · intro other listed index bound elsewhere
    rw [growth_entries later grown2.mapped bound elsewhere, copy.pageDirs, if_neg,
      growth_entries growth1 mapped bound elsewhere]
    rintro same
    rw [PageDirPtr.region.inj same] at listed
    exact copy.fresh (sameSlots ▸ listed)
  · have created : fourth.tasks first.nextTid = some
        { pageDirectory := .region slot, isUserTask := true, state := .ready, parent := some caller,
          children := [] } := by
      rw [same4.tasks, same3.tasks]
      exact if_pos rfl
    exact ⟨_, created, rfl⟩

theorem userTask_spec {caller handle : Nat} {func codesize arg entryOffset : UInt32} {copyfunc : CopyArgFunc}
    {growth : Growth} (owned : Owned kernel) (tidy : Tidy kernel.paging) (mapped : KernelMapped kernel.paging)
    (unclaimed : Unclaimed low kernel.paging) (reaches : low ≤ 1) (small : codesize.toNat ≤ 4194304)
    (run : userTask caller func codesize arg copyfunc entryOffset growth kernel = .ok (after, handle)) :
    ∃ task slot frame codeFrame pd middle stackArg, kernel.tasks caller = some task ∧
      Constructed kernel after task handle slot frame codeFrame low arg entryOffset copyfunc pd middle stackArg := by
  obtain ⟨task, slot, fourth, fifth, sixth, found, listed, fresh, grown4, sameMemory, entries4, shared, nodeMalloc,
    code, new, child, childPd⟩ := userTask_prepared tidy mapped unclaimed run
  have taskLive : task.pageDirectory ∈ kernel.paging.live := by
    have uses := owner_of found
    cases isUser : task.isUserTask with
    | true =>
        rw [isUser] at uses
        obtain ⟨own, ownListed, same⟩ := owned.userTasks caller _ uses
        rw [same]
        exact region_mem_live.mpr ownListed
    | false =>
        rw [isUser] at uses
        rw [owned.kernelTasks caller _ uses]
        exact kernel_mem_live _
  have notNew : task.pageDirectory ≠ .region slot := by
    intro same
    rw [same, region_mem_live] at taskLive
    exact fresh taskLive
  obtain ⟨frame, pd, middle, stackArg, setup⟩ := setupSharedSpace_spec grown4.tidy grown4.unclaimed reaches
    (grown4.extension.live taskLive) shared
  obtain ⟨entry, entryMaps, entryUser, installed⟩ := setup.installed
  have grown5 := installed.enlarged entryMaps grown4.tidy grown4.mapped grown4.unclaimed
  obtain ⟨growth6, same6⟩ := kmalloc_edits _ nodeMalloc
  have grown6 := growth_enlarged growth6 grown5.tidy grown5.mapped grown5.unclaimed
  obtain ⟨codeFrame, codeEntry, withCode, codeBound, codeFree, codeMaps, codeInstalled, equivalent, codeKept⟩ :=
    setupCode_spec small code
  have grown7 := codeInstalled.enlarged codeMaps grown6.tidy grown6.mapped grown6.unclaimed
  have extension5 : Extends False fifth.paging after.paging :=
    (grown6.extension.trans grown7.extension).trans (equivalent.extends False)
  have extension4 : Extends False kernel.paging fourth.paging := grown4.extension
  have different : frame ≠ codeFrame := by
    rintro rfl
    have used := grown6.used frame ((installed.used frame).mpr (Or.inl rfl))
    rw [codeFree] at used
    cases used
  have slotLive : .region slot ∈ fifth.paging.live := by
    rw [live_congr (slots_congr installed.region)]
    exact region_mem_live.mpr listed
  have entryFifth : fifth.paging.pageDirs (.region slot) sharedIndex = entry := by
    rw [installed.pageDirs, if_pos ⟨Finset.mem_singleton_self _, rfl⟩]
  have entryAfter : after.paging.pageDirs (.region slot) sharedIndex = entry := by
    rw [extension5.entries _ slotLive sharedIndex (by decide) (by simp)
      (by rw [entryFifth]; exact (frameOf_eq_some.mp entryMaps).1), entryFifth]
  have memory6 : sixth.memory = fifth.memory := kmalloc_memory _ nodeMalloc
  have page : pageIndex4M userSharedSpaceStart = sharedIndex := by decide
  refine ⟨task, slot, frame, codeFrame, pd, middle, stackArg, found, ?_⟩
  constructor
  · obtain ⟨_, sameFifth⟩ := setupSharedSpace_edits listed shared
    have listedSixth : slot ∈ sixth.paging.slots :=
      region_mem_live.mp (grown6.extension.live slotLive)
    obtain ⟨_, sameAfter⟩ := setupCode_edits listedSixth code
    refine ⟨new, ?_, childPd⟩
    rw [sameAfter.tasks, same6.tasks, sameFifth.tasks]
    exact child
  · exact (extension4.trans grown5.extension).trans extension5
  · intro other otherListed index bound elsewhere
    have apart : PageDirPtr.region other ≠ .region slot := by
      rintro same
      rw [PageDirPtr.region.inj same] at otherListed
      exact fresh otherListed
    have otherLive := grown7.extension.live (grown6.extension.live (grown5.extension.live
      (grown4.extension.live (region_mem_live.mpr otherListed))))
    have afterCode : after.paging.pageDirs (.region other) index = withCode.pageDirs (.region other) index := by
      rcases equivalent.entries (.region other) index with same | ⟨absent, zeroed⟩
      · exact same
      · rw [zeroed, grown7.tidy _ otherLive index absent]
    rw [afterCode, codeInstalled.pageDirs, if_neg fun here => apart (Finset.mem_singleton.mp here.1),
      growth_entries growth6 grown5.mapped bound elsewhere, installed.pageDirs,
      if_neg fun here => apart (Finset.mem_singleton.mp here.1)]
    exact entries4 other otherListed index bound elsewhere
  · intro index bound isPresent
    have same := extension4.entries _ taskLive index bound (by simp) isPresent
    rw [← same] at isPresent ⊢
    exact setup.keeps index bound isPresent
  · intro index bound elsewhere notKernel
    rw [setup.own notKernel notNew]
    cases uses : task.pageDirectory with
    | kernel => exact absurd uses notKernel
    | region own =>
        rw [uses, region_mem_live] at taskLive
        exact entries4 own taskLive index bound elsewhere
  · exact setup.shares
  · exact extension4.unmapped (grown4.unclaimed frame (Nat.le_trans reaches setup.positive) setup.bound setup.free).2
  · intro above
    exact ((extension4.trans grown5.extension).trans grown6.extension).unmapped
      (grown6.unclaimed codeFrame above codeBound codeFree).2
  · exact different
  · rw [← sameMemory]
    exact setup.copied
  · refine ⟨by decide, ?_, ?_⟩
    · rw [entryAfter]
      exact entryUser
    · rw [entryAfter]
      exact entryMaps
  · intro word member
    obtain ⟨place, inside, _⟩ := initialStack_places word member
    have mapsFifth : frameOf (fifth.paging.pageDirs (.region slot) (pageIndex4M word.1)) = some frame := by
      rw [place, page, entryFifth]
      exact entryMaps
    refine holds_page (by rw [place, page, entryAfter]; exact entryMaps) inside ?_
    intro i below
    rw [wordBytes_length] at below
    rw [codeKept _ (by omega), memory6]
    exact (setup.stack word member).byte mapsFifth inside below
  · intro address outside elsewhere
    rw [codeKept address elsewhere, memory6]
    exact setup.kept address outside

end Construction

end Kernel

end ToyKernel
