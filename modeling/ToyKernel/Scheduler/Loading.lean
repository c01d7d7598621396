import ToyKernel.Kernel.Separation
import ToyKernel.Scheduler.Construction

/-!
What each stage of the constructor of a user task does to page tables and memory,
whatever the other tasks have done in between. A stage writes to a frame of the new
task only, so it neither reaches the code page of another task nor the bytes that
another constructor has yet to copy.
-/

namespace ToyKernel

open Library Paging Kernel

namespace TaskSystem

def codeIndex : Nat := 256

structure Loaded (kernel : Kernel) (slot : Nat) (code : List UInt8) : Prop where
  page : ∃ frame, kernel.paging.UserMaps (.region slot) codeIndex frame
  holds : Holds (restrict (· == codeIndex) (kernel.paging.pageDirs (.region slot))) kernel.memory
    userStart code

/-- The bytes in kernel space that the constructor copies as the code. -/
def Source (kernel : Kernel) (func : UInt32) (code : List UInt8) : Prop :=
  Holds (restrict (· != sharedIndex) (kernel.paging.pageDirs .kernel)) kernel.memory func code

structure Progress (closes : Prop) (writer : Option Nat) (old new : Kernel) : Prop where
  extension : Extends closes old.paging new.paging
  memory : ∃ frame, ChangedIn frame old.memory new.memory ∧ (1024 ≤ frame ∨
    ∃ slot ∈ old.paging.slots, writer = some slot ∧ ∃ i, old.paging.UserMaps (.region slot) i frame)

section Progress
variable {closes : Prop} {writer : Option Nat} {old new : Kernel} {slot : Nat} {code : List UInt8}

theorem Progress.of_same (extension : Extends closes old.paging new.paging)
    (memory : new.memory = old.memory) : Progress closes writer old new :=
  ⟨extension, 1024, fun _ _ => by rw [memory], Or.inl (Nat.le_refl _)⟩

theorem Progress.loaded (progress : Progress closes writer old new) (separated : Separated old.paging)
    (listed : slot ∈ old.paging.slots) (other : writer ≠ some slot) (loaded : Loaded old slot code) :
    Loaded new slot code := by
  obtain ⟨page, maps⟩ := loaded.page
  obtain ⟨frame, changed, writes⟩ := progress.memory
  have isLive := region_mem_live.mpr listed
  refine ⟨⟨page, progress.extension.userMaps listed maps⟩, loaded.holds.restrict_kept ?_ changed ?_⟩
  · intro index bound _ isPresent
    exact progress.extension.entries _ isLive index bound (by simp) isPresent
  · intro index bound isCode mapped
    rcases writes with outside | ⟨written, inUse, isWriter, i, userMaps⟩
    · have below := pageIndex4M_lt (old.paging.pageDirs (.region slot) index)
      have same := (frameOf_eq_some.mp mapped).2
      omega
    · rcases separated.owned written inUse i frame userMaps _ isLive index bound mapped with
        ⟨same, _⟩ | ⟨impossible, _⟩
      · injection same with same
        exact other (by rw [isWriter, same])
      · cases impossible

theorem Progress.source {func : UInt32} (progress : Progress closes writer old new)
    (separated : Separated old.paging) (source : Source old func code) : Source new func code := by
  obtain ⟨frame, changed, writes⟩ := progress.memory
  refine Holds.restrict_kept source ?_ changed ?_
  · intro index bound elsewhere isPresent
    refine progress.extension.entries _ (kernel_mem_live _) index bound ?_ isPresent
    rintro ⟨_, _, rfl⟩
    simp at elsewhere
  · intro index bound elsewhere mapped
    rcases writes with outside | ⟨written, inUse, isWriter, i, userMaps⟩
    · have below := pageIndex4M_lt (old.paging.pageDirs .kernel index)
      have same := (frameOf_eq_some.mp mapped).2
      omega
    · rcases separated.owned written inUse i frame userMaps _ (kernel_mem_live _) index bound mapped with
        ⟨impossible, _⟩ | ⟨_, rfl, _⟩
      · cases impossible
      · simp at elsewhere

end Progress

def SharedOpen (paging : Paging) (slot : Nat) : Prop :=
  ∃ frame, paging.UserMaps (.region slot) sharedIndex frame ∧
    frameOf (paging.pageDirs .kernel sharedIndex) = some frame

def InSharedPage (dst : UInt32) : Prop :=
  pageIndex4M dst = sharedIndex ∧ dst.toNat % 4194304 + 4 ≤ 4194304

def StageReached (paging : Paging) (slot : Nat) : Stage → Prop
  | .addKernelPage paddr => paging.UserMaps (.region slot) sharedIndex (pageIndex4M paddr)
  | .copyArg => SharedOpen paging slot
  | .writeStack words => SharedOpen paging slot ∧ ∀ word ∈ words, InSharedPage word.1
  | .writeCode => ∃ frame, paging.UserMaps (.region slot) codeIndex frame
  | _ => True

def opensShared : Stage → Bool
  | .copyArg | .writeStack _ => true
  | _ => false

theorem SharedOpen.kept {old new : Paging} {slot : Nat} (opened : SharedOpen old slot)
    (extension : Extends False old new) (listed : slot ∈ old.slots) : SharedOpen new slot := by
  obtain ⟨frame, maps, kernelMaps⟩ := opened
  refine ⟨frame, extension.userMaps listed maps, ?_⟩
  rw [extension.entries .kernel (kernel_mem_live old) sharedIndex (by decide) (by simp)
    (frameOf_eq_some.mp kernelMaps).1]
  exact kernelMaps

theorem StageReached.kept {closes : Prop} {old new : Paging} {slot : Nat} {stage : Stage}
    (reached : StageReached old slot stage) (extension : Extends closes old new)
    (listed : slot ∈ old.slots) (stays : opensShared stage = true → Extends False old new) :
    StageReached new slot stage := by
  cases stage with
  | addKernelPage paddr => exact extension.userMaps listed reached
  | copyArg => exact SharedOpen.kept reached (stays rfl) listed
  | writeStack words => exact ⟨SharedOpen.kept reached.1 (stays rfl) listed, reached.2⟩
  | writeCode =>
      obtain ⟨frame, maps⟩ := reached
      exact ⟨frame, extension.userMaps listed maps⟩
  | _ => exact True.intro

structure Advanced (old new : Kernel) (job : Constructor) (code : List UInt8) (next : Option Stage) :
    Prop where
  same : SameTasks old new
  slots : new.paging.slots = old.paging.slots
  separated : Separated new.paging
  apart : HeapApart new.paging new.heap
  progress : Progress (job.stage = .writeStack []) (some job.slot) old new
  reached : ∀ stage, next = some stage → StageReached new.paging job.slot stage ∧
    (stage.isQueued = true ↔ job.stage.isQueued = true ∨ job.stage = .addToQueue)
  loaded : next = none → job.stage = .writeCode ∧ Loaded new job.slot code

section Advance
variable {kernel after : Kernel} {job : Constructor} {code : List UInt8} {next : Option Stage}

theorem addUserPage_advanced {vaddr paddr : UInt32} {paging : Paging} {stage : Stage}
    (separated : Separated kernel.paging) (apart : HeapApart kernel.paging kernel.heap)
    (listed : job.slot ∈ kernel.paging.slots)
    (added : kernel.paging.addPage (.region job.slot) vaddr paddr pgUser.toUInt8 false = .ok paging)
    (reached : paging.UserMaps (.region job.slot) (pageIndex4M vaddr) (pageIndex4M paddr) →
      StageReached paging job.slot stage)
    (queued : stage.isQueued = true ↔ job.stage.isQueued = true ∨ job.stage = .addToQueue) :
    Advanced kernel { kernel with paging } job code (some stage) := by
  obtain ⟨_, _, unused, installed⟩ :=
    (addPage_spec kernel.paging (.region job.slot) vaddr paddr pgUser.toUInt8 false).of_ok added
  rw [targets_own (by simp)] at installed
  have maps : paging.UserMaps (.region job.slot) (pageIndex4M vaddr) (pageIndex4M paddr) := by
    rw [UserMaps, installed.pageDirs, if_pos ⟨Finset.mem_singleton_self _, rfl⟩,
      userAccessible_pageEntry]
    exact ⟨pageIndex4M_lt vaddr, by decide, frameOf_pageEntry paddr _⟩
  refine ⟨⟨rfl, rfl⟩, slots_congr installed.region, ?_, ?_, ?_, ?_, by simp⟩
  · refine installed.separated_fresh separated (by simpa using listed) (Finset.singleton_nonempty _)
      (pageIndex4M_lt vaddr) (frameOf_pageEntry paddr _) (pageIndex4M_lt paddr) (unused rfl) ?_
    intro _
    exact ⟨job.slot, rfl⟩
  · refine apart.kept (installed.extends False) ?_
    rw [installed.pageDirs, if_neg (by simp)]
    exact apart.gap
  · exact .of_same (installed.extends _) rfl
  · rintro _ ⟨⟩
    exact ⟨reached maps, queued⟩

theorem addKernelPage_advanced {paddr : UInt32} {paging : Paging}
    (separated : Separated kernel.paging) (apart : HeapApart kernel.paging kernel.heap)
    (listed : job.slot ∈ kernel.paging.slots) (isStage : job.stage = .addKernelPage paddr)
    (maps : kernel.paging.UserMaps (.region job.slot) sharedIndex (pageIndex4M paddr))
    (added : kernel.paging.addPage .kernel userSharedSpaceStart paddr 0 true = .ok paging) :
    Advanced kernel { kernel with paging } job code (some .copyArg) := by
  obtain ⟨_, _, _, installed⟩ :=
    (addPage_spec kernel.paging .kernel userSharedSpaceStart paddr 0 true).of_ok added
  rw [targets_own fun _ => by decide, show pageIndex4M userSharedSpaceStart = sharedIndex by decide]
    at installed
  have absent := installed.empty .kernel (Finset.mem_singleton_self _)
  have elsewhere : ∀ i < 1024, frameOf (kernel.paging.pageDirs .kernel i) ≠ some (pageIndex4M paddr) := by
    intro i bound kernelMaps
    rcases separated.owned job.slot listed _ _ maps .kernel (kernel_mem_live _) i bound kernelMaps with
      ⟨impossible, _⟩ | ⟨_, rfl, _⟩
    · cases impossible
    · rw [frameOf_eq_none.mpr absent] at kernelMaps
      cases kernelMaps
  refine ⟨⟨rfl, rfl⟩, slots_congr installed.region, ?_, ?_, ?_, ?_, by simp⟩
  · refine installed.separated separated (by simp) (Finset.singleton_nonempty _) (by decide)
      (frameOf_pageEntry paddr 0) ?_ ?_ ?_
    · intro pd isLive
      by_cases isKernel : pd = .kernel
      · apply occurrences_le_one
        have here : ∀ i ∈ indices, frameOf (paging.pageDirs pd i) = some (pageIndex4M paddr) →
            i = sharedIndex := by
          intro i member holds
          rw [installed.pageDirs, isKernel] at holds
          split at holds
          · rename_i target
            exact target.2
          · exact absurd holds (elsewhere i (mem_indices.mp member))
        intro left leftMember right rightMember leftMaps rightMaps
        rw [here left leftMember leftMaps, here right rightMember rightMaps]
      · refine Nat.le_trans (Nat.le_of_eq ?_) (separated.single pd isLive (pageIndex4M paddr))
        apply occurrences_congr
        intro i _
        rw [installed.pageDirs, if_neg (by simp [isKernel])]
    · intro user
      rw [userAccessible_pageEntry] at user
      exact absurd user (by decide)
    · intro slot inUse i userMaps
      refine ⟨rfl, rfl, ?_⟩
      rcases separated.owned slot inUse i _ userMaps _ (region_mem_live.mpr listed) sharedIndex
        (by decide) maps.2.2 with ⟨_, same⟩ | ⟨impossible, _⟩
      · exact same.symm
      · cases impossible
  · refine apart.kept (installed.extends False) ?_
    rw [installed.pageDirs, if_neg (by simp [sharedIndex])]
    exact apart.gap
  · exact .of_same (installed.extends _) rfl
  · rintro _ ⟨⟩
    refine ⟨⟨pageIndex4M paddr, (installed.extends False).userMaps listed maps, ?_⟩, ?_⟩
    · rw [installed.pageDirs, if_pos ⟨Finset.mem_singleton_self _, rfl⟩]
      exact frameOf_pageEntry paddr 0
    · simp [isStage, Stage.isQueued]

theorem removeKernelPage_advanced {paging : Paging} (separated : Separated kernel.paging)
    (apart : HeapApart kernel.paging kernel.heap) (isStage : job.stage = .writeStack [])
    (opened : SharedOpen kernel.paging job.slot)
    (removed : kernel.paging.removePage .kernel userSharedSpaceStart = .ok paging) :
    Advanced kernel { kernel with paging } job code (some .addToQueue) := by
  obtain ⟨frame, _, kernelMaps⟩ := opened
  obtain ⟨_, cleared, _⟩ := (removePage_spec kernel.paging .kernel userSharedSpaceStart).of_ok removed
  rw [targets_own fun _ => by decide, show pageIndex4M userSharedSpaceStart = sharedIndex by decide,
    (frameOf_eq_some.mp kernelMaps).2] at cleared
  refine ⟨⟨rfl, rfl⟩, slots_congr cleared.region, ?_, ?_, ?_, ?_, by simp⟩
  · exact cleared.separated separated (kernel_mem_live _) (by decide) kernelMaps
  · refine apart.kept cleared.extends ?_
    rw [cleared.pageDirs, if_neg (by simp [sharedIndex])]
    exact apart.gap
  · refine .of_same ?_ rfl
    rw [isStage]
    exact ⟨cleared.extends.slots, by simpa using cleared.extends.entries⟩
  · rintro _ ⟨⟩
    exact ⟨True.intro, by simp [isStage, Stage.isQueued]⟩

theorem unchanged_advanced {stage : Stage} (separated : Separated kernel.paging)
    (apart : HeapApart kernel.paging kernel.heap) (reached : StageReached kernel.paging job.slot stage)
    (queued : stage.isQueued = true ↔ job.stage.isQueued = true ∨ job.stage = .addToQueue) :
    Advanced kernel kernel job code (some stage) := by
  refine ⟨.refl _, rfl, separated, apart, .of_same (.refl _ _) rfl, ?_, by simp⟩
  rintro _ ⟨⟩
  exact ⟨reached, queued⟩

theorem inSharedPage_initialStack (stackArg entryOffset : UInt32) :
    ∀ word ∈ initialStack stackArg entryOffset, InSharedPage word.1 := by
  simp only [initialStack, List.forall_mem_cons]
  refine ⟨?_, ?_, ?_, ?_, ?_, ?_, fun _ member => absurd member List.not_mem_nil⟩ <;> exact ⟨by decide, by decide⟩

theorem advance_spec (separated : Separated kernel.paging) (apart : HeapApart kernel.paging kernel.heap)
    (listed : job.slot ∈ kernel.paging.slots) (reached : StageReached kernel.paging job.slot job.stage)
    (length : code.length = job.codesize.toNat) (source : Source kernel job.func code)
    (run : job.advance kernel = .ok (after, next)) : Advanced kernel after job code next := by
  unfold Constructor.advance at run
  cases isStage : job.stage with
  | addSharedPage paddr =>
      rw [isStage] at run
      obtain ⟨paging, added, done⟩ := bind_eq_ok.mp run
      obtain ⟨rfl, rfl⟩ := Prod.mk.inj (pure_eq_ok.mp done)
      refine addUserPage_advanced separated apart listed added ?_ (by simp [isStage, Stage.isQueued])
      exact id
  | addKernelPage paddr =>
      rw [isStage] at run reached
      obtain ⟨paging, added, done⟩ := bind_eq_ok.mp run
      obtain ⟨rfl, rfl⟩ := Prod.mk.inj (pure_eq_ok.mp done)
      exact addKernelPage_advanced separated apart listed isStage reached added
  | copyArg =>
      rw [isStage] at run reached
      obtain ⟨⟨memory, stackArg⟩, copied, done⟩ := bind_eq_ok.mp run
      obtain ⟨rfl, rfl⟩ := Prod.mk.inj (pure_eq_ok.mp done)
      obtain ⟨frame, maps, kernelMaps⟩ := reached
      have changed := job.copier.changes copied kernelMaps
      refine ⟨⟨rfl, rfl⟩, rfl, separated, apart, ⟨.refl _ _, frame, changed, ?_⟩, ?_, by simp⟩
      · exact Or.inr ⟨job.slot, listed, rfl, sharedIndex, maps⟩
      · rintro _ ⟨⟩
        refine ⟨⟨⟨frame, maps, kernelMaps⟩, inSharedPage_initialStack _ _⟩, ?_⟩
        simp [isStage, Stage.isQueued]
  | writeStack words =>
      rw [isStage] at run reached
      obtain ⟨opened, inside⟩ := reached
      cases words with
      | nil =>
          obtain ⟨paging, removed, done⟩ := bind_eq_ok.mp run
          obtain ⟨rfl, rfl⟩ := Prod.mk.inj (pure_eq_ok.mp done)
          exact removeKernelPage_advanced separated apart isStage opened removed
      | cons word rest =>
          obtain ⟨written, wrote, done⟩ := bind_eq_ok.mp run
          obtain ⟨rfl, rfl⟩ := Prod.mk.inj (pure_eq_ok.mp done)
          obtain ⟨equivalent, same⟩ := taskMemcpy_edits wrote
          have heap := taskMemcpy_heap wrote
          obtain ⟨onPage, fits⟩ := inside word (by simp)
          obtain ⟨frame, maps, changed⟩ := writeWord_changes wrote fits
          obtain ⟨shared, userMaps, kernelMaps⟩ := opened
          obtain rfl : shared = frame := by
            rw [onPage, userMaps.2.2] at maps
            exact Option.some.inj maps
          refine ⟨same, slots_congr equivalent.region, equivalent.separated separated,
            heap ▸ apart.equivalent equivalent, ?_, ?_, by simp⟩
          · exact ⟨equivalent.extends _, shared, changed,
              Or.inr ⟨job.slot, listed, rfl, sharedIndex, userMaps⟩⟩
          · rintro _ ⟨⟩
            refine ⟨⟨SharedOpen.kept ⟨shared, userMaps, kernelMaps⟩ (equivalent.extends False) listed,
              fun other member => inside other (by simp [member])⟩, ?_⟩
            simp [isStage, Stage.isQueued]
  | addToQueue =>
      rw [isStage] at run
      obtain ⟨rfl, rfl⟩ := Prod.mk.inj (pure_eq_ok.mp run)
      exact unchanged_advanced separated apart True.intro (by simp [isStage, Stage.isQueued])
  | findCodePage =>
      rw [isStage] at run
      obtain ⟨paddr, _, done⟩ := bind_eq_ok.mp run
      obtain ⟨rfl, rfl⟩ := Prod.mk.inj (pure_eq_ok.mp done)
      exact unchanged_advanced separated apart True.intro (by simp [isStage, Stage.isQueued])
  | addCodePage paddr =>
      rw [isStage] at run
      obtain ⟨paging, added, rest⟩ := bind_eq_ok.mp run
      obtain ⟨mapped, _, rest⟩ := bind_eq_ok.mp rest
      obtain ⟨_, _, done⟩ := bind_eq_ok.mp rest
      obtain ⟨rfl, rfl⟩ := Prod.mk.inj (pure_eq_ok.mp done)
      refine addUserPage_advanced separated apart listed added ?_ (by simp [isStage, Stage.isQueued])
      intro maps
      exact ⟨_, maps⟩
  | writeCode =>
      rw [isStage] at run reached
      obtain ⟨written, wrote, done⟩ := bind_eq_ok.mp run
      obtain ⟨rfl, rfl⟩ := Prod.mk.inj (pure_eq_ok.mp done)
      obtain ⟨frame, maps⟩ := reached
      have index : pageIndex4M userStart = codeIndex := by decide
      have notKernel : ∀ i < 1024, frameOf (kernel.paging.pageDirs .kernel i) ≠ some frame := by
        intro i bound kernelMaps
        rcases separated.owned job.slot listed _ _ maps .kernel (kernel_mem_live _) i bound
          kernelMaps with ⟨impossible, _⟩ | ⟨_, _, impossible⟩
        · cases impossible
        · cases impossible
      obtain ⟨changed, holds⟩ := write_holds wrote (by decide) (by rw [index]; exact maps.2.2) length
        source.of_restrict notKernel apart.gap
      rw [index] at holds
      obtain ⟨equivalent, same, heap⟩ := write_edits wrote
      refine ⟨same, slots_congr equivalent.region, equivalent.separated separated,
        heap ▸ apart.equivalent equivalent, ?_, by simp, ?_⟩
      · exact ⟨equivalent.extends _, frame, changed,
          Or.inr ⟨job.slot, listed, rfl, codeIndex, maps⟩⟩
      · intro _
        refine ⟨isStage, ⟨frame, (equivalent.extends False).userMaps listed maps⟩, ?_⟩
        refine holds.kept ?_ fun _ _ _ _ _ _ => rfl
        intro i bound isPresent
        obtain ⟨kept, mapped⟩ := present_restrict.mp isPresent
        rw [restrict, restrict, if_pos kept, if_pos kept]
        exact (equivalent.extends False).entries _ (region_mem_live.mpr listed) i bound (by simp) mapped

end Advance

end TaskSystem

end ToyKernel
