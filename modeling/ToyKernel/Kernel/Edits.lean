import ToyKernel.Kernel.Model
import ToyKernel.Paging.Invariants

/-!
Every kernel call as a sequence of page-table edits. A temporary mapping that is
taken back counts as one edit that changes nothing, so the invariants of the kernel
only have to be checked against the kinds of edits.
-/

namespace ToyKernel

open Library

namespace Paging

/-- The same mappings and counts; entries without a mapping may have been zeroed. -/
structure Equivalent (old new : Paging) : Prop where
  region : new.pageDirRegion = old.pageDirRegion
  count : ∀ frame, new.count frame = old.count frame
  used : ∀ frame, (old.frameUsed frame = true ↔ 0 < old.count frame) →
    (new.frameUsed frame = true ↔ 0 < new.count frame)
  entries : ∀ pd index, new.pageDirs pd index = old.pageDirs pd index ∨
    (present (old.pageDirs pd index) = false ∧ new.pageDirs pd index = 0)
  replicated : ∀ pd, ∀ index < 1024, isReplicated (pageAddr4M index) = true →
    new.pageDirs pd index = old.pageDirs pd index

variable {old first second new middle : Paging} {pd : PageDirPtr} {index page : Nat} {entry : UInt32}

theorem Equivalent.refl (state : Paging) : Equivalent state state :=
  ⟨rfl, fun _ => rfl, fun _ same => same, fun _ _ => Or.inl rfl, fun _ _ _ _ => rfl⟩

theorem Equivalent.trans (left : Equivalent old middle) (right : Equivalent middle new) :
    Equivalent old new := by
  constructor
  · exact right.region.trans left.region
  · intro frame
    rw [right.count, left.count]
  · intro frame same
    exact right.used frame (left.used frame same)
  · intro pd index
    rcases right.entries pd index with kept | ⟨absent, zeroed⟩
    · rw [kept]
      exact left.entries pd index
    · rcases left.entries pd index with kept | ⟨before, _⟩
      · rw [kept] at absent
        exact Or.inr ⟨absent, zeroed⟩
      · exact Or.inr ⟨before, zeroed⟩
  · intro pd index bound shared
    rw [right.replicated pd index bound shared, left.replicated pd index bound shared]

theorem Equivalent.frameOf (equivalent : Equivalent old new) (pd : PageDirPtr) (index : Nat) :
    frameOf (new.pageDirs pd index) = frameOf (old.pageDirs pd index) := by
  rcases equivalent.entries pd index with kept | ⟨absent, zeroed⟩
  · rw [kept]
  · rw [zeroed, frameOf_zero, frameOf_eq_none.mpr absent]

theorem Equivalent.mappings (equivalent : Equivalent old new) (frame : Nat) :
    new.mappings frame = old.mappings frame := by
  rw [Paging.mappings, Paging.mappings, keys_congr equivalent.region]
  apply occurrences_congr
  intro key _
  exact equivalent.frameOf key.1 key.2

theorem Equivalent.counted (equivalent : Equivalent old new) {frame : Nat}
    (counted : Counted old frame) : Counted new frame := by
  refine ⟨?_, equivalent.used frame counted.used⟩
  rw [equivalent.count, equivalent.mappings]
  exact counted.count

/-- A mapping that is made and taken back, with equivalent states in between, leaves
an equivalent state. A wrapped reference count would have failed the assertion of `Unref`. -/
theorem Equivalent.of_temporary (installed : Installed old first {pd} index entry page)
    (kept : Equivalent first second) (cleared : Cleared second new {pd} index page)
    (bound : index < 1024) (own : isReplicated (pageAddr4M index) = false) : Equivalent old new := by
  have counted : ∀ frame, new.count frame = old.count frame := by
    intro frame
    have enough := cleared.enough
    rw [kept.count, installed.count, if_pos rfl, Finset.card_singleton] at enough
    rw [cleared.count, kept.count, installed.count, Finset.card_singleton]
    by_cases same : frame = page
    · rw [if_pos same, if_pos same]
      rw [← same] at enough
      have small := old.physicalBitmap.count_lt frame
      change old.count frame < 65536 at small
      omega
    · rw [if_neg same, if_neg same]
  constructor
  · rw [cleared.region, kept.region, installed.region]
  · exact counted
  · intro frame exact_
    by_cases same : frame = page
    · have firstUsed : first.frameUsed frame = true ↔ 0 < first.count frame := by
        have enough := cleared.enough
        rw [kept.count, Finset.card_singleton, ← same] at enough
        rw [installed.used]
        exact ⟨fun _ => enough, fun _ => Or.inl same⟩
      have secondUsed := kept.used frame firstUsed
      have enough := cleared.enough
      have counts := cleared.count frame
      rw [Finset.card_singleton] at enough counts
      rw [if_pos same] at counts
      rw [cleared.used, secondUsed, Finset.card_singleton, ← same, counts]
      rw [← same] at enough
      constructor
      · rintro ⟨positive, several⟩
        have other : second.count frame ≠ 1 := fun single => several ⟨rfl, single⟩
        omega
      · intro positive
        refine ⟨by omega, ?_⟩
        rintro ⟨_, single⟩
        omega
    · have firstUsed : first.frameUsed frame = true ↔ 0 < first.count frame := by
        rw [installed.used, installed.count, if_neg same]
        simpa [same] using exact_
      have secondUsed := kept.used frame firstUsed
      rw [cleared.used, secondUsed, cleared.count, if_neg same]
      simp [same]
  · intro query i
    rw [cleared.pageDirs]
    by_cases here : query ∈ ({pd} : Finset PageDirPtr) ∧ i = index
    · rw [if_pos here]
      refine Or.inr ⟨?_, rfl⟩
      rw [here.2]
      exact installed.empty query here.1
    · rw [if_neg here]
      have unchanged := installed.pageDirs query i
      rw [if_neg here] at unchanged
      rw [← unchanged]
      exact kept.entries query i
  · intro query i below shared
    have elsewhere : ¬(query ∈ ({pd} : Finset PageDirPtr) ∧ i = index) := by
      rintro ⟨_, rfl⟩
      rw [own] at shared
      cases shared
    rw [cleared.pageDirs, if_neg elsewhere, kept.replicated query i below shared,
      installed.pageDirs, if_neg elsewhere]

end Paging

open Paging

inductive Edit
  | temporary
  | kernelPage (vaddr paddr : UInt32)
  | userPage (slot : Nat) (vaddr paddr : UInt32)
  | sharedPage (slot : Nat) (source : PageDirPtr) (src vaddr paddr : UInt32)
  | unmap (pd : PageDirPtr) (vaddr : UInt32)
  | unmapAbsent (slot : Nat) (vaddr : UInt32)
  | clone (slot : Nat)
  | reclaim (slot : Nat)

namespace Edit

def Applies (old new : Paging) : Edit → Prop
  | .temporary => Equivalent old new
  | .kernelPage vaddr paddr => vaddr % kPageSize4M = 0 ∧ old.frameUsed (pageIndex4M paddr) = false ∧
      (isReplicated vaddr = true → pageIndex4M paddr ≠ 0) ∧
      Installed old new (old.targets .kernel vaddr) (pageIndex4M vaddr) (pageEntry paddr 0)
        (pageIndex4M paddr)
  | .userPage slot vaddr paddr => slot ∈ old.slots ∧ vaddr % kPageSize4M = 0 ∧
      old.frameUsed (pageIndex4M paddr) = false ∧
      Installed old new {.region slot} (pageIndex4M vaddr) (pageEntry paddr pgUser.toUInt8)
        (pageIndex4M paddr)
  | .sharedPage slot source src vaddr paddr => slot ∈ old.slots ∧ vaddr % kPageSize4M = 0 ∧
      isReplicated vaddr = false ∧ source ∈ old.live ∧
      frameOf (old.pageDirs source (pageIndex4M src)) = some (pageIndex4M paddr) ∧
      Installed old new {.region slot} (pageIndex4M vaddr) (pageEntry paddr pgUser.toUInt8)
        (pageIndex4M paddr)
  | .unmap pd vaddr => pd ∈ old.live ∧ vaddr % kPageSize4M = 0 ∧
      (pd = .kernel → isReplicated vaddr = false) ∧
      present (old.pageDirs pd (pageIndex4M vaddr)) = true ∧
      Cleared old new {pd} (pageIndex4M vaddr) (pageIndex4M (old.pageDirs pd (pageIndex4M vaddr)))
  | .unmapAbsent slot vaddr => slot ∈ old.slots ∧ vaddr % kPageSize4M = 0 ∧
      present (old.pageDirs (.region slot) (pageIndex4M vaddr)) = false ∧
      Cleared old new {.region slot} (pageIndex4M vaddr)
        (pageIndex4M (old.pageDirs (.region slot) (pageIndex4M vaddr)))
  | .clone slot => Cloned old new .kernel slot
  | .reclaim slot => slot ∈ old.slots ∧ Reclaimed old new slot

def IsGrowth : Edit → Prop
  | .kernelPage _ paddr => pageIndex4M paddr ≠ 0
  | _ => False

def IsSetup (slot : Nat) : Edit → Prop
  | .temporary => True
  | .kernelPage _ _ => True
  | .userPage other vaddr _ =>
      other = slot ∧ (vaddr = userSharedSpaceStart ∨ vaddr = userStart)
  | _ => False

def IsCreation (edit : Edit) : Prop :=
  ∃ slot, edit = .clone slot ∨ edit.IsSetup slot

end Edit

def edits : System Paging Edit where
  initial := Initialized
  step old edit new := edit.Applies old new

theorem Edit.within {Allowed : Edit → Prop} {old new : Paging} (edit : Edit) (allowed : Allowed edit)
    (applied : edit.Applies old new) : edits.Within Allowed old new :=
  ⟨[edit], .step applied (.done new), by simpa using allowed⟩

theorem Edit.setup_slots {old new : Paging} {slot : Nat}
    (within : edits.Within (Edit.IsSetup slot) old new) : new.slots = old.slots := by
  refine within.preserves (fun state => state.slots = old.slots) ?_ rfl
  intro state edit after setup same applied
  rw [← same]
  cases edit with
  | temporary => exact slots_congr applied.region
  | kernelPage vaddr paddr => exact slots_congr applied.2.2.2.region
  | userPage other vaddr paddr => exact slots_congr applied.2.2.2.region
  | sharedPage other source src vaddr paddr => exact absurd setup id
  | unmap pd vaddr => exact absurd setup id
  | unmapAbsent other vaddr => exact absurd setup id
  | clone other => exact absurd setup id
  | reclaim other => exact absurd setup id

namespace Kernel

def owner (kernel : Kernel) (handle : Nat) : Option (PageDirPtr × Bool) :=
  (kernel.tasks handle).map fun task => (task.pageDirectory, task.isUserTask)

theorem owner_of {kernel : Kernel} {handle : Nat} {task : Task}
    (found : kernel.tasks handle = some task) :
    kernel.owner handle = some (task.pageDirectory, task.isUserTask) := by
  simp [owner, found]

theorem getTask_eq_ok {kernel : Kernel} {handle : Nat} {task : Task} :
    kernel.getTask handle = .ok task ↔ kernel.tasks handle = some task := by
  unfold getTask
  cases kernel.tasks handle <;> simp

theorem owner_setTask (kernel : Kernel) (handle : Nat) (task : Option Task) (query : Nat) :
    (kernel.setTask handle task).owner query =
      if query = handle then task.map fun task => (task.pageDirectory, task.isUserTask)
      else kernel.owner query := by
  by_cases same : query = handle
  · simp [owner, setTask, same]
  · simp [owner, setTask, same]

theorem owner_setTask_same {kernel : Kernel} {handle : Nat} {task new : Task}
    (found : kernel.getTask handle = .ok task) (pageDirectory : new.pageDirectory = task.pageDirectory)
    (isUserTask : new.isUserTask = task.isUserTask) (query : Nat) :
    (kernel.setTask handle (some new)).owner query = kernel.owner query := by
  rw [owner_setTask]
  by_cases same : query = handle
  · rw [if_pos same, same, owner_of (getTask_eq_ok.mp found), Option.map_some, pageDirectory, isUserTask]
  · rw [if_neg same]

structure SameTasks (old new : Kernel) : Prop where
  tasks : new.tasks = old.tasks
  nextTid : new.nextTid = old.nextTid

theorem SameTasks.owner {old new : Kernel} (same : SameTasks old new) (handle : Nat) :
    new.owner handle = old.owner handle := by
  rw [Kernel.owner, Kernel.owner, same.tasks]

theorem SameTasks.refl (kernel : Kernel) : SameTasks kernel kernel := ⟨rfl, rfl⟩

theorem SameTasks.trans {first second third : Kernel} (left : SameTasks first second)
    (right : SameTasks second third) : SameTasks first third :=
  ⟨right.tasks.trans left.tasks, right.nextTid.trans left.nextTid⟩

theorem ksbrkPages_edits (pages : Nat) {heap top : UInt32} {paging after : Paging}
    (run : ksbrkPages pages heap paging = .ok (after, top)) :
    edits.Within Edit.IsGrowth paging after := by
  induction pages generalizing heap paging with
  | zero =>
      obtain ⟨rfl, _⟩ := Prod.mk.inj (pure_eq_ok.mp run)
      exact .refl _
  | succ pages ih =>
      obtain ⟨paddr, found, rest⟩ := bind_eq_ok.mp run
      obtain ⟨middle, added, later⟩ := bind_eq_ok.mp rest
      obtain ⟨_, above, free⟩ := PhysicalBitmap4M.nextFreePhysicalPage_eq_ok found
      obtain ⟨_, aligned, _, installed⟩ := (addPage_spec paging .kernel heap paddr 0 false).of_ok added
      have nonzero : pageIndex4M paddr ≠ 0 := by omega
      have first := Edit.within (.kernelPage heap paddr) (show Edit.IsGrowth _ from nonzero)
        ⟨aligned, free, fun _ => nonzero, installed⟩
      exact first.trans (ih later)

theorem ksbrkPage_edits {pages heap : UInt32} {paging after : Paging} {top : Option UInt32}
    (run : ksbrkPage pages heap paging = .ok (after, top)) :
    edits.Within Edit.IsGrowth paging after := by
  unfold ksbrkPage at run
  split at run
  · obtain ⟨rfl, _⟩ := Prod.mk.inj (pure_eq_ok.mp run)
    exact .refl _
  · obtain ⟨⟨middle, reached⟩, grown, done⟩ := bind_eq_ok.mp run
    obtain ⟨rfl, _⟩ := Prod.mk.inj (pure_eq_ok.mp done)
    exact ksbrkPages_edits _ grown

theorem growHeap_edits {bytes : UInt32} {kernel after : Kernel}
    (run : growHeap bytes kernel = .ok after) :
    edits.Within Edit.IsGrowth kernel.paging after.paging ∧ SameTasks kernel after := by
  obtain ⟨⟨paging, top⟩, grown, rest⟩ := bind_eq_ok.mp run
  have growth : edits.Within Edit.IsGrowth kernel.paging paging := by
    unfold ksbrk at grown
    split at grown
    · exact ksbrkPage_edits grown
    · split at grown
      · exact ksbrkPage_edits grown
      · exact ksbrkPage_edits grown
  cases top with
  | none => cases rest
  | some heap =>
      obtain rfl := pure_eq_ok.mp rest
      exact ⟨growth, rfl, rfl⟩

theorem kmalloc_edits (requests : List UInt32) {kernel after : Kernel}
    (run : kmalloc requests kernel = .ok after) :
    edits.Within Edit.IsGrowth kernel.paging after.paging ∧ SameTasks kernel after := by
  induction requests generalizing kernel with
  | nil =>
      obtain rfl := pure_eq_ok.mp run
      exact ⟨.refl _, .refl _⟩
  | cons bytes rest ih =>
      obtain ⟨middle, grown, later⟩ := bind_eq_ok.mp run
      obtain ⟨first, sameFirst⟩ := growHeap_edits grown
      obtain ⟨second, sameSecond⟩ := ih later
      exact ⟨first.trans second, sameFirst.trans sameSecond⟩

theorem getPhysicalAddr_eq_ok {pd : PageDirPtr} {vaddr paddr : UInt32} {paging : Paging}
    (found : paging.getPhysicalAddr pd vaddr = .ok paddr) :
    frameOf (paging.pageDirs pd (pageIndex4M vaddr)) = some (pageIndex4M paddr) := by
  obtain ⟨_, _, rest⟩ := bind_eq_ok.mp found
  obtain ⟨_, isPresent, rest⟩ := bind_eq_ok.mp rest
  obtain ⟨_, _, done⟩ := bind_eq_ok.mp rest
  obtain rfl := pure_eq_ok.mp done
  rw [pageIndex4M_mask]
  exact frameOf_eq_some.mpr ⟨require_eq_ok.mp isPresent, rfl⟩

/-- A page that is added to one page directory and later removed again. -/
theorem temporary_edit {pd : PageDirPtr} {vaddr paddr : UInt32} {old first second new : Paging}
    (own : isReplicated vaddr = false)
    (added : old.addPage pd vaddr paddr 0 true = .ok first) (kept : Equivalent first second)
    (removed : second.removePage pd vaddr = .ok new) : Equivalent old new := by
  obtain ⟨_, aligned, _, installed⟩ := (addPage_spec old pd vaddr paddr 0 true).of_ok added
  obtain ⟨_, cleared, _⟩ := (removePage_spec second pd vaddr).of_ok removed
  rw [targets_own fun _ => own] at installed cleared
  have mapped : first.pageDirs pd (pageIndex4M vaddr) = pageEntry paddr 0 := by
    rw [installed.pageDirs, if_pos ⟨Finset.mem_singleton_self pd, rfl⟩]
  have stillMapped : second.pageDirs pd (pageIndex4M vaddr) = pageEntry paddr 0 := by
    rcases kept.entries pd (pageIndex4M vaddr) with same | ⟨absent, _⟩
    · rw [same, mapped]
    · rw [mapped, present_pageEntry] at absent
      cases absent
  rw [stillMapped, pageIndex4M_pageEntry] at cleared
  refine .of_temporary installed kept cleared (pageIndex4M_lt vaddr) ?_
  rw [pageAddr4M_pageIndex4M aligned]
  exact own

theorem taskMemcpy_edits {task current : PageDirPtr} {vaddr : UInt32}
    {copy : UInt32 → PageDirectory → Memory → Except Fault Memory} {kernel after : Kernel}
    (run : taskMemcpy task current vaddr copy kernel = .ok after) :
    Equivalent kernel.paging after.paging ∧ SameTasks kernel after := by
  obtain ⟨paddr, _, rest⟩ := bind_eq_ok.mp run
  obtain ⟨first, added, rest⟩ := bind_eq_ok.mp rest
  obtain ⟨memory, _, rest⟩ := bind_eq_ok.mp rest
  obtain ⟨new, removed, done⟩ := bind_eq_ok.mp rest
  obtain rfl := pure_eq_ok.mp done
  exact ⟨temporary_edit (by decide) added (.refl first) removed, rfl, rfl⟩

theorem writeStack_edits {task current : PageDirPtr} (words : List (UInt32 × UInt32))
    {kernel after : Kernel} (run : writeStack task current words kernel = .ok after) :
    Equivalent kernel.paging after.paging ∧ SameTasks kernel after := by
  induction words generalizing kernel with
  | nil =>
      obtain rfl := pure_eq_ok.mp run
      exact ⟨.refl _, .refl _⟩
  | cons word rest ih =>
      obtain ⟨middle, written, later⟩ := bind_eq_ok.mp run
      obtain ⟨first, sameFirst⟩ := taskMemcpy_edits written
      obtain ⟨second, sameSecond⟩ := ih later
      exact ⟨first.trans second, sameFirst.trans sameSecond⟩

theorem growth_mono {Allowed : Edit → Prop} (page : ∀ vaddr paddr, Allowed (.kernelPage vaddr paddr))
    {old new : Paging} (within : edits.Within Edit.IsGrowth old new) : edits.Within Allowed old new := by
  refine within.mono ?_
  intro edit growth
  cases edit with
  | kernelPage vaddr paddr => exact page vaddr paddr
  | _ => exact absurd growth id

theorem growth_setup (slot : Nat) {old new : Paging} (within : edits.Within Edit.IsGrowth old new) :
    edits.Within (Edit.IsSetup slot) old new :=
  growth_mono (fun _ _ => True.intro) within

theorem userPage_edit {slot : Nat} {vaddr paddr : UInt32} {start : Nat} {old new : Paging}
    (listed : slot ∈ old.slots) (address : vaddr = userSharedSpaceStart ∨ vaddr = userStart)
    (found : old.physicalBitmap.nextFreePhysicalPage start = .ok paddr)
    (added : old.addPage (.region slot) vaddr paddr pgUser.toUInt8 false = .ok new) :
    edits.Within (Edit.IsSetup slot) old new := by
  obtain ⟨_, _, free⟩ := PhysicalBitmap4M.nextFreePhysicalPage_eq_ok found
  obtain ⟨_, aligned, _, installed⟩ :=
    (addPage_spec old (.region slot) vaddr paddr pgUser.toUInt8 false).of_ok added
  rw [targets_own (by simp)] at installed
  exact Edit.within (.userPage slot vaddr paddr) ⟨rfl, address⟩ ⟨listed, aligned, free, installed⟩

theorem setupSharedSpace_edits {slot : Nat} {current : PageDirPtr} {arg entryOffset : UInt32}
    {copyfunc : CopyArgFunc} {kernel after : Kernel} (listed : slot ∈ kernel.paging.slots)
    (run : setupSharedSpace slot current arg entryOffset copyfunc kernel = .ok after) :
    edits.Within (Edit.IsSetup slot) kernel.paging after.paging ∧ SameTasks kernel after := by
  obtain ⟨paddr, found, rest⟩ := bind_eq_ok.mp run
  obtain ⟨_, _, rest⟩ := bind_eq_ok.mp rest
  obtain ⟨first, added, rest⟩ := bind_eq_ok.mp rest
  obtain ⟨second, doubled, rest⟩ := bind_eq_ok.mp rest
  obtain ⟨⟨memory, stackArg⟩, _, rest⟩ := bind_eq_ok.mp rest
  obtain ⟨written, stacked, rest⟩ := bind_eq_ok.mp rest
  obtain ⟨new, removed, done⟩ := bind_eq_ok.mp rest
  obtain rfl := pure_eq_ok.mp done
  obtain ⟨kept, same⟩ := writeStack_edits _ stacked
  have back := temporary_edit (by decide) doubled kept removed
  have page := userPage_edit listed (Or.inl rfl) found added
  have temporary := Edit.within .temporary (show Edit.IsSetup slot _ from True.intro) back
  exact ⟨page.trans temporary, same.tasks, same.nextTid⟩

theorem setupCode_edits {slot : Nat} {current : PageDirPtr} {func codesize : UInt32}
    {kernel after : Kernel} (listed : slot ∈ kernel.paging.slots)
    (run : setupCode slot current func codesize kernel = .ok after) :
    edits.Within (Edit.IsSetup slot) kernel.paging after.paging ∧ SameTasks kernel after := by
  obtain ⟨paddr, found, rest⟩ := bind_eq_ok.mp run
  obtain ⟨first, added, rest⟩ := bind_eq_ok.mp rest
  obtain ⟨mapped, _, rest⟩ := bind_eq_ok.mp rest
  obtain ⟨_, _, copied⟩ := bind_eq_ok.mp rest
  have page := userPage_edit listed (Or.inr rfl) found added
  unfold write at copied
  split at copied
  · obtain rfl := pure_eq_ok.mp copied
    exact ⟨page, rfl, rfl⟩
  · obtain ⟨kept, same⟩ := taskMemcpy_edits copied
    have temporary := Edit.within .temporary (show Edit.IsSetup slot _ from True.intro) kept
    exact ⟨page.trans temporary, same.tasks, same.nextTid⟩

structure Created (old new : Kernel) (slot : Nat) : Prop where
  fresh : slot ∉ old.paging.slots
  slots : new.paging.slots = insert slot old.paging.slots
  owner : ∀ handle, new.owner handle =
    if handle = old.nextTid then some (.region slot, true) else old.owner handle
  nextTid : new.nextTid = old.nextTid + 1

theorem addChildTask_eq {parent child : Nat} {kernel after : Kernel}
    (run : addChildTask parent child kernel = .ok after) :
    after.paging = kernel.paging ∧ after.nextTid = kernel.nextTid ∧
      ∀ handle, after.owner handle = kernel.owner handle := by
  obtain ⟨task, found, done⟩ := bind_eq_ok.mp run
  obtain rfl := pure_eq_ok.mp done
  exact ⟨rfl, rfl, owner_setTask_same found rfl rfl⟩

theorem userTask_eq_ok {caller : Nat} {func codesize arg : UInt32} {copyfunc : CopyArgFunc}
    {entryOffset : UInt32} {growth : Growth} {kernel after : Kernel} {handle : Nat} :
    userTask caller func codesize arg copyfunc entryOffset growth kernel = .ok (after, handle) ↔
      ∃ current first paging slot second third fourth fifth sixth, kernel.getTask caller = .ok current ∧
        kmalloc growth.object kernel = .ok first ∧ first.paging.clone .kernel = .ok (paging, slot) ∧
        addChildTask caller first.nextTid { first with paging, nextTid := first.nextTid + 1 } = .ok second ∧
        kmalloc growth.child (second.setTask first.nextTid (some
          { pageDirectory := .region slot, isUserTask := true, state := .ready, parent := some caller,
            children := [] })) = .ok third ∧
        kmalloc growth.stack third = .ok fourth ∧
        setupSharedSpace slot current.pageDirectory arg entryOffset copyfunc fourth = .ok fifth ∧
        kmalloc growth.node fifth = .ok sixth ∧
        setupCode slot current.pageDirectory func codesize sixth = .ok after ∧ handle = first.nextTid := by
  constructor
  · intro run
    obtain ⟨current, found, rest⟩ := bind_eq_ok.mp run
    obtain ⟨first, allocated, rest⟩ := bind_eq_ok.mp rest
    obtain ⟨⟨paging, slot⟩, cloned, rest⟩ := bind_eq_ok.mp rest
    obtain ⟨second, child, rest⟩ := bind_eq_ok.mp rest
    obtain ⟨third, childMalloc, rest⟩ := bind_eq_ok.mp rest
    obtain ⟨fourth, stackMalloc, rest⟩ := bind_eq_ok.mp rest
    obtain ⟨fifth, shared, rest⟩ := bind_eq_ok.mp rest
    obtain ⟨sixth, nodeMalloc, rest⟩ := bind_eq_ok.mp rest
    obtain ⟨seventh, code, done⟩ := bind_eq_ok.mp rest
    obtain ⟨rfl, rfl⟩ := Prod.mk.inj (pure_eq_ok.mp done)
    exact ⟨current, first, paging, slot, second, third, fourth, fifth, sixth, found, allocated, cloned, child,
      childMalloc, stackMalloc, shared, nodeMalloc, code, rfl⟩
  · rintro ⟨current, first, paging, slot, second, third, fourth, fifth, sixth, found, allocated, cloned, child,
      childMalloc, stackMalloc, shared, nodeMalloc, code, rfl⟩
    rw [userTask, found, ok_bind, allocated, ok_bind, cloned, ok_bind]
    dsimp only
    rw [child, ok_bind, childMalloc, ok_bind, stackMalloc, ok_bind, shared, ok_bind, nodeMalloc, ok_bind, code]
    rfl

/-- The constructor clones the kernel's page directory, links the new task to its
creator, and then only sets up pages of the new slot. -/
theorem userTask_stages {caller : Nat} {func codesize arg : UInt32} {copyfunc : CopyArgFunc}
    {entryOffset : UInt32} {growth : Growth} {kernel after : Kernel} {handle : Nat}
    (run : userTask caller func codesize arg copyfunc entryOffset growth kernel = .ok (after, handle)) :
    ∃ first paging slot second, edits.Within Edit.IsGrowth kernel.paging first.paging ∧
      SameTasks kernel first ∧ Cloned first.paging paging .kernel slot ∧
      addChildTask caller first.nextTid { first with paging, nextTid := first.nextTid + 1 } = .ok second ∧
      SameTasks (second.setTask first.nextTid (some
        { pageDirectory := .region slot, isUserTask := true, state := .ready, parent := some caller,
          children := [] })) after ∧
      edits.Within (Edit.IsSetup slot) paging after.paging := by
  obtain ⟨current, first, paging, slot, second, third, fourth, fifth, sixth, _, allocated, cloned, child,
    childMalloc, stackMalloc, shared, nodeMalloc, code, _⟩ := userTask_eq_ok.mp run
  obtain ⟨growth1, same1⟩ := kmalloc_edits _ allocated
  have copied := (clone_spec first.paging .kernel).of_ok cloned
  obtain ⟨samePaging, _, _⟩ := addChildTask_eq child
  obtain ⟨growth3, same3⟩ := kmalloc_edits _ childMalloc
  obtain ⟨growth4, same4⟩ := kmalloc_edits _ stackMalloc
  have toFourth : edits.Within (Edit.IsSetup slot) paging fourth.paging := by
    have toThird : edits.Within (Edit.IsSetup slot) second.paging third.paging := growth_setup slot growth3
    rw [samePaging] at toThird
    exact toThird.trans (growth_setup slot growth4)
  have listed : slot ∈ fourth.paging.slots := by
    rw [Edit.setup_slots toFourth, copied.slots]
    exact Finset.mem_insert_self _ _
  obtain ⟨toFifth, same5⟩ := setupSharedSpace_edits listed shared
  obtain ⟨growth6, same6⟩ := kmalloc_edits _ nodeMalloc
  have toSixth := (toFourth.trans toFifth).trans (growth_setup slot growth6)
  have listedLate : slot ∈ sixth.paging.slots := by
    rw [Edit.setup_slots toSixth, copied.slots]
    exact Finset.mem_insert_self _ _
  obtain ⟨toSeventh, same7⟩ := setupCode_edits listedLate code
  exact ⟨first, paging, slot, second, growth1, same1, copied, child,
    ((same3.trans same4).trans (same5.trans same6)).trans same7, toSixth.trans toSeventh⟩

theorem userTask_edits {caller : Nat} {func codesize arg : UInt32} {copyfunc : CopyArgFunc}
    {entryOffset : UInt32} {growth : Growth} {kernel after : Kernel} {handle : Nat}
    (run : userTask caller func codesize arg copyfunc entryOffset growth kernel = .ok (after, handle)) :
    edits.Within Edit.IsCreation kernel.paging after.paging ∧ ∃ slot, Created kernel after slot := by
  obtain ⟨first, paging, slot, second, growth1, same1, copied, child, laterTasks, whole⟩ :=
    userTask_stages run
  obtain ⟨_, sameTid, sameOwner⟩ := addChildTask_eq child
  have earlySlots : first.paging.slots = kernel.paging.slots := Edit.setup_slots (growth_setup slot growth1)
  constructor
  · have early : edits.Within Edit.IsCreation kernel.paging first.paging :=
      (growth_setup slot growth1).mono fun edit setup => ⟨slot, Or.inr setup⟩
    have copy : edits.Within Edit.IsCreation first.paging paging :=
      Edit.within (.clone slot) ⟨slot, Or.inl rfl⟩ copied
    exact (early.trans copy).trans (whole.mono fun edit setup => ⟨slot, Or.inr setup⟩)
  · refine ⟨slot, ?_, ?_, ?_, ?_⟩
    · rw [← earlySlots]
      exact copied.fresh
    · rw [Edit.setup_slots whole, copied.slots, earlySlots]
    · intro query
      have unchanged : ∀ query, first.owner query = kernel.owner query := same1.owner
      rw [owner, laterTasks.tasks]
      change (second.setTask first.nextTid _).owner query = _
      rw [owner_setTask, same1.nextTid, sameOwner]
      by_cases same : query = kernel.nextTid
      · rw [if_pos same, if_pos same]
        rfl
      · rw [if_neg same, if_neg same]
        exact unchanged query
    · rw [laterTasks.nextTid]
      change second.nextTid = _
      rw [sameTid]
      exact congrArg (· + 1) same1.nextTid

end Kernel

end ToyKernel
