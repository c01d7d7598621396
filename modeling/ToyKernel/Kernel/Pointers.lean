import ToyKernel.Kernel.Children
import ToyKernel.Kernel.Coherence
import ToyKernel.Paging.BitSets

/-!
The system calls with the pointers that the kernel stores through. `*handle = child`, `*dst = next_free_vpage`,
the other answers and the copies are stored by the kernel itself, which may write to every page of the caller's
page directory, and no system call checks where its pointer leads. The page with the page directories of
all tasks is in every one of them.
-/

namespace ToyKernel

open Library Paging

namespace Paging

structure Anchored (state : Paging) : Prop where
  mapped : KernelMapped state
  region : frameOf (state.pageDirs .kernel 2) = some 2

theorem Initialized.anchored {state : Paging} (initialized : Initialized state) : Anchored state := by
  refine ⟨initialized.kernelMapped, ?_⟩
  rw [initialized.kernel, if_neg (by decide), if_pos rfl, frameOf_pageEntry]
  decide

end Paging

theorem Edit.anchored {edit : Edit} {old new : Paging} (applied : edit.Applies old new)
    (anchored : Anchored old) : Anchored new := by
  refine ⟨Edit.kernelMapped applied anchored.mapped, ?_⟩
  rw [(Edit.kernelEntries applied anchored.mapped).2]
  exact anchored.region

namespace Kernel

def withByte (word : UInt32) (offset : Nat) (byte : UInt8) : UInt32 :=
  let shift := UInt32.ofNat (8 * offset)
  (word &&& ~~~(0xFF <<< shift)) ||| (byte.toUInt32 <<< shift)

/-- A byte that the kernel stores. The frame of the page directories holds their entries. -/
def storeByte (address : Nat) (byte : UInt8) (kernel : Kernel) : Kernel :=
  if address / kPageSize4M.toNat = pageIndex4M pageDirectoryRegionStart then
    let offset := address % kPageSize4M.toNat
    let pd := PageDirPtr.region (offset / kPageDirSize.toNat)
    let index := offset % kPageDirSize.toNat / 4
    { kernel with
      paging := kernel.paging.setEntry pd index (withByte (kernel.paging.pageDirs pd index) (offset % 4) byte) }
  else { kernel with memory := store kernel.memory address byte }

def storeBytes (pd : PageDirectory) : UInt32 → List UInt8 → Kernel → Except Fault Kernel
  | _, [], kernel => pure kernel
  | dst, byte :: rest, kernel => do
      let address ← translate pd dst
      storeBytes pd (dst + 1) rest (storeByte address byte kernel)

/-- The store through a pointer of the caller. A page fault in the kernel stops the machine. -/
def storeThrough (caller : Nat) (pointer : UInt32) (bytes : List UInt8) (kernel : Kernel) : Except Fault Kernel := do
  let current ← kernel.getTask caller
  storeBytes (kernel.paging.pageDirs current.pageDirectory) pointer bytes kernel

/-- The system calls with all of their arguments, and what the kernel does by itself. The addresses of the
objects are the allocator's choice, and the byte is what the serial line has, if anything. -/
inductive SystemCall
  | debugRead (caller : Nat) (c : UInt32) (received : Option UInt8)
  | createUserTask (caller : Nat) (entry codesize arg handle entryOffset object : UInt32) (growth : Growth)
  | kernelJumpToUserEntry (vfsData vfsSize arg : UInt32) (growth : Growth)
  | destroyUserTask (handle : Nat)
  | exit (caller : Nat)
  | copyFromTask (caller handle : Nat) (dst src size : UInt32)
  | mapPage (caller : Nat) (vaddr : UInt32)
  | unmapPage (caller : Nat) (vaddr : UInt32)
  | sharePage (caller handle : Nat) (dst src : UInt32)
  | getParentTask (caller : Nat) (handle object : UInt32)
  | getParentTaskId (caller : Nat) (id : UInt32)
  | getCurrentTask (caller : Nat) (handle object : UInt32)
  | growHeap (bytes : UInt32)

/-- The call without the pointers of the caller; the others are nothing else than their stores. -/
def SystemCall.call : SystemCall → Option Call
  | .createUserTask caller entry codesize arg _ entryOffset _ growth =>
      some (.createUserTask caller entry codesize arg entryOffset growth)
  | .kernelJumpToUserEntry vfsData vfsSize arg growth => some (.kernelJumpToUserEntry vfsData vfsSize arg growth)
  | .destroyUserTask handle => some (.destroyUserTask handle)
  | .exit caller => some (.exit caller)
  | .copyFromTask _ _ _ _ _ => none
  | .debugRead _ _ _ => none
  | .getParentTask _ _ _ => none
  | .getParentTaskId _ _ => none
  | .getCurrentTask _ _ _ => none
  | .mapPage caller vaddr => some (.mapPage caller vaddr)
  | .unmapPage caller vaddr => some (.unmapPage caller vaddr)
  | .sharePage caller handle _ src => some (.sharePage caller handle src)
  | .growHeap bytes => some (.growHeap bytes)

def serve (kernel : Kernel) : SystemCall → Except Fault Kernel
  | .debugRead caller c received => kernel.storeThrough caller c received.toList
  | .createUserTask caller entry codesize arg handle entryOffset object growth => do
      let (kernel, _) ← kernel.createUserTask caller entry codesize arg entryOffset growth
      kernel.storeThrough caller handle (wordBytes object)
  | .kernelJumpToUserEntry vfsData vfsSize arg growth =>
      kernel.perform (.kernelJumpToUserEntry vfsData vfsSize arg growth)
  | .destroyUserTask handle => kernel.destroyUserTask handle
  | .exit caller => kernel.exitThisTask caller
  | .copyFromTask caller handle dst src size => kernel.copyFromTask caller handle dst src size
  | .mapPage caller vaddr => kernel.perform (.mapPage caller vaddr)
  | .unmapPage caller vaddr => kernel.unmapPage caller vaddr
  | .sharePage caller handle dst src => do
      let (kernel, nextFreeVpage) ← kernel.sharePage caller handle src
      kernel.storeThrough caller dst (wordBytes nextFreeVpage)
  | .getParentTask caller handle object => kernel.storeThrough caller handle (wordBytes object)
  | .getParentTaskId caller id => do
      let current ← kernel.getTask caller
      let some parent := current.parent | .error .noSuchTask
      kernel.storeThrough caller id (wordBytes (UInt32.ofNat parent))
  | .getCurrentTask caller handle object => kernel.storeThrough caller handle (wordBytes object)
  | .growHeap bytes => kernel.growHeap bytes

def CanServe (kernel : Kernel) : SystemCall → Prop
  | .createUserTask caller _ _ _ _ _ _ _ => kernel.RunningUser caller
  | .kernelJumpToUserEntry _ _ _ _ => True
  | .destroyUserTask handle => ∃ task, kernel.tasks handle = some task ∧ task.state = .completed
  | .exit caller => kernel.RunningUser caller
  | .copyFromTask caller _ _ _ _ => kernel.RunningUser caller
  | .mapPage caller _ => kernel.RunningUser caller
  | .unmapPage caller _ => kernel.RunningUser caller
  | .sharePage caller _ _ _ => kernel.RunningUser caller
  | .debugRead caller _ _ => kernel.RunningUser caller
  | .getParentTask caller _ _ => kernel.RunningUser caller
  | .getParentTaskId caller _ => kernel.RunningUser caller
  | .getCurrentTask caller _ _ => kernel.RunningUser caller
  | .growHeap _ => True

def systemRuns (Condition : Kernel → SystemCall → Prop) : System Kernel SystemCall where
  initial := (runs fun _ _ => True).initial
  step kernel call after := kernel.CanServe call ∧ Condition kernel call ∧ kernel.serve call = .ok after

def Meets (Condition : Kernel → Call → Prop) (kernel : Kernel) (systemCall : SystemCall) : Prop :=
  ∀ call, systemCall.call = some call → Condition kernel call

/-- The addresses lead to pages of the caller for user mode, on frames that the kernel does not map. -/
def OwnRange (kernel : Kernel) (caller : Nat) (vaddr : UInt32) (size : Nat) : Prop :=
  ∀ task, kernel.tasks caller = some task → ∀ i < size, ∃ frame,
    kernel.paging.UserMaps task.pageDirectory (pageIndex4M (vaddr + UInt32.ofNat i)) frame ∧
      kernel.paging.mapCount .kernel frame = 0

/-- The kernel stores through no pointer that leads anywhere else than to memory of the caller, and
copies no code that is longer than the page it goes to. -/
def OwnPointers (kernel : Kernel) : SystemCall → Prop
  | .debugRead caller c received => kernel.OwnRange caller c received.toList.length
  | .createUserTask caller _ codesize _ handle _ _ _ => kernel.OwnRange caller handle 4 ∧ codesize ≤ kPageSize4M
  | .getParentTask caller handle _ => kernel.OwnRange caller handle 4
  | .getParentTaskId caller id => kernel.OwnRange caller id 4
  | .getCurrentTask caller handle _ => kernel.OwnRange caller handle 4
  | .copyFromTask caller _ dst _ size => kernel.OwnRange caller dst size.toNat
  | .sharePage caller _ dst _ => kernel.OwnRange caller dst 4
  | _ => True

def Guarded (Condition : Kernel → Call → Prop) (kernel : Kernel) (systemCall : SystemCall) : Prop :=
  kernel.OwnPointers systemCall ∧ kernel.Meets Condition systemCall

abbrev ownRuns (Condition : Kernel → Call → Prop) : System Kernel SystemCall := systemRuns (Guarded Condition)

section Stores

variable {kernel made after : Kernel} {caller : Nat} {vaddr : UInt32}

theorem storeByte_memory {address : Nat} (elsewhere : address / 4194304 ≠ 2) (byte : UInt8) :
    storeByte address byte kernel = { kernel with memory := store kernel.memory address byte } := by
  have region : pageIndex4M pageDirectoryRegionStart = 2 := by decide
  have size : kPageSize4M.toNat = 4194304 := by decide
  rw [storeByte, region, size, if_neg elsewhere]

theorem storeBytes_memory {pd : PageDirectory} {bytes : List UInt8}
    (elsewhere : ∀ i < bytes.length, ∀ address, translate pd (vaddr + UInt32.ofNat i) = .ok address →
      address / 4194304 ≠ 2)
    (stored : storeBytes pd vaddr bytes kernel = .ok after) : ∃ memory, after = { kernel with memory } := by
  induction bytes generalizing vaddr kernel with
  | nil =>
      obtain rfl := pure_eq_ok.mp stored
      exact ⟨_, rfl⟩
  | cons byte rest ih =>
      obtain ⟨address, translated, later⟩ := bind_eq_ok.mp stored
      have first := elsewhere 0 (Nat.zero_lt_succ _) address (by rw [first_byte]; exact translated)
      rw [storeByte_memory first] at later
      obtain ⟨memory, rfl⟩ := ih (fun i below place reaches =>
        elsewhere (i + 1) (Nat.succ_lt_succ below) place (by rw [← succ_byte]; exact reaches)) later
      exact ⟨memory, rfl⟩

theorem OwnRange.word (own : kernel.OwnRange caller vaddr 4) (word : UInt32) :
    kernel.OwnRange caller vaddr (wordBytes word).length := own

/-- As long as the pages of the caller stay where they are, a store to its own memory changes memory only. -/
theorem storeThrough_own {task : Task} {bytes : List UInt8} (anchored : Anchored kernel.paging)
    (own : kernel.OwnRange caller vaddr bytes.length)
    (found : kernel.tasks caller = some task) (isLive : task.pageDirectory ∈ kernel.paging.live)
    (extension : Extends False kernel.paging made.paging)
    (kept : ∀ current, made.getTask caller = .ok current → current.pageDirectory = task.pageDirectory)
    (stored : made.storeThrough caller vaddr bytes = .ok after) : ∃ memory, after = { made with memory } := by
  obtain ⟨current, foundAfter, run⟩ := bind_eq_ok.mp stored
  refine storeBytes_memory ?_ run
  intro i below address translated
  obtain ⟨frame, ⟨_, _, maps⟩, notKernel⟩ := own task found i below
  have same := extension.entries _ isLive _ (pageIndex4M_lt (vaddr + UInt32.ofNat i)) (by simp)
    (frameOf_eq_some.mp maps).1
  obtain ⟨target, targetMaps, rfl⟩ := translate_eq_ok.mp translated
  rw [kept current foundAfter, same, maps] at targetMaps
  obtain rfl := Option.some.inj targetMaps
  have different : frame ≠ 2 := by
    rintro rfl
    exact unmapped_of_mapCount notKernel (by decide) anchored.region
  omega

theorem creation_extends {old new : Paging} (within : edits.Within Edit.IsCreation old new) : Extends False old new := by
  refine within.preserves (Extends False old) ?_ (.refl _ _)
  rintro state edit next ⟨slot, rfl | setup⟩ extension applied
  · exact extension.trans (Cloned.extends False applied)
  · cases edit with
    | temporary => exact extension.trans (Equivalent.extends False applied)
    | kernelPage vaddr paddr => exact extension.trans (applied.2.2.2.extends False)
    | userPage other vaddr paddr => exact extension.trans (applied.2.2.2.extends False)
    | _ => exact absurd setup id

/-- A copy leaves nothing behind but what it wrote to memory. -/
theorem copyFromTask_temporary {handle : Nat} {dst src size : UInt32}
    (copied : kernel.copyFromTask caller handle dst src size = .ok after) :
    ∃ paging memory, Equivalent kernel.paging paging ∧ after = { kernel with paging, memory } := by
  obtain ⟨task, _, rest⟩ := bind_eq_ok.mp copied
  obtain ⟨_, _, rest⟩ := bind_eq_ok.mp rest
  obtain ⟨current, _, rest⟩ := bind_eq_ok.mp rest
  split at rest
  · obtain ⟨memory, _, done⟩ := bind_eq_ok.mp rest
    obtain rfl := pure_eq_ok.mp done
    exact ⟨kernel.paging, memory, .refl _, rfl⟩
  · rw [read, transfer] at rest
    split at rest
    · obtain rfl := pure_eq_ok.mp rest
      exact ⟨kernel.paging, kernel.memory, .refl _, rfl⟩
    · obtain ⟨equivalent, _⟩ := taskMemcpy_edits rest
      obtain ⟨_, _, rest⟩ := bind_eq_ok.mp rest
      obtain ⟨_, _, rest⟩ := bind_eq_ok.mp rest
      obtain ⟨memory, _, rest⟩ := bind_eq_ok.mp rest
      obtain ⟨paging, _, done⟩ := bind_eq_ok.mp rest
      obtain rfl := pure_eq_ok.mp done
      exact ⟨paging, memory, equivalent, rfl⟩

theorem Owned.runningUser (owned : Owned kernel) (running : kernel.RunningUser caller) :
    ∃ task, kernel.tasks caller = some task ∧ task.pageDirectory ∈ kernel.paging.live := by
  obtain ⟨task, found, isUser, _⟩ := running
  have uses := owner_of found
  rw [isUser] at uses
  obtain ⟨slot, listed, same⟩ := owned.userTasks caller _ uses
  exact ⟨task, found, by rw [same]; exact region_mem_live.mpr listed⟩

/-- An answer that goes to the caller's own memory changes nothing else. -/
theorem answer_own {bytes : List UInt8} (owned : Owned kernel) (anchored : Anchored kernel.paging)
    (running : kernel.RunningUser caller) (own : kernel.OwnRange caller vaddr bytes.length)
    (stored : kernel.storeThrough caller vaddr bytes = .ok after) :
    ∃ paging memory, Equivalent kernel.paging paging ∧ after = { kernel with paging, memory } := by
  obtain ⟨task, found, isLive⟩ := owned.runningUser running
  obtain ⟨memory, rfl⟩ := storeThrough_own anchored own found isLive (.refl _ _)
    (fun current foundAfter => by
      rw [getTask_eq_ok, found] at foundAfter
      rw [Option.some.inj foundAfter]) stored
  exact ⟨kernel.paging, memory, .refl _, rfl⟩

/-- With pointers of the caller only, a system call is the call without them and some stores to memory. -/
theorem serve_cases {systemCall : SystemCall} (owned : Owned kernel) (anchored : Anchored kernel.paging)
    (can : kernel.CanServe systemCall) (own : kernel.OwnPointers systemCall)
    (served : kernel.serve systemCall = .ok after) :
    (∃ call middle memory, systemCall.call = some call ∧ kernel.Enabled call ∧
      kernel.perform call = .ok middle ∧ after = { middle with memory }) ∨
    (systemCall.call = none ∧
      ∃ paging memory, Equivalent kernel.paging paging ∧ after = { kernel with paging, memory }) := by
  cases systemCall with
  | createUserTask caller entry codesize arg handle entryOffset object growth =>
      obtain ⟨⟨made, child⟩, created, stored⟩ := bind_eq_ok.mp served
      obtain ⟨within, slot, adopted⟩ := userTask_edits created
      obtain ⟨task, found, isLive⟩ := owned.runningUser can
      obtain ⟨memory, rfl⟩ := storeThrough_own anchored (own.1.word object) found isLive (creation_extends within)
        (fun current => caller_kept owned adopted found) stored
      exact Or.inl ⟨_, made, memory, rfl, can, bind_eq_ok.mpr ⟨_, created, rfl⟩, rfl⟩
  | sharePage caller handle dst src =>
      obtain ⟨⟨shared, page⟩, run, stored⟩ := bind_eq_ok.mp served
      obtain ⟨same, edit, ⟨slot, source, vaddr, paddr, _, _, rfl⟩, applied⟩ := sharePage_edit owned can run
      obtain ⟨task, found, isLive⟩ := owned.runningUser can
      obtain ⟨memory, rfl⟩ := storeThrough_own anchored (OwnRange.word own page) found isLive (applied.2.2.2.2.2.extends False)
        (fun current foundAfter => by
          rw [getTask_eq_ok, same.tasks, found] at foundAfter
          rw [Option.some.inj foundAfter]) stored
      exact Or.inl ⟨_, shared, memory, rfl, can, bind_eq_ok.mpr ⟨_, run, rfl⟩, rfl⟩
  | copyFromTask caller handle dst src size => exact Or.inr ⟨rfl, copyFromTask_temporary served⟩
  | debugRead caller c received => exact Or.inr ⟨rfl, answer_own owned anchored can own served⟩
  | getParentTask caller handle object =>
      exact Or.inr ⟨rfl, answer_own owned anchored can (OwnRange.word own object) served⟩
  | getParentTaskId caller id =>
      obtain ⟨current, _, rest⟩ := bind_eq_ok.mp served
      split at rest
      · exact Or.inr ⟨rfl, answer_own owned anchored can (OwnRange.word own _) rest⟩
      · cases rest
  | getCurrentTask caller handle object =>
      exact Or.inr ⟨rfl, answer_own owned anchored can (OwnRange.word own object) served⟩
  | kernelJumpToUserEntry vfsData vfsSize arg growth => exact Or.inl ⟨_, after, after.memory, rfl, can, served, rfl⟩
  | destroyUserTask handle => exact Or.inl ⟨_, after, after.memory, rfl, can, served, rfl⟩
  | exit caller => exact Or.inl ⟨_, after, after.memory, rfl, can, served, rfl⟩
  | mapPage caller vaddr => exact Or.inl ⟨_, after, after.memory, rfl, can, served, rfl⟩
  | unmapPage caller vaddr => exact Or.inl ⟨_, after, after.memory, rfl, can, served, rfl⟩
  | growHeap bytes => exact Or.inl ⟨_, after, after.memory, rfl, can, served, rfl⟩

structure Sound (kernel : Kernel) : Prop where
  owned : Owned kernel
  anchored : Anchored kernel.paging

theorem Sound.equivalent {paging : Paging} (sound : Sound kernel) (equivalent : Equivalent kernel.paging paging)
    (memory : Memory) : Sound { kernel with paging, memory } :=
  ⟨sound.owned.congr (slots_congr equivalent.region) (fun _ => rfl) rfl,
    Edit.anchored (show Edit.temporary.Applies kernel.paging paging from equivalent) sound.anchored⟩

theorem Sound.perform {call : Call} (sound : Sound kernel) (enabled : kernel.Enabled call)
    (performed : kernel.perform call = .ok after) : Sound after :=
  ⟨(perform_cases sound.owned enabled performed).1,
    perform_paging (fun _ _ _ => Edit.anchored) sound.owned sound.anchored enabled performed⟩

theorem kernelSetup_sound {highMemKB : UInt32} {slots : Nat → PageDirectory} {memory : Memory}
    {scheduler : List UInt32} {initrd : Option (List UInt32)}
    (run : kernelSetup highMemKB slots memory scheduler initrd = .ok kernel) : Sound kernel :=
  ⟨(kernelSetup_edits run).1,
    kernelSetup_paging (fun _ _ _ => Edit.anchored) (fun _ => Initialized.anchored) run⟩

/-- An invariant that the calls keep and that does not depend on memory or on pages without a mapping holds
in all runs with pointers of the callers only. -/
theorem ownRuns_invariant {Condition : Kernel → Call → Prop} (Inv : Kernel → Prop)
    (initial : ∀ highMemKB slots memory scheduler initrd kernel,
      kernelSetup highMemKB slots memory scheduler initrd = .ok kernel → Inv kernel)
    (calls : ∀ kernel call after, Sound kernel → Inv kernel → kernel.Enabled call → Condition kernel call →
      kernel.perform call = .ok after → Inv after)
    (stores : ∀ kernel paging memory, Inv kernel → Equivalent kernel.paging paging →
      Inv { kernel with paging, memory })
    (reachable : (ownRuns Condition).Reachable kernel) : Sound kernel ∧ Inv kernel := by
  refine reachable.invariant (fun state => Sound state ∧ Inv state) ?_ ?_
  · rintro state ⟨highMemKB, slots, memory, scheduler, initrd, run⟩
    exact ⟨kernelSetup_sound run, initial _ _ _ _ _ _ run⟩
  · rintro state systemCall next ⟨sound, holds⟩ ⟨can, ⟨own, meets⟩, served⟩
    rcases serve_cases sound.owned sound.anchored can own served with
      ⟨call, middle, memory, isCall, enabled, performed, rfl⟩ | ⟨_, paging, memory, equivalent, rfl⟩
    · exact ⟨(sound.perform enabled performed).equivalent (.refl _) memory,
        stores middle _ memory (calls state call middle sound holds enabled (meets call isCall) performed) (.refl _)⟩
    · exact ⟨sound.equivalent equivalent memory, stores state paging memory holds equivalent⟩

end Stores

instance (kernel : Kernel) (systemCall : SystemCall) : Decidable (kernel.CanServe systemCall) :=
  match systemCall with
  | .createUserTask caller _ _ _ _ _ _ _ => inferInstanceAs (Decidable (kernel.RunningUser caller))
  | .kernelJumpToUserEntry _ _ _ _ => inferInstanceAs (Decidable True)
  | .destroyUserTask handle => inferInstanceAs (Decidable (kernel.Enabled (.destroyUserTask handle)))
  | .exit caller => inferInstanceAs (Decidable (kernel.RunningUser caller))
  | .copyFromTask caller _ _ _ _ => inferInstanceAs (Decidable (kernel.RunningUser caller))
  | .mapPage caller _ => inferInstanceAs (Decidable (kernel.RunningUser caller))
  | .unmapPage caller _ => inferInstanceAs (Decidable (kernel.RunningUser caller))
  | .sharePage caller _ _ _ => inferInstanceAs (Decidable (kernel.RunningUser caller))
  | .debugRead caller _ _ => inferInstanceAs (Decidable (kernel.RunningUser caller))
  | .getParentTask caller _ _ => inferInstanceAs (Decidable (kernel.RunningUser caller))
  | .getParentTaskId caller _ => inferInstanceAs (Decidable (kernel.RunningUser caller))
  | .getCurrentTask caller _ _ => inferInstanceAs (Decidable (kernel.RunningUser caller))
  | .growHeap _ => inferInstanceAs (Decidable True)

instance (kernel : Kernel) (caller : Nat) (vaddr : UInt32) (size : Nat) :
    Decidable (kernel.OwnRange caller vaddr size) :=
  decidable_of_iff ((kernel.tasks caller).all (fun task => (List.range size).all fun i =>
      userAccessible (kernel.paging.pageDirs task.pageDirectory (pageIndex4M (vaddr + UInt32.ofNat i))) &&
      (frameOf (kernel.paging.pageDirs task.pageDirectory (pageIndex4M (vaddr + UInt32.ofNat i)))).any fun frame =>
        (List.range 1024).all fun index => frameOf (kernel.paging.pageDirs .kernel index) != some frame) = true)
    (by
      simp only [OwnRange, UserMaps, pageIndex4M_lt, true_and, Option.all_eq_true, List.all_eq_true, List.mem_range,
        Bool.and_eq_true, Option.any_eq_true, ← not_mapped_iff]
      grind)

instance (kernel : Kernel) (systemCall : SystemCall) : Decidable (kernel.OwnPointers systemCall) :=
  match systemCall with
  | .debugRead caller c received => inferInstanceAs (Decidable (kernel.OwnRange caller c received.toList.length))
  | .createUserTask caller _ codesize _ handle _ _ _ =>
      inferInstanceAs (Decidable (kernel.OwnRange caller handle 4 ∧ codesize ≤ kPageSize4M))
  | .getParentTask caller handle _ => inferInstanceAs (Decidable (kernel.OwnRange caller handle 4))
  | .getParentTaskId caller id => inferInstanceAs (Decidable (kernel.OwnRange caller id 4))
  | .getCurrentTask caller handle _ => inferInstanceAs (Decidable (kernel.OwnRange caller handle 4))
  | .copyFromTask caller _ dst _ size => inferInstanceAs (Decidable (kernel.OwnRange caller dst size.toNat))
  | .sharePage caller _ dst _ => inferInstanceAs (Decidable (kernel.OwnRange caller dst 4))
  | .kernelJumpToUserEntry _ _ _ _ => inferInstanceAs (Decidable True)
  | .destroyUserTask _ => inferInstanceAs (Decidable True)
  | .exit _ => inferInstanceAs (Decidable True)
  | .mapPage _ _ => inferInstanceAs (Decidable True)
  | .unmapPage _ _ => inferInstanceAs (Decidable True)
  | .growHeap _ => inferInstanceAs (Decidable True)

instance (Condition : Kernel → Call → Prop) [∀ kernel call, Decidable (Condition kernel call)] (kernel : Kernel)
    (systemCall : SystemCall) : Decidable (kernel.Meets Condition systemCall) :=
  decidable_of_iff (systemCall.call.all (fun call => decide (Condition kernel call)) = true)
    (by simp [Meets, Option.all_eq_true])

instance (Condition : Kernel → Call → Prop) [∀ kernel call, Decidable (Condition kernel call)] (kernel : Kernel)
    (systemCall : SystemCall) : Decidable (Guarded Condition kernel systemCall) :=
  inferInstanceAs (Decidable (_ ∧ _))

section Replay

variable {Condition : Kernel → SystemCall → Prop} [∀ kernel systemCall, Decidable (Condition kernel systemCall)]

def tryServe (Condition : Kernel → SystemCall → Prop)
    [∀ kernel systemCall, Decidable (Condition kernel systemCall)] (kernel : Kernel) (systemCall : SystemCall) :
    Option Kernel :=
  if kernel.CanServe systemCall ∧ Condition kernel systemCall then (kernel.serve systemCall).toOption else none

theorem tryServe_step {kernel after : Kernel} {systemCall : SystemCall}
    (tried : tryServe Condition kernel systemCall = some after) :
    (systemRuns Condition).step kernel systemCall after := by
  unfold tryServe at tried
  split at tried
  · rename_i allowed
    exact ⟨allowed.1, allowed.2, toOption_eq_some.mp tried⟩
  · cases tried

def serveTest (Condition : Kernel → SystemCall → Prop)
    [∀ kernel systemCall, Decidable (Condition kernel systemCall)] (calls : List SystemCall)
    (test : Kernel → Bool) : Bool :=
  System.replayTest (tryServe Condition) bootMachine.toOption calls test

theorem serveTest_reachable (calls : List SystemCall) (test : Kernel → Bool)
    (passed : serveTest Condition calls test = true) :
    ∃ kernel, (systemRuns Condition).Reachable kernel ∧ test kernel = true :=
  System.replayTest_reachable (fun _ => bootMachine_initial) (fun _ _ _ => tryServe_step) passed

end Replay

def twoUserTasks : List SystemCall :=
  [.kernelJumpToUserEntry kernHeapBegin 8 0 noGrowth,
    .createUserTask 1 userStart 4 0 userStart 0 0x2000080 noGrowth]

theorem storeBytes_noClash (pd : PageDirectory) (bytes : List UInt8) (dst : UInt32) (kernel : Kernel) :
    NoClash (storeBytes pd dst bytes kernel) := by
  induction bytes generalizing dst kernel with
  | nil => exact pure_noClash _
  | cons byte rest ih => exact (translate_noClash pd dst).then fun _ _ => ih _ _

theorem storeThrough_noClash (caller : Nat) (pointer : UInt32) (bytes : List UInt8) (kernel : Kernel) :
    NoClash (kernel.storeThrough caller pointer bytes) :=
  (getTask_noClash _ _).then fun _ _ => storeBytes_noClash _ _ _ _

theorem copyFromTask_noClash (caller handle : Nat) (dst src size : UInt32) (kernel : Kernel) :
    NoClash (kernel.copyFromTask caller handle dst src size) := by
  refine (getTask_noClash _ _).then fun task _ => ?_
  refine returns_require_or (by decide) fun _ => ?_
  refine (getTask_noClash _ _).then fun current _ => ?_
  split
  · exact (memcpyVirtual_noClash _ _ _ _ _).then fun _ _ => pure_noClash _
  · rw [read, transfer]
    split
    · exact pure_noClash _
    · exact taskMemcpy_noClash fun _ pd memory => memcpyVirtual_noClash pd _ _ _ memory

theorem serve_noClash {kernel : Kernel} {systemCall : SystemCall} (owned : Owned kernel)
    (replicated : Replicated kernel.paging) (can : kernel.CanServe systemCall) : NoClash (kernel.serve systemCall) := by
  have plain : ∀ call, kernel.Enabled call → NoClash (kernel.perform call) :=
    fun call enabled => perform_noClash owned replicated enabled
  cases systemCall with
  | createUserTask caller entry codesize arg handle entryOffset object growth =>
      exact (userTask_noClash replicated (copyArgDefault_noClash arg)).then fun _ _ => storeThrough_noClash _ _ _ _
  | sharePage caller handle dst src =>
      exact (sharePage_noClash owned can).then fun _ _ => storeThrough_noClash _ _ _ _
  | copyFromTask caller handle dst src size => exact copyFromTask_noClash caller handle dst src size kernel
  | debugRead caller c received => exact storeThrough_noClash _ _ _ _
  | getParentTask caller handle object => exact storeThrough_noClash _ _ _ _
  | getParentTaskId caller id =>
      refine (getTask_noClash _ _).then fun current _ => ?_
      split
      · exact storeThrough_noClash _ _ _ _
      · exact returns_error.mpr (by decide)
  | getCurrentTask caller handle object => exact storeThrough_noClash _ _ _ _
  | kernelJumpToUserEntry vfsData vfsSize arg growth => exact plain (.kernelJumpToUserEntry vfsData vfsSize arg growth) can
  | destroyUserTask handle => exact plain (.destroyUserTask handle) can
  | exit caller => exact plain (.exit caller) can
  | mapPage caller vaddr => exact plain (.mapPage caller vaddr) can
  | unmapPage caller vaddr => exact plain (.unmapPage caller vaddr) can
  | growHeap bytes => exact plain (.growHeap bytes) can

def KernelCoherent (kernel : Kernel) : Prop :=
  (∀ pd ∈ kernel.paging.live, ∀ index < 1024, isReplicated (pageAddr4M index) = true →
    kernel.paging.pageDirs pd index = kernel.paging.pageDirs .kernel index) ∧
  ∀ systemCall, kernel.CanServe systemCall → kernel.serve systemCall ≠ .error .otherEntryUsed

end Kernel

end ToyKernel
