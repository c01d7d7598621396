import ToyKernel.Kernel.Creation

/-!
`create_user_task` seen from the parent. The default copy function writes the argument through the
page directory in use, which is the parent's own, so it lands on the top of the parent's stack.
-/

namespace ToyKernel

open Library Paging

namespace Kernel

/-- The system call with its out-parameter: the address of the new object is stored at `handle`. -/
def createUserTaskAt (caller : Nat) (entry codesize arg handle entryOffset object : UInt32) (growth : Growth)
    (kernel : Kernel) : Except Fault (Kernel × Nat) := do
  let (kernel, child) ← kernel.createUserTask caller entry codesize arg entryOffset growth
  let current ← kernel.getTask caller
  let memory ← writeBytes (kernel.paging.pageDirs current.pageDirectory) handle (wordBytes object) kernel.memory
  return ({ kernel with memory }, child)

def UserByte (kernel : Kernel) (pd : PageDirPtr) (address : Nat) : Prop :=
  ∃ index, kernel.paging.UserMaps pd index (address / 4194304)

def WordByte (kernel : Kernel) (pd : PageDirPtr) (vaddr : UInt32) (address : Nat) : Prop :=
  ∃ i < 4, translate (kernel.paging.pageDirs pd) (vaddr + UInt32.ofNat i) = .ok address

structure Undisturbed (kernel after : Kernel) (parent : PageDirPtr) (child : Nat) (arg handle : UInt32) : Prop where
  memory : ∀ address, kernel.UserByte parent address → ¬kernel.WordByte parent handle address →
    after.memory address = kernel.memory address
  entries : ∀ index < 1024, isKernelHeap (pageAddr4M index) = false →
    after.paging.pageDirs parent index = kernel.paging.pageDirs parent index
  argument : ∃ new, after.tasks child = some new ∧
    Holds (after.paging.pageDirs new.pageDirectory) after.memory (userSharedSpaceEnd - 4) (wordBytes arg)

def HoldsArgument (kernel : Kernel) (parent : PageDirPtr) (arg handle : UInt32) : Prop :=
  ∀ i (below : i < (wordBytes arg).length), ∀ address,
    translate (kernel.paging.pageDirs parent) (userSharedSpaceEnd - 4 + UInt32.ofNat i) = .ok address →
    kernel.UserByte parent address → ¬kernel.WordByte parent handle address →
    kernel.memory address = (wordBytes arg)[i]

def OwnPointer (kernel : Kernel) (parent : PageDirPtr) (handle : UInt32) : Prop :=
  ∀ i < 4, present (kernel.paging.pageDirs parent (pageIndex4M (handle + UInt32.ofNat i))) = true ∧
    userAccessible (kernel.paging.pageDirs parent (pageIndex4M (handle + UInt32.ofNat i))) = true

theorem writeBytes_untouched {pd : PageDirectory} {memory after : Memory} {bytes : List UInt8} {vaddr : UInt32}
    {address : Nat} (written : writeBytes pd vaddr bytes memory = .ok after)
    (untouched : ∀ i < bytes.length, translate pd (vaddr + UInt32.ofNat i) ≠ .ok address) :
    after address = memory address := by
  induction bytes generalizing vaddr memory with
  | nil =>
      obtain rfl := pure_eq_ok.mp written
      rfl
  | cons byte rest ih =>
      obtain ⟨target, translated, later⟩ := bind_eq_ok.mp written
      have first := untouched 0 (Nat.zero_lt_succ _)
      rw [first_byte, translated] at first
      rw [ih later ?_, store_other memory byte fun same => first (congrArg _ same.symm)]
      intro i below
      rw [succ_byte]
      exact untouched (i + 1) (Nat.succ_lt_succ below)

theorem word_place {pd : PageDirectory} {vaddr : UInt32} {frame : Nat}
    (maps : frameOf (pd (pageIndex4M vaddr)) = some frame) (inside : vaddr.toNat % 4194304 + 4 ≤ 4194304) {i : Nat}
    (below : i < 4) :
    translate pd (vaddr + UInt32.ofNat i) = .ok (frame * 4194304 + vaddr.toNat % 4194304 + i) := by
  have index : pageIndex4M (vaddr + UInt32.ofNat i) = pageIndex4M vaddr := byte_index (by omega)
  refine translate_eq_ok.mpr ⟨frame, by rw [index]; exact maps, ?_⟩
  rw [byte_mod]
  omega

section Parent

variable {kernel made : Kernel} {caller child : Nat} {parent : Task}
  {entry codesize arg handle entryOffset object : UInt32} {growth : Growth}

theorem caller_kept {slot : Nat} {current : Task} (owned : Owned kernel) (created : Created kernel made slot)
    (found : kernel.tasks caller = some parent) (foundAfter : made.getTask caller = .ok current) :
    current.pageDirectory = parent.pageDirectory := by
  have before := owner_of found
  have after := owner_of (getTask_eq_ok.mp foundAfter)
  have old : caller ≠ kernel.nextTid := Nat.ne_of_lt (owned.known caller _ before)
  rw [created.owner, if_neg old, before] at after
  exact (Prod.mk.inj (Option.some.inj after)).1.symm

structure Stored (kernel after : Kernel) (parent : PageDirPtr) (child : Nat) (arg handle : UInt32)
    (pd : PageDirectory) (argued : Memory) : Prop where
  argument : writeBytes pd (userSharedSpaceEnd - 4) (wordBytes arg) kernel.memory = .ok argued
  top : pd sharedIndex = kernel.paging.pageDirs parent sharedIndex
  memory : ∀ address, kernel.UserByte parent address → ¬kernel.WordByte parent handle address →
    after.memory address = argued address
  entries : ∀ index < 1024, isKernelHeap (pageAddr4M index) = false →
    after.paging.pageDirs parent index = kernel.paging.pageDirs parent index
  word : ∃ new, after.tasks child = some new ∧
    Holds (after.paging.pageDirs new.pageDirectory) after.memory (userSharedSpaceEnd - 4) (wordBytes arg)

theorem createUserTaskAt_stored {after : Kernel} (owned : Owned kernel) (tidy : Tidy kernel.paging)
    (mapped : KernelMapped kernel.paging) (unclaimed : Unclaimed 0 kernel.paging)
    (running : kernel.RunningUser caller) (found : kernel.tasks caller = some parent)
    (small : codesize.toNat ≤ 4194304) (own : kernel.OwnPointer parent.pageDirectory handle)
    (run : kernel.createUserTaskAt caller entry codesize arg handle entryOffset object growth = .ok (after, child)) :
    ∃ pd argued, Stored kernel after parent.pageDirectory child arg handle pd argued := by
  obtain ⟨⟨made, newTask⟩, created, rest⟩ := bind_eq_ok.mp run
  obtain ⟨current, foundAfter, rest⟩ := bind_eq_ok.mp rest
  obtain ⟨memory, stored, done⟩ := bind_eq_ok.mp rest
  obtain ⟨rfl, rfl⟩ := Prod.mk.inj (pure_eq_ok.mp done)
  obtain ⟨task, slot, frame, codeFrame, pd, argued, stackArg, known, built⟩ :=
    userTask_spec owned tidy mapped unclaimed (Nat.zero_le 1) small created
  obtain rfl : parent = task := Option.some.inj (found.symm.trans known)
  obtain ⟨ownSlot, listed, uses, owner⟩ := owned.caller running (getTask_eq_ok.mpr found)
  obtain ⟨_, _, made'⟩ := userTask_edits created
  rw [caller_kept owned made' found foundAfter] at stored
  have isLive : parent.pageDirectory ∈ kernel.paging.live := by
    rw [uses]
    exact region_mem_live.mpr listed
  obtain ⟨_, written, returned⟩ := bind_eq_ok.mp built.copied
  obtain ⟨rfl, rfl⟩ := Prod.mk.inj (pure_eq_ok.mp returned)
  -- the pages under the handle are the parent's own, before and after
  have sameHandle : ∀ i < 4, ∀ address,
      translate (made.paging.pageDirs parent.pageDirectory) (handle + UInt32.ofNat i) = .ok address →
      translate (kernel.paging.pageDirs parent.pageDirectory) (handle + UInt32.ofNat i) = .ok address := by
    intro i below address translated
    have same := built.extension.entries _ isLive (pageIndex4M (handle + UInt32.ofNat i)) (pageIndex4M_lt _)
      (by simp) (own i below).1
    obtain ⟨target, maps, rfl⟩ := translate_eq_ok.mp translated
    rw [same] at maps
    exact translate_eq_ok.mpr ⟨target, maps, rfl⟩
  have untouched : ∀ address, ¬kernel.WordByte parent.pageDirectory handle address →
      memory address = made.memory address := by
    intro address elsewhere
    refine writeBytes_untouched stored ?_
    intro i below translated
    rw [wordBytes_length] at below
    exact elsewhere ⟨i, below, sameHandle i below address translated⟩
  refine ⟨pd, _, written, ?_, ?_, ?_, ?_⟩
  · refine built.own sharedIndex (by decide) (by decide) ?_
    rw [uses]
    exact PageDirPtr.noConfusion
  · intro address isUser elsewhere
    obtain ⟨index, bound, _, maps⟩ := isUser
    have notShared : address / 4194304 ≠ frame := by
      rintro rfl
      exact built.unmapped _ isLive index bound maps
    have notCode : address / 4194304 ≠ codeFrame := by
      rintro rfl
      exact built.codeUnmapped (Nat.zero_le _) _ isLive index bound maps
    exact (untouched address elsewhere).trans (built.kept address (by omega) notCode)
  · intro index bound elsewhere
    rw [uses]
    exact built.entries ownSlot listed index bound elsewhere
  · obtain ⟨new, isChild, newUses⟩ := built.child
    refine ⟨new, isChild, ?_⟩
    rw [newUses]
    have holds := built.stack _ (List.mem_cons_self ..)
    have maps := built.maps.2.2
    have place : pageIndex4M (userSharedSpaceEnd - 4) = sharedIndex := by decide
    have inside : (userSharedSpaceEnd - 4).toNat % 4194304 + (wordBytes arg).length ≤ 4194304 := by
      rw [wordBytes_length]
      decide
    refine holds_page (by rw [place]; exact maps) inside ?_
    intro i below
    rw [← holds.byte (by rw [place]; exact maps) inside below]
    refine untouched _ ?_
    rintro ⟨j, _, translated⟩
    obtain ⟨target, targetMaps, same⟩ := translate_eq_ok.mp translated
    have offset : (userSharedSpaceEnd - 4).toNat % 4194304 = 4194300 := by decide
    rw [wordBytes_length] at below
    obtain rfl : target = frame := by omega
    exact built.unmapped _ isLive _ (pageIndex4M_lt _) targetMaps

theorem Stored.undisturbed_iff {after : Kernel} {pd : PageDirectory} {argued : Memory} {directory : PageDirPtr}
    (stored : Stored kernel after directory child arg handle pd argued) :
    Undisturbed kernel after directory child arg handle ↔ kernel.HoldsArgument directory arg handle := by
  have page : pageIndex4M (userSharedSpaceEnd - 4) = sharedIndex := by decide
  have inside : (userSharedSpaceEnd - 4).toNat % 4194304 + (wordBytes arg).length ≤ 4194304 := by
    rw [wordBytes_length]
    decide
  obtain ⟨frame, maps⟩ : ∃ frame, frameOf (pd (pageIndex4M (userSharedSpaceEnd - 4))) = some frame := by
    obtain ⟨_, translated, _⟩ := bind_eq_ok.mp stored.argument
    obtain ⟨frame, maps, _⟩ := translate_eq_ok.mp translated
    exact ⟨frame, maps⟩
  have mapsBefore : frameOf (kernel.paging.pageDirs directory (pageIndex4M (userSharedSpaceEnd - 4))) = some frame := by
    rw [page, ← stored.top, ← page]
    exact maps
  have holds := writeBytes_holds stored.argument maps inside
  constructor
  · intro undisturbed i below address translated isUser elsewhere
    rw [word_place mapsBefore inside (wordBytes_length arg ▸ below)] at translated
    obtain rfl := Except.ok.inj translated
    rw [← undisturbed.memory _ isUser elsewhere, stored.memory _ isUser elsewhere]
    exact holds.byte maps inside below
  · intro holdsArgument
    refine ⟨?_, stored.entries, stored.word⟩
    intro address isUser elsewhere
    rw [stored.memory address isUser elsewhere]
    by_cases under : ∃ i < 4,
        translate (kernel.paging.pageDirs directory) (userSharedSpaceEnd - 4 + UInt32.ofNat i) = .ok address
    · obtain ⟨i, below, translated⟩ := under
      have same := holdsArgument i (by rwa [wordBytes_length]) address translated isUser elsewhere
      rw [word_place mapsBefore inside below] at translated
      obtain rfl := Except.ok.inj translated
      rw [same]
      exact holds.byte maps inside (by rwa [wordBytes_length])
    · refine writeBytes_untouched stored.argument ?_
      intro i below translated
      rw [wordBytes_length] at below
      rw [word_place maps inside below] at translated
      exact under ⟨i, below, by rw [word_place mapsBefore inside below]; exact translated⟩

end Parent

/-- As long as every page that leaves a task was its own, the free frames are unmapped. -/
theorem reachable_unclaimed {kernel : Kernel} (reachable : (runs KeepsPrivate).Reachable kernel) :
    Unclaimed 0 kernel.paging := by
  obtain ⟨_, isolated⟩ := reachable_isolated reachable
  intro frame _ bound free
  have counted := isolated.counted frame bound
  exact ⟨counted.unreferenced free, fun pd isLive index below => unmapped_of_mappings (counted.free free).1 isLive below⟩

instance (kernel : Kernel) (parent : PageDirPtr) (handle : UInt32) : Decidable (kernel.OwnPointer parent handle) :=
  inferInstanceAs (Decidable (∀ i < 4, _ ∧ _))

end Kernel

end ToyKernel
