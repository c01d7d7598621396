import ToyKernel.Kernel.Creation

/-!
The initrd in the shared page of the first user task. The copy function checks the size of the page, and
the constructor then writes the initial stack to the top of the same page.
-/

namespace ToyKernel

open Library Paging

namespace Kernel

/-- The page of the first user task: the size of the initrd and its bytes from the bottom, the initial
stack at the top, and no byte that belongs to both. -/
structure InitrdPlaced (pd : PageDirectory) (memory : Memory) (size : UInt32) (bytes : List UInt8) : Prop where
  data : Holds pd memory userSharedSpaceStart (wordBytes size ++ bytes)
  stack : ∀ entry ∈ initialStack userSharedSpaceStart 0, Holds pd memory entry.1 (wordBytes entry.2)
  apart : ∀ i < 4 + bytes.length, ∀ entry ∈ initialStack userSharedSpaceStart 0, ∀ j < 4,
    userSharedSpaceStart.toNat + i ≠ entry.1.toNat + j

section Copying

variable {pd other : PageDirectory} {memory after : Memory} {first second bytes : List UInt8} {frame : Nat}
  {vaddr data size arg stackArg : UInt32}

theorem Holds.append (one : Holds pd memory vaddr first)
    (rest : Holds pd memory (vaddr + UInt32.ofNat first.length) second) :
    Holds pd memory vaddr (first ++ second) := by
  induction first generalizing vaddr with
  | nil =>
      rw [List.length_nil, first_byte] at rest
      exact rest
  | cons byte later ih =>
      rw [List.length_cons, ← succ_byte] at rest
      exact ⟨one.1, ih one.2 rest⟩

/-- The size and the bytes are in place when the page of the copy has no other use in the source's
address space. -/
theorem copyInitrd_holds
    (copied : copyInitrd data size arg userSharedSpaceStart userSharedSpaceEnd pd memory = .ok (after, stackArg))
    (maps : frameOf (pd sharedIndex) = some frame) (fits : size.toNat + 4 ≤ 4194304)
    (length : bytes.length = size.toNat) (source : Holds other memory data bytes)
    (agrees : ∀ index < 1024, present (other index) = true → pd index = other index)
    (apart : ∀ index < 1024, frameOf (other index) ≠ some frame) :
    Holds pd after userSharedSpaceStart (wordBytes size ++ bytes) ∧ stackArg = userSharedSpaceStart := by
  obtain ⟨_, _, rest⟩ := bind_eq_ok.mp copied
  obtain ⟨middle, written, rest⟩ := bind_eq_ok.mp rest
  obtain ⟨last, moved, done⟩ := bind_eq_ok.mp rest
  obtain ⟨rfl, rfl⟩ := Prod.mk.inj (pure_eq_ok.mp done)
  have page : pageIndex4M userSharedSpaceStart = sharedIndex := by decide
  have offset : userSharedSpaceStart.toNat % 4194304 = 0 := by decide
  have dataPage : pageIndex4M (userSharedSpaceStart + 4) = sharedIndex := by decide
  have dataOffset : (userSharedSpaceStart + 4).toNat % 4194304 = 4 := by decide
  have inside : userSharedSpaceStart.toNat % 4194304 + (wordBytes size).length ≤ 4194304 := by
    rw [offset, wordBytes_length]
    decide
  have dataInside : (userSharedSpaceStart + 4).toNat % 4194304 + size.toNat ≤ 4194304 := by omega
  have word := writeBytes_holds written (by rw [page]; exact maps) inside
  have outside {address : Nat} := @writeBytes_outside pd memory middle (wordBytes size) frame userSharedSpaceStart written
    (by rw [page]; exact maps) inside address
  have sourceKept : Holds other middle data bytes := by
    refine source.kept (fun _ _ _ => rfl) ?_
    intro index bound found mapped address inFrame
    have different : found ≠ frame := by
      rintro rfl
      exact apart index bound mapped
    refine outside ?_
    rw [offset, wordBytes_length]
    omega
  refine ⟨Holds.append ?_ ?_, rfl⟩
  · refine holds_page (by rw [page]; exact maps) inside ?_
    intro i below
    rw [memcpyVirtual_outside moved (by rw [dataPage]; exact maps) dataInside _ ?_]
    · exact word.byte (by rw [page]; exact maps) inside below
    · rw [wordBytes_length] at below
      omega
  · rw [wordBytes_length]
    change Holds pd last (userSharedSpaceStart + 4) bytes
    exact memcpyVirtual_holds moved (by rw [dataPage]; exact maps) dataInside length sourceKept agrees apart

end Copying

section Main

variable {kernel after : Kernel} {call : Call}

theorem Created.main {slot : Nat} (created : Created kernel after slot) (owned : Owned kernel)
    (main : kernel.owner mainKernelTask = some (.kernel, false)) :
    after.owner mainKernelTask = some (.kernel, false) := by
  have old : mainKernelTask ≠ kernel.nextTid := Nat.ne_of_lt (owned.known _ _ main)
  rw [created.owner, if_neg old]
  exact main

theorem perform_main (owned : Owned kernel) (enabled : kernel.Enabled call)
    (performed : kernel.perform call = .ok after) (main : kernel.owner mainKernelTask = some (.kernel, false)) :
    after.owner mainKernelTask = some (.kernel, false) := by
  cases call with
  | createUserTask caller entry codesize arg entryOffset growth =>
      obtain ⟨⟨new, handle⟩, run, done⟩ := bind_eq_ok.mp performed
      obtain rfl := pure_eq_ok.mp done
      obtain ⟨_, slot, created⟩ := userTask_edits run
      exact Created.main created owned main
  | kernelJumpToUserEntry vfsData vfsSize arg growth =>
      obtain ⟨⟨new, handle⟩, run, done⟩ := bind_eq_ok.mp performed
      obtain rfl := pure_eq_ok.mp done
      obtain ⟨_, slot, created⟩ := userTask_edits run
      exact Created.main created owned main
  | destroyUserTask handle =>
      obtain ⟨slot, destroyed, _⟩ := destroyUserTask_edit owned performed
      have different : mainKernelTask ≠ handle := by
        rintro rfl
        have both := main.symm.trans destroyed.owned
        cases both
      rw [destroyed.owner, if_neg different]
      exact main
  | exit caller =>
      rw [(exitThisTask_eq performed).2.2]
      exact main
  | mapPage caller vaddr =>
      obtain ⟨⟨new, result⟩, run, done⟩ := bind_eq_ok.mp performed
      obtain rfl := pure_eq_ok.mp done
      rw [(mapPage_edit owned enabled run).1.owner]
      exact main
  | unmapPage caller vaddr =>
      rw [(unmapPage_edit owned enabled performed).1.owner]
      exact main
  | sharePage caller handle src =>
      obtain ⟨⟨new, dst⟩, run, done⟩ := bind_eq_ok.mp performed
      obtain rfl := pure_eq_ok.mp done
      rw [(sharePage_edit owned enabled run).1.owner]
      exact main
  | growHeap bytes =>
      rw [(growHeap_edits performed).2.owner]
      exact main

theorem reachable_main {Condition : Kernel → Call → Prop} (reachable : (runs Condition).Reachable kernel) :
    kernel.owner mainKernelTask = some (.kernel, false) := by
  refine (reachable.invariant
    (fun state => Owned state ∧ state.owner mainKernelTask = some (.kernel, false)) ?_ ?_).2
  · rintro state ⟨highMemKB, slots, memory, scheduler, initrd, run⟩
    exact ⟨(kernelSetup_edits run).1, kernelSetup_main run⟩
  · rintro state call after ⟨owned, main⟩ ⟨enabled, _, performed⟩
    exact ⟨(perform_cases owned enabled performed).1, perform_main owned enabled performed main⟩

end Main

section Entry

variable {kernel after : Kernel} {data size arg : UInt32} {growth : Growth} {child : Nat} {bytes : List UInt8}

theorem userTask_handle {caller : Nat} {func codesize entryOffset : UInt32} {copyfunc : CopyArgFunc}
    (run : userTask caller func codesize arg copyfunc entryOffset growth kernel = .ok (after, child)) :
    child = kernel.nextTid := by
  obtain ⟨current, _, rest⟩ := bind_eq_ok.mp run
  obtain ⟨first, allocated, rest⟩ := bind_eq_ok.mp rest
  obtain ⟨⟨paging, slot⟩, _, rest⟩ := bind_eq_ok.mp rest
  obtain ⟨second, _, rest⟩ := bind_eq_ok.mp rest
  obtain ⟨third, _, rest⟩ := bind_eq_ok.mp rest
  obtain ⟨fourth, _, rest⟩ := bind_eq_ok.mp rest
  obtain ⟨fifth, _, rest⟩ := bind_eq_ok.mp rest
  obtain ⟨sixth, _, rest⟩ := bind_eq_ok.mp rest
  obtain ⟨seventh, _, done⟩ := bind_eq_ok.mp rest
  obtain ⟨_, rfl⟩ := Prod.mk.inj (pure_eq_ok.mp done)
  exact (kmalloc_edits _ allocated).2.nextTid

theorem InitrdPlaced.fits {pd : PageDirectory} {memory : Memory} (placed : InitrdPlaced pd memory size bytes)
    (length : bytes.length = size.toNat) : size.toNat + 28 ≤ 4194304 := by
  by_contra larger
  have lowest : userSharedSpaceStart.toNat + 4194280 = (userSharedSpaceEnd - 24).toNat + 0 := by decide
  exact placed.apart 4194280 (by omega) (userSharedSpaceEnd - 24, userStart + 0) (by simp [initialStack]) 0
    (by decide) lowest

theorem initialStack_apart (fits : 4 + bytes.length ≤ 4194280) :
    ∀ i < 4 + bytes.length, ∀ entry ∈ initialStack userSharedSpaceStart 0, ∀ j < 4,
      userSharedSpaceStart.toNat + i ≠ entry.1.toNat + j := by
  intro i below entry member j _ same
  obtain ⟨page, _, high⟩ := initialStack_places entry member
  have start : userSharedSpaceStart.toNat = 3 * 4194304 := by decide
  have index : pageIndex4M userSharedSpaceStart = 3 := by decide
  rw [index, pageIndex4M_eq] at page
  omega

theorem Constructed.lower {task : Task} {slot frame codeFrame low : Nat} {entryOffset stackArg : UInt32}
    {copyfunc : CopyArgFunc} {pd : PageDirectory} {middle : Memory}
    (built : Constructed kernel after task child slot frame codeFrame low arg entryOffset copyfunc pd middle stackArg)
    (maps : frameOf (pd sharedIndex) = some frame) (holds : Holds pd middle userSharedSpaceStart bytes)
    (fits : bytes.length ≤ 4194280) :
    Holds (after.paging.pageDirs (.region slot)) after.memory userSharedSpaceStart bytes := by
  have page : pageIndex4M userSharedSpaceStart = sharedIndex := by decide
  have offset : userSharedSpaceStart.toNat % 4194304 = 0 := by decide
  have different := built.different
  refine holds_page (by rw [page]; exact built.maps.2.2) (by omega) ?_
  intro i below
  rw [built.kept _ (by omega) (by omega)]
  exact holds.byte (by rw [page]; exact maps) (by omega) below

/-- The first user task finds the initrd and its own stack in place exactly when the page has room for
both. The check of the copy function leaves 24 bytes too few. -/
theorem initrdPlaced_iff (reachable : (runs SharesUserFrames).Reachable kernel)
    (source : Holds (kernel.paging.pageDirs .kernel) kernel.memory data bytes) (length : bytes.length = size.toNat)
    (run : kernel.kernelJumpToUserEntry data size arg growth = .ok (after, child)) :
    ∃ new, after.tasks child = some new ∧
      (InitrdPlaced (after.paging.pageDirs new.pageDirectory) after.memory size bytes ↔
        size.toNat + 28 ≤ 4194304) := by
  obtain ⟨owned, tidy⟩ := reachable_tidy reachable
  have main := reachable_main reachable
  have unclaimed := (reachable_hidden reachable).2.unclaimed
  by_cases small : size.toNat ≤ 4194304
  · obtain ⟨task, slot, frame, codeFrame, pd, middle, stackArg, found, built⟩ :=
      userTask_spec owned tidy (reachable_kernelMapped reachable) unclaimed (Nat.le_refl 1) small run
    obtain ⟨new, isChild, uses⟩ := built.child
    refine ⟨new, isChild, fun placed => placed.fits length, ?_⟩
    intro fits
    have isMain : task.pageDirectory = .kernel := by
      rw [owner_of found] at main
      exact (Prod.mk.inj (Option.some.inj main)).1
    have maps := built.shares isMain
    have kernelLive := kernel_mem_live kernel.paging
    have agrees := built.keeps
    rw [isMain] at agrees
    obtain ⟨holds, rfl⟩ := copyInitrd_holds built.copied maps (by omega) length source agrees
      (built.unmapped .kernel kernelLive)
    have total : (wordBytes size ++ bytes).length ≤ 4194280 := by
      rw [List.length_append, wordBytes_length]
      omega
    rw [uses]
    exact ⟨Constructed.lower built maps holds total, built.stack, initialStack_apart (by omega)⟩
  · obtain ⟨_, slot, created⟩ := userTask_edits run
    have owner := created.owner child
    rw [userTask_handle run, if_pos rfl] at owner
    obtain ⟨new, isChild, _⟩ := Option.map_eq_some_iff.mp owner
    refine ⟨new, by rw [userTask_handle run]; exact isChild, fun placed => placed.fits length, ?_⟩
    omega

end Entry

/-! Whether a construction succeeds does not depend on the contents of memory, and for an initrd that starts
a page not on its size as long as it stays in the page. -/

section Again

variable {kernel after : Kernel} {pd : PageDirectory} {memory written : Memory} {vaddr src dst size arg data : UInt32}
  {task current : PageDirPtr} {slot : Nat}

theorem kmalloc_again (requests : List UInt32) (memory : Memory) (run : kmalloc requests kernel = .ok after) :
    kmalloc requests { kernel with memory } = .ok { after with memory } := by
  induction requests generalizing kernel with
  | nil =>
      obtain rfl := pure_eq_ok.mp run
      rfl
  | cons bytes rest ih =>
      obtain ⟨middle, grown, later⟩ := bind_eq_ok.mp run
      obtain ⟨⟨paging, top⟩, extended, done⟩ := bind_eq_ok.mp grown
      cases top with
      | none => cases done
      | some heap =>
          obtain rfl := pure_eq_ok.mp done
          refine bind_eq_ok.mpr ⟨_, bind_eq_ok.mpr ⟨_, extended, rfl⟩, ih later⟩

theorem writeBytes_again {bytes other : List UInt8} (same : other.length = bytes.length) (memory' : Memory)
    (run : writeBytes pd vaddr bytes memory = .ok written) : ∃ last, writeBytes pd vaddr other memory' = .ok last := by
  induction bytes generalizing vaddr memory other memory' with
  | nil =>
      obtain rfl := List.length_eq_zero_iff.mp same
      exact ⟨memory', rfl⟩
  | cons byte rest ih =>
      obtain ⟨first, later, rfl⟩ := List.exists_cons_of_length_eq_add_one same
      obtain ⟨target, translated, more⟩ := bind_eq_ok.mp run
      obtain ⟨last, done⟩ := ih (Nat.succ.inj same) (store memory' target first) more
      exact ⟨last, bind_eq_ok.mpr ⟨target, translated, done⟩⟩

/-- A copy from the start of a page on works for every size when it works for one byte. -/
theorem memcpyVirtual_again (aligned : src.toNat % 4194304 = 0) (fits : dst.toNat % 4194304 + size.toNat ≤ 4194304)
    (memory' : Memory) (run : memcpyVirtual pd dst src (1 : UInt32).toNat memory = .ok written) :
    ∃ last, memcpyVirtual pd dst src size.toNat memory' = .ok last := by
  obtain ⟨sources, targets⟩ := memcpyVirtual_present run
  have source := sources 0 (by decide)
  have target := targets 0 (by decide)
  rw [first_byte] at source target
  refine ⟨_, memcpyVirtual_moves ?_ ?_⟩
  · intro i below
    rw [byte_index (by omega)]
    exact source
  · intro i below
    rw [byte_index (by omega)]
    exact target

theorem copyInitrd_again (aligned : data.toNat % 4194304 = 0) (fits : size.toNat + 4 ≤ 4194304) (memory' : Memory)
    {stackArg : UInt32}
    (run : copyInitrd data 1 arg userSharedSpaceStart userSharedSpaceEnd pd memory = .ok (written, stackArg)) :
    ∃ last, copyInitrd data size arg userSharedSpaceStart userSharedSpaceEnd pd memory' = .ok (last, stackArg) := by
  obtain ⟨_, _, rest⟩ := bind_eq_ok.mp run
  obtain ⟨middle, word, rest⟩ := bind_eq_ok.mp rest
  obtain ⟨last, moved, done⟩ := bind_eq_ok.mp rest
  obtain ⟨_, rfl⟩ := Prod.mk.inj (pure_eq_ok.mp done)
  obtain ⟨first, wordAgain⟩ := writeBytes_again
    (show (wordBytes size).length = (wordBytes 1).length by rw [wordBytes_length, wordBytes_length]) memory' word
  have offset : (userSharedSpaceStart + 4).toNat % 4194304 = 4 := by decide
  have inside : (userSharedSpaceStart + 4).toNat % 4194304 + size.toNat ≤ 4194304 := by omega
  obtain ⟨second, movedAgain⟩ := memcpyVirtual_again aligned inside first moved
  have room : size + 4 ≤ userSharedSpaceEnd - userSharedSpaceStart := by
    have space : (userSharedSpaceEnd - userSharedSpaceStart).toNat = 4194304 := by decide
    have four : (4 : UInt32).toNat = 4 := by decide
    rw [UInt32.le_iff_toNat_le, UInt32.toNat_add, space, four]
    omega
  exact ⟨second, bind_eq_ok.mpr ⟨(), require_eq_ok.mpr room, bind_eq_ok.mpr ⟨first, wordAgain,
    bind_eq_ok.mpr ⟨second, movedAgain, rfl⟩⟩⟩⟩

theorem taskMemcpy_again {copy other : UInt32 → PageDirectory → Memory → Except Fault Memory} (memory' : Memory)
    (again : ∀ pd written, copy (tmpSharedTaskMemStart + vaddr % kPageSize4M) pd kernel.memory = .ok written →
      ∃ last, other (tmpSharedTaskMemStart + vaddr % kPageSize4M) pd memory' = .ok last)
    (run : taskMemcpy task current vaddr copy kernel = .ok after) :
    ∃ last, taskMemcpy task current vaddr other { kernel with memory := memory' } =
      .ok { after with memory := last } := by
  obtain ⟨paddr, found, rest⟩ := bind_eq_ok.mp run
  obtain ⟨first, added, rest⟩ := bind_eq_ok.mp rest
  obtain ⟨written, copied, rest⟩ := bind_eq_ok.mp rest
  obtain ⟨second, removed, done⟩ := bind_eq_ok.mp rest
  obtain rfl := pure_eq_ok.mp done
  obtain ⟨last, copiedAgain⟩ := again _ _ copied
  exact ⟨last, bind_eq_ok.mpr ⟨paddr, found, bind_eq_ok.mpr ⟨first, added,
    bind_eq_ok.mpr ⟨last, copiedAgain, bind_eq_ok.mpr ⟨second, removed, rfl⟩⟩⟩⟩⟩

theorem writeWord_again {word : UInt32} (memory' : Memory) (run : writeWord task current dst word kernel = .ok after) :
    ∃ last, writeWord task current dst word { kernel with memory := memory' } = .ok { after with memory := last } :=
  taskMemcpy_again memory' (fun _ _ => writeBytes_again rfl memory') run

theorem writeStack_again (words : List (UInt32 × UInt32)) (memory' : Memory)
    (run : writeStack task current words kernel = .ok after) :
    ∃ last, writeStack task current words { kernel with memory := memory' } = .ok { after with memory := last } := by
  induction words generalizing kernel memory' with
  | nil =>
      obtain rfl := pure_eq_ok.mp run
      exact ⟨memory', rfl⟩
  | cons entry rest ih =>
      obtain ⟨middle, wrote, later⟩ := bind_eq_ok.mp run
      obtain ⟨first, wroteAgain⟩ := writeWord_again memory' wrote
      obtain ⟨last, laterAgain⟩ := ih first later
      exact ⟨last, bind_eq_ok.mpr ⟨_, wroteAgain, laterAgain⟩⟩

theorem setupSharedSpace_again {entryOffset : UInt32} {copyfunc other : CopyArgFunc} (memory' : Memory)
    (again : ∀ pd written stackArg,
      copyfunc arg userSharedSpaceStart userSharedSpaceEnd pd kernel.memory = .ok (written, stackArg) →
      ∃ last, other arg userSharedSpaceStart userSharedSpaceEnd pd memory' = .ok (last, stackArg))
    (run : setupSharedSpace slot current arg entryOffset copyfunc kernel = .ok after) :
    ∃ last, setupSharedSpace slot current arg entryOffset other { kernel with memory := memory' } =
      .ok { after with memory := last } := by
  obtain ⟨paddr, found, rest⟩ := bind_eq_ok.mp run
  obtain ⟨_, free, rest⟩ := bind_eq_ok.mp rest
  obtain ⟨first, added, rest⟩ := bind_eq_ok.mp rest
  obtain ⟨second, doubled, rest⟩ := bind_eq_ok.mp rest
  obtain ⟨⟨middle, stackArg⟩, copied, rest⟩ := bind_eq_ok.mp rest
  obtain ⟨pushed, stacked, rest⟩ := bind_eq_ok.mp rest
  obtain ⟨third, removed, done⟩ := bind_eq_ok.mp rest
  obtain rfl := pure_eq_ok.mp done
  obtain ⟨copy, copiedAgain⟩ := again _ _ _ copied
  obtain ⟨last, stackedAgain⟩ := writeStack_again _ copy stacked
  exact ⟨last, bind_eq_ok.mpr ⟨paddr, found, bind_eq_ok.mpr ⟨(), free, bind_eq_ok.mpr ⟨first, added,
    bind_eq_ok.mpr ⟨second, doubled, bind_eq_ok.mpr ⟨(copy, stackArg), copiedAgain,
      bind_eq_ok.mpr ⟨_, stackedAgain, bind_eq_ok.mpr ⟨third, removed, rfl⟩⟩⟩⟩⟩⟩⟩⟩

theorem write_again (aligned : data.toNat % 4194304 = 0) (start : dst.toNat % 4194304 = 0) (positive : size ≠ 0)
    (fits : size.toNat ≤ 4194304) (memory' : Memory) (run : write task current dst data 1 kernel = .ok after) :
    ∃ last, write task current dst data size { kernel with memory := memory' } = .ok { after with memory := last } := by
  rw [write, if_neg (by decide)] at run
  rw [write, if_neg positive]
  obtain ⟨_, offset⟩ := window_address dst
  have inside : (tmpSharedTaskMemStart + dst % kPageSize4M).toNat % 4194304 + size.toNat ≤ 4194304 := by omega
  exact taskMemcpy_again memory' (fun _ _ => memcpyVirtual_again aligned inside memory') run

theorem setupCode_again (aligned : data.toNat % 4194304 = 0) (positive : size ≠ 0) (fits : size.toNat ≤ 4194304)
    (memory' : Memory) (run : setupCode slot current data 1 kernel = .ok after) :
    ∃ last, setupCode slot current data size { kernel with memory := memory' } = .ok { after with memory := last } := by
  obtain ⟨paddr, found, rest⟩ := bind_eq_ok.mp run
  obtain ⟨first, added, rest⟩ := bind_eq_ok.mp rest
  obtain ⟨mapped, translated, rest⟩ := bind_eq_ok.mp rest
  obtain ⟨_, same, copied⟩ := bind_eq_ok.mp rest
  obtain ⟨last, copiedAgain⟩ := write_again aligned (by decide) positive fits memory' copied
  exact ⟨last, bind_eq_ok.mpr ⟨paddr, found, bind_eq_ok.mpr ⟨first, added,
    bind_eq_ok.mpr ⟨mapped, translated, bind_eq_ok.mpr ⟨(), same, copiedAgain⟩⟩⟩⟩⟩

theorem kernelJumpToUserEntry_again {growth : Growth} {child : Nat} (aligned : data.toNat % 4194304 = 0)
    (positive : size ≠ 0) (fits : size.toNat + 4 ≤ 4194304)
    (run : kernel.kernelJumpToUserEntry data 1 arg growth = .ok (after, child)) :
    ∃ last, kernel.kernelJumpToUserEntry data size arg growth = .ok ({ after with memory := last }, child) := by
  obtain ⟨task, first, paging, slot, second, third, fourth, fifth, sixth, found, allocated, cloned, linked,
    childMalloc, stackMalloc, shared, nodeMalloc, code, rfl⟩ := userTask_eq_ok.mp run
  obtain ⟨initrd, sharedAgain⟩ := setupSharedSpace_again fourth.memory
    (fun pd written stackArg => copyInitrd_again aligned fits fourth.memory) shared
  have nodeAgain := kmalloc_again growth.node initrd nodeMalloc
  obtain ⟨last, codeAgain⟩ := setupCode_again aligned positive (by omega) initrd code
  exact ⟨last, userTask_eq_ok.mpr ⟨task, first, paging, slot, second, third, fourth, _, _, found, allocated, cloned,
    linked, childMalloc, stackMalloc, sharedAgain, nodeAgain, codeAgain, rfl⟩⟩

end Again

theorem exists_holds {pd : PageDirectory} {memory : Memory} {vaddr : UInt32} {frame : Nat}
    (maps : frameOf (pd (pageIndex4M vaddr)) = some frame) (size : Nat)
    (inside : vaddr.toNat % 4194304 + size ≤ 4194304) :
    ∃ bytes, bytes.length = size ∧ Holds pd memory vaddr bytes ∧
      ∀ i (below : i < bytes.length), bytes[i] = memory (frame * 4194304 + vaddr.toNat % 4194304 + i) := by
  have length : ((List.range size).map fun i =>
      memory (frame * 4194304 + vaddr.toNat % 4194304 + i)).length = size := by
    rw [List.length_map, List.length_range]
  refine ⟨_, length, holds_page maps (by omega) ?_, ?_⟩
  · intro i below
    rw [List.getElem_map, List.getElem_range]
  · intro i below
    rw [List.getElem_map, List.getElem_range]

/-- The initial stack holds the address of the page, so an initrd that reaches up to it agrees with that. -/
theorem InitrdPlaced.top {pd : PageDirectory} {memory : Memory} {size : UInt32} {bytes : List UInt8}
    (placed : InitrdPlaced pd memory size bytes) (total : 4 + bytes.length ≤ 4194304) {i : Nat}
    (last : 4 + i = 4194302) (below : i < bytes.length) : bytes[i] = 0xC0 := by
  obtain ⟨⟨_, translated, _⟩, _⟩ := id placed.data
  obtain ⟨frame, maps, _⟩ := translate_eq_ok.mp translated
  have offset : userSharedSpaceStart.toNat % 4194304 = 0 := by decide
  have topPage : pageIndex4M (userSharedSpaceEnd - 4) = pageIndex4M userSharedSpaceStart := by decide
  have topOffset : (userSharedSpaceEnd - 4).toNat % 4194304 = 4194300 := by decide
  have whole : (wordBytes size ++ bytes).length = 4 + bytes.length := by rw [List.length_append, wordBytes_length]
  have inWhole : 4 + i < (wordBytes size ++ bytes).length := by omega
  have fits : userSharedSpaceStart.toNat % 4194304 + (wordBytes size ++ bytes).length ≤ 4194304 := by omega
  have byte := placed.data.byte maps fits inWhole
  have word := (placed.stack (userSharedSpaceEnd - 4, userSharedSpaceStart) List.mem_cons_self).byte
    (by rw [topPage]; exact maps) (by rw [topOffset, wordBytes_length])
    (show 2 < (wordBytes userSharedSpaceStart).length by decide)
  have same : frame * 4194304 + userSharedSpaceStart.toNat % 4194304 + (4 + i) =
      frame * 4194304 + (userSharedSpaceEnd - 4).toNat % 4194304 + 2 := by omega
  have right : (wordBytes size).length ≤ 4 + i := by rw [wordBytes_length]; omega
  rw [List.getElem_append_right right, same, word] at byte
  have index : 4 + i - (wordBytes size).length = i := by rw [wordBytes_length]; omega
  simp only [index] at byte
  rw [← byte]
  decide

theorem initrdPlaced_iff_small : ∃ kernel after new bytes, (runs SharesUserFrames).Reachable kernel ∧
    kernel.kernelJumpToUserEntry kernHeapBegin 8 0 noGrowth = .ok (after, 1) ∧ after.tasks 1 = some new ∧
      InitrdPlaced (after.paging.pageDirs new.pageDirectory) after.memory 8 bytes := by
  have passed : replayTest SharesUserFrames [] (fun kernel =>
      (readBytes (kernel.paging.pageDirs .kernel) kernel.memory kernHeapBegin 8).toOption.any (fun _ => true) &&
        (kernel.kernelJumpToUserEntry kernHeapBegin 8 0 noGrowth).toOption.any fun result =>
          decide (result.2 = 1)) = true := by
    decide +kernel
  obtain ⟨kernel, reachable, tested⟩ := replayTest_reachable _ _ passed
  obtain ⟨reads, runs⟩ := (Bool.and_eq_true _ _).mp tested
  obtain ⟨bytes, read, _⟩ := toOption_any.mp reads
  obtain ⟨length, source⟩ := readBytes_holds read
  obtain ⟨⟨after, child⟩, run, isFirst⟩ := toOption_any.mp runs
  obtain rfl := of_decide_eq_true isFirst
  obtain ⟨new, isChild, placed⟩ := @initrdPlaced_iff kernel after kernHeapBegin 8 0 noGrowth 1 bytes reachable
    source length run
  exact ⟨kernel, after, new, bytes, reachable, run, isChild, placed.mpr (by decide)⟩

/-- An initrd of 4194300 bytes passes the check. Its byte under the address on top of the initial stack
cannot survive. -/
theorem initrd_overwritten :
    ¬∀ kernel after data size arg growth child bytes, (runs fun _ _ => True).Reachable kernel →
      Holds (kernel.paging.pageDirs .kernel) kernel.memory data bytes → bytes.length = size.toNat →
      kernel.kernelJumpToUserEntry data size arg growth = .ok (after, child) →
      ∃ new, after.tasks child = some new ∧
        InitrdPlaced (after.paging.pageDirs new.pageDirectory) after.memory size bytes := by
  intro placed
  have passed : replayTest (fun _ _ => True) [] (fun kernel =>
      (kernel.kernelJumpToUserEntry kernHeapBegin 1 0 noGrowth).toOption.any (fun _ => true) &&
        (frameOf (kernel.paging.pageDirs .kernel (pageIndex4M kernHeapBegin))).any fun frame =>
          decide (kernel.memory (frame * 4194304 + 4194298) = 0)) = true := by
    decide +kernel
  obtain ⟨kernel, reachable, tested⟩ := replayTest_reachable _ _ passed
  obtain ⟨runs, zero⟩ := (Bool.and_eq_true _ _).mp tested
  obtain ⟨_, run, _⟩ := toOption_any.mp runs
  obtain ⟨frame, maps, isZero⟩ := (Option.any_eq_true _ _).mp zero
  rw [decide_eq_true_eq] at isZero
  obtain ⟨bytes, length, source, same⟩ := @exists_holds _ kernel.memory _ _ maps 4194300 (by decide)
  have size : (4194300 : UInt32).toNat = 4194300 := by decide
  obtain ⟨last, again⟩ := kernelJumpToUserEntry_again (by decide) (show (4194300 : UInt32) ≠ 0 by decide)
    (by rw [size]) run
  obtain ⟨new, _, isPlaced⟩ := placed kernel _ kernHeapBegin 4194300 0 noGrowth _ bytes reachable source
    (length.trans size.symm) again
  have inside : 4194298 < bytes.length := by omega
  have top := isPlaced.top (by omega) (show 4 + 4194298 = 4194302 by omega) inside
  have start : kernHeapBegin.toNat % 4194304 = 0 := by decide
  have place : frame * 4194304 + kernHeapBegin.toNat % 4194304 + 4194298 = frame * 4194304 + 4194298 := by omega
  rw [same 4194298 inside, place, isZero] at top
  exact absurd top (by decide)

end Kernel

end ToyKernel
