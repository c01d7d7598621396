import ToyKernel.Kernel.Copies
import ToyKernel.Kernel.Pages
import ToyKernel.Library.Moves

/-!
Copies between the current task and another one, `Task::Write` and `Task::Read` of `kernel/task.cpp`.
The other task's memory is reached through one temporary page of the current page directory, so the
bytes behind that page decide what a longer copy does.
-/

namespace ToyKernel

open Library Paging

def tmpSharedTaskMemEnd : UInt32 := 0x1800000

namespace Kernel

inductive Direction
  | currentToOther | otherToCurrent
deriving DecidableEq, Repr

namespace Direction

def source (task current : PageDirPtr) : Direction → PageDirPtr
  | .currentToOther => current
  | .otherToCurrent => task

def target (task current : PageDirPtr) : Direction → PageDirPtr
  | .currentToOther => task
  | .otherToCurrent => current

def taskVaddr (dst src : UInt32) : Direction → UInt32
  | .currentToOther => dst
  | .otherToCurrent => src

def ownVaddr (dst src : UInt32) : Direction → UInt32
  | .currentToOther => src
  | .otherToCurrent => dst

def adjSrc (src shared : UInt32) : Direction → UInt32
  | .currentToOther => src
  | .otherToCurrent => shared

def adjDst (dst shared : UInt32) : Direction → UInt32
  | .currentToOther => shared
  | .otherToCurrent => dst

end Direction

/-- The template `TaskMemcpy` for two different tasks, given by their page directories. -/
def transfer (direction : Direction) (task current : PageDirPtr) (dst src size : UInt32) (kernel : Kernel) :
    Except Fault Kernel :=
  if size = 0 then pure kernel
  else taskMemcpy task current (direction.taskVaddr dst src) (fun shared pd =>
    memcpyVirtual pd (direction.adjDst dst shared) (direction.adjSrc src shared) size.toNat) kernel

def read (task current : PageDirPtr) (dst src size : UInt32) (kernel : Kernel) : Except Fault Kernel :=
  transfer .otherToCurrent task current dst src size kernel

def copyFromTask (caller handle : Nat) (dst src size : UInt32) (kernel : Kernel) : Except Fault Kernel := do
  let task ← kernel.getTask handle
  require (task.isUserTask = true) .notUserTask
  let current ← kernel.getTask caller
  if handle = caller then
    let memory ← memcpyVirtual (kernel.paging.pageDirs current.pageDirectory) dst src size.toNat kernel.memory
    return { kernel with memory }
  else kernel.read task.pageDirectory current.pageDirectory dst src size

instance : Nontrivial UInt8 := ⟨0, 1, by decide⟩

def place (pd : PageDirectory) (vaddr : UInt32) : Nat :=
  pageIndex4M (pd (pageIndex4M vaddr)) * 4194304 + vaddr.toNat % 4194304

section Places

variable {pd other : PageDirectory} {memory after : Memory} {dst src vaddr : UInt32} {size : Nat}

theorem translate_place (isPresent : present (pd (pageIndex4M vaddr)) = true) :
    translate pd vaddr = .ok (place pd vaddr) :=
  translate_eq_ok.mpr ⟨_, frameOf_eq_some.mpr ⟨isPresent, rfl⟩, rfl⟩

theorem translate_eq_place {address : Nat} (translated : translate pd vaddr = .ok address) :
    present (pd (pageIndex4M vaddr)) = true ∧ address = place pd vaddr := by
  obtain ⟨frame, maps, rfl⟩ := translate_eq_ok.mp translated
  obtain ⟨isPresent, rfl⟩ := frameOf_eq_some.mp maps
  exact ⟨isPresent, rfl⟩

theorem place_mod (pd : PageDirectory) (vaddr : UInt32) : place pd vaddr % 4194304 = vaddr.toNat % 4194304 := by
  unfold place
  omega

theorem place_div (pd : PageDirectory) (vaddr : UInt32) :
    place pd vaddr / 4194304 = pageIndex4M (pd (pageIndex4M vaddr)) := by
  unfold place
  omega

theorem place_congr {first second : UInt32}
    (frames : frameOf (pd (pageIndex4M first)) = frameOf (other (pageIndex4M second)))
    (isPresent : present (other (pageIndex4M second)) = true)
    (offset : first.toNat % 4194304 = second.toNat % 4194304) :
    present (pd (pageIndex4M first)) = true ∧ place pd first = place other second := by
  rw [frameOf_eq_some.mpr ⟨isPresent, rfl⟩] at frames
  obtain ⟨firstPresent, same⟩ := frameOf_eq_some.mp frames
  exact ⟨firstPresent, by rw [place, place, offset, same]⟩

theorem frameOf_of_place {first second : UInt32} (firstPresent : present (pd (pageIndex4M first)) = true)
    (secondPresent : present (other (pageIndex4M second)) = true)
    (same : place pd first = place other second) :
    frameOf (pd (pageIndex4M first)) = frameOf (other (pageIndex4M second)) := by
  have frames := congrArg (· / 4194304) same
  simp only [place_div] at frames
  rw [frameOf_eq_some.mpr ⟨firstPresent, rfl⟩, frameOf_eq_some.mpr ⟨secondPresent, rfl⟩, frames]

theorem first_byte (vaddr : UInt32) : vaddr + UInt32.ofNat 0 = vaddr := UInt32.add_zero vaddr

theorem succ_byte (vaddr : UInt32) (i : Nat) : vaddr + 1 + UInt32.ofNat i = vaddr + UInt32.ofNat (i + 1) := by
  rw [UInt32.ofNat_add, UInt32.add_assoc, UInt32.add_comm 1]
  rfl

theorem byte_mod (vaddr : UInt32) (i : Nat) :
    (vaddr + UInt32.ofNat i).toNat % 4194304 = (vaddr.toNat + i) % 4194304 := by
  have value : (UInt32.ofNat i).toNat = i % 4294967296 := UInt32.toNat_ofNat'
  have sum : (vaddr + UInt32.ofNat i).toNat = (vaddr.toNat + i % 4294967296) % 4294967296 := by
    rw [UInt32.toNat_add, value]
  omega

theorem store_eq_update (memory : Memory) (address : Nat) (byte : UInt8) :
    store memory address byte = Function.update memory address byte := by
  funext query
  rw [store, Function.update_apply]

theorem memcpyVirtual_moves
    (sources : ∀ i < size, present (pd (pageIndex4M (src + UInt32.ofNat i))) = true)
    (targets : ∀ i < size, present (pd (pageIndex4M (dst + UInt32.ofNat i))) = true) :
    memcpyVirtual pd dst src size memory = .ok (moves (fun i => place pd (src + UInt32.ofNat i))
      (fun i => place pd (dst + UInt32.ofNat i)) size memory) := by
  induction size generalizing dst src memory with
  | zero => rfl
  | succ size ih =>
      have firstSource := translate_place (sources 0 (by omega))
      have firstTarget := translate_place (targets 0 (by omega))
      rw [first_byte] at firstSource firstTarget
      have rest := @ih (store memory (place pd dst) (memory (place pd src))) (dst + 1) (src + 1)
        (by intro i below; rw [succ_byte]; exact sources (i + 1) (by omega))
        (by intro i below; rw [succ_byte]; exact targets (i + 1) (by omega))
      have split := moves_first (fun i => place pd (src + UInt32.ofNat i))
        (fun i => place pd (dst + UInt32.ofNat i)) size memory
      simp only [succ_byte, store_eq_update] at rest
      simp only [first_byte] at split
      rw [memcpyVirtual, firstSource, ok_bind, firstTarget, ok_bind, store_eq_update, rest, split]

theorem memcpyVirtual_present (copied : memcpyVirtual pd dst src size memory = .ok after) :
    (∀ i < size, present (pd (pageIndex4M (src + UInt32.ofNat i))) = true) ∧
      ∀ i < size, present (pd (pageIndex4M (dst + UInt32.ofNat i))) = true := by
  induction size generalizing dst src memory with
  | zero => exact ⟨by omega, by omega⟩
  | succ size ih =>
      obtain ⟨source, fromSource, rest⟩ := bind_eq_ok.mp copied
      obtain ⟨target, toTarget, later⟩ := bind_eq_ok.mp rest
      obtain ⟨sources, targets⟩ := ih later
      refine ⟨?_, ?_⟩
      · rintro (_ | i) below
        · rw [first_byte]
          exact (translate_eq_place fromSource).1
        · rw [← succ_byte]
          exact sources i (by omega)
      · rintro (_ | i) below
        · rw [first_byte]
          exact (translate_eq_place toTarget).1
        · rw [← succ_byte]
          exact targets i (by omega)

end Places

def window (kernel : Kernel) (task current : PageDirPtr) (vaddr : UInt32) : PageDirectory := fun index =>
  if index = pageIndex4M tmpSharedTaskMemStart then
    pageEntry (kernel.paging.pageDirs task (pageIndex4M vaddr) &&& kPageMask4M) 0
  else kernel.paging.pageDirs current index

structure CanLend (kernel : Kernel) (task current : PageDirPtr) (vaddr : UInt32) : Prop where
  free : kernel.paging.isVirtualMapped current tmpSharedTaskMemStart = false
  used : kernel.paging.frameUsed (pageIndex4M (kernel.paging.pageDirs task (pageIndex4M vaddr))) = true
  counted : 0 < kernel.paging.count (pageIndex4M (kernel.paging.pageDirs task (pageIndex4M vaddr)))
  room : kernel.paging.count (pageIndex4M (kernel.paging.pageDirs task (pageIndex4M vaddr))) < 65535

section Window

variable {kernel : Kernel} {task current : PageDirPtr} {vaddr : UInt32} {memory : Memory}
  {copy : UInt32 → PageDirectory → Memory → Except Fault Memory}

theorem mask_aligned (entry : UInt32) : (entry &&& kPageMask4M) % kPageSize4M = 0 := by
  rw [aligned_iff, toNat_and_kPageMask4M]
  exact Nat.mul_mod_left _ _

theorem Installed.window {first : Paging} (installed : Installed kernel.paging first {current}
      (pageIndex4M tmpSharedTaskMemStart)
      (pageEntry (kernel.paging.pageDirs task (pageIndex4M vaddr) &&& kPageMask4M) 0)
      (pageIndex4M (kernel.paging.pageDirs task (pageIndex4M vaddr)))) :
    first.pageDirs current = kernel.window task current vaddr := by
  funext index
  rw [installed.pageDirs, Kernel.window]
  simp

theorem taskMemcpy_lends (tidy : Tidy kernel.paging) (isLive : current ∈ kernel.paging.live)
    (lends : kernel.CanLend task current vaddr)
    (isPresent : present (kernel.paging.pageDirs task (pageIndex4M vaddr)) = true) :
    taskMemcpy task current vaddr copy kernel = (do
      let memory ← copy (tmpSharedTaskMemStart + vaddr % kPageSize4M) (kernel.window task current vaddr)
        kernel.memory
      return { kernel with memory }) := by
  have index := pageIndex4M_pageAddr4M (pageIndex4M_lt vaddr)
  have found : kernel.paging.getPhysicalAddr task (pageAddr4M (pageIndex4M vaddr)) =
      .ok (kernel.paging.pageDirs task (pageIndex4M vaddr) &&& kPageMask4M) := by
    rw [getPhysicalAddr, require_of (pageAddr4M_aligned (pageIndex4M_lt vaddr)), ok_bind]
    dsimp only
    have used : kernel.paging.physicalBitmap.isPageFrameUsed
        (pageIndex4M (kernel.paging.pageDirs task (pageIndex4M vaddr))) = true := lends.used
    rw [index, require_of isPresent, ok_bind, pageIndex4M_mask, require_of used, ok_bind]
    rfl
  obtain ⟨first, added, installed⟩ := addPage_own_succeeds 0 (fun _ => by decide)
    (mask_aligned (kernel.paging.pageDirs task (pageIndex4M vaddr))) (by decide)
    (fun (reuse : true = false) => absurd reuse Bool.noConfusion) lends.free
  have own : kernel.paging.targets current tmpSharedTaskMemStart = {current} := targets_own fun _ => by decide
  have removed : first.removePage current tmpSharedTaskMemStart = .ok kernel.paging := by
    refine removePage_undoes tidy isLive ?_ added ?_
    · rw [pageIndex4M_mask]
      exact ⟨fun _ => lends.counted, fun _ => lends.used⟩
    · have room := lends.room
      rw [pageIndex4M_mask, own, Finset.card_singleton]
      omega
  rw [pageIndex4M_mask] at installed
  rw [taskMemcpy, found, ok_bind, added, ok_bind, Installed.window installed]
  cases copied : copy (tmpSharedTaskMemStart + vaddr % kPageSize4M) (kernel.window task current vaddr)
    kernel.memory with
  | error fault => rfl
  | ok memory =>
      rw [ok_bind, ok_bind, removed]
      rfl

theorem taskMemcpy_lent (run : taskMemcpy task current vaddr copy kernel = .ok { kernel with memory }) :
    kernel.CanLend task current vaddr ∧
      copy (tmpSharedTaskMemStart + vaddr % kPageSize4M) (kernel.window task current vaddr) kernel.memory =
        .ok memory := by
  obtain ⟨paddr, found, rest⟩ := bind_eq_ok.mp run
  obtain ⟨first, added, rest⟩ := bind_eq_ok.mp rest
  obtain ⟨written, copied, rest⟩ := bind_eq_ok.mp rest
  obtain ⟨new, removed, done⟩ := bind_eq_ok.mp rest
  have whole := pure_eq_ok.mp done
  obtain rfl : new = kernel.paging := congrArg Kernel.paging whole
  obtain rfl : written = memory := congrArg Kernel.memory whole
  obtain ⟨_, _, rest⟩ := bind_eq_ok.mp found
  obtain ⟨_, _, rest⟩ := bind_eq_ok.mp rest
  obtain ⟨_, used, rest⟩ := bind_eq_ok.mp rest
  obtain rfl := pure_eq_ok.mp rest
  rw [pageIndex4M_pageAddr4M (pageIndex4M_lt vaddr), pageIndex4M_mask] at used
  rw [pageIndex4M_pageAddr4M (pageIndex4M_lt vaddr)] at added
  obtain ⟨_, _, _, installed⟩ := (addPage_spec kernel.paging current tmpSharedTaskMemStart _ 0 true).of_ok added
  rw [targets_own fun _ => by decide, pageIndex4M_mask] at installed
  have windowed := Installed.window installed
  obtain ⟨_, cleared, _⟩ := (removePage_spec first current tmpSharedTaskMemStart).of_ok removed
  rw [targets_own fun _ => by decide, windowed, Kernel.window, if_pos rfl, pageIndex4M_pageEntry,
    pageIndex4M_mask] at cleared
  have enough := cleared.enough
  have counts := installed.count (pageIndex4M (kernel.paging.pageDirs task (pageIndex4M vaddr)))
  rw [if_pos rfl, Finset.card_singleton] at counts
  rw [counts, Finset.card_singleton] at enough
  have stillUsed := (cleared.used _).mp (require_eq_ok.mp used)
  rw [counts, Finset.card_singleton] at stillUsed
  have small := kernel.paging.physicalBitmap.count_lt (pageIndex4M (kernel.paging.pageDirs task (pageIndex4M vaddr)))
  change kernel.paging.count _ < 65536 at small
  rw [windowed] at copied
  refine ⟨⟨?_, require_eq_ok.mp used, ?_, ?_⟩, copied⟩
  · exact installed.empty current (Finset.mem_singleton_self current)
  · by_contra none
    have zero : kernel.paging.count (pageIndex4M (kernel.paging.pageDirs task (pageIndex4M vaddr))) = 0 := by omega
    rw [zero] at stillUsed
    exact stillUsed.2 ⟨rfl, rfl⟩
  · omega

end Window

structure CopyRange (kernel : Kernel) (direction : Direction) (task current : PageDirPtr)
    (dst src size : UInt32) : Prop where
  source : ∀ i < size.toNat, present (kernel.paging.pageDirs (direction.source task current)
    (pageIndex4M (src + UInt32.ofNat i))) = true
  target : ∀ i < size.toNat, present (kernel.paging.pageDirs (direction.target task current)
    (pageIndex4M (dst + UInt32.ofNat i))) = true
  outside : ∀ i < size.toNat, ¬(tmpSharedTaskMemStart ≤ direction.ownVaddr dst src + UInt32.ofNat i ∧
    direction.ownVaddr dst src + UInt32.ofNat i < tmpSharedTaskMemEnd)

/-- The copy that both page directories ought to see: every byte arrives, no other mapped byte
changes, and nothing but memory does. -/
def CopyContract (kernel : Kernel) (direction : Direction) (task current : PageDirPtr)
    (dst src size : UInt32) : Prop :=
  ∃ memory, kernel.transfer direction task current dst src size = .ok { kernel with memory } ∧
    (∀ i < size.toNat, ∃ source target,
      translate (kernel.paging.pageDirs (direction.source task current)) (src + UInt32.ofNat i) = .ok source ∧
      translate (kernel.paging.pageDirs (direction.target task current)) (dst + UInt32.ofNat i) = .ok target ∧
      memory target = kernel.memory source) ∧
    ∀ pd ∈ kernel.paging.live, ∀ index < 1024, ∀ address,
      frameOf (kernel.paging.pageDirs pd index) = some (address / 4194304) →
      (∀ i < size.toNat, translate (kernel.paging.pageDirs (direction.target task current))
        (dst + UInt32.ofNat i) ≠ .ok address) →
      memory address = kernel.memory address

/-- The addresses from the temporary page on lead to the bytes of the other task, and no byte of the
source is overwritten before it is read. -/
structure CopyFits (kernel : Kernel) (direction : Direction) (task current : PageDirPtr)
    (dst src size : UInt32) : Prop where
  lends : kernel.CanLend task current (direction.taskVaddr dst src)
  reaches : ∀ i < size.toNat, frameOf (kernel.window task current (direction.taskVaddr dst src)
      (pageIndex4M (tmpSharedTaskMemStart + direction.taskVaddr dst src % kPageSize4M + UInt32.ofNat i))) =
    frameOf (kernel.paging.pageDirs task (pageIndex4M (direction.taskVaddr dst src + UInt32.ofNat i)))
  ordered : Ordered
    (fun i => place (kernel.paging.pageDirs (direction.source task current)) (src + UInt32.ofNat i))
    (fun i => place (kernel.paging.pageDirs (direction.target task current)) (dst + UInt32.ofNat i)) size.toNat

/-- No byte of a frame that the kernel maps changes: the page directories, the counts and the bitmap are
in such frames. -/
def KernelUntouched (kernel : Kernel) (direction : Direction) (task current : PageDirPtr)
    (dst src size : UInt32) : Prop :=
  ∀ after, kernel.transfer direction task current dst src size = .ok after → ∀ address,
    kernel.paging.mapCount .kernel (address / 4194304) ≠ 0 → after.memory address = kernel.memory address

def SparesKernelFrames (kernel : Kernel) (direction : Direction) (task current : PageDirPtr)
    (dst src size : UInt32) : Prop :=
  ∀ i < size.toNat,
    kernel.paging.mapCount .kernel
      (place (kernel.paging.pageDirs (direction.target task current)) (dst + UInt32.ofNat i) / 4194304) ≠ 0 →
    place (kernel.paging.pageDirs (direction.target task current)) (dst + UInt32.ofNat i) =
      place (kernel.paging.pageDirs (direction.source task current)) (src + UInt32.ofNat i)

/-- The source is not in the kernel's image or among the page directories: while a page is lent, its
count and an entry of the current page directory are other than before. -/
def ReadsSettled (kernel : Kernel) (direction : Direction) (task current : PageDirPtr) (src size : UInt32) : Prop :=
  ∀ i < size.toNat, ∀ frame,
    frameOf (kernel.paging.pageDirs (direction.source task current) (pageIndex4M (src + UInt32.ofNat i))) = some frame →
    frame ≠ pageIndex4M kernelStart ∧ frame ≠ pageIndex4M pageDirectoryRegionStart

section Copies

variable {kernel : Kernel} {direction : Direction} {task current : PageDirPtr} {dst src size vaddr : UInt32}

theorem temporary_iff (vaddr : UInt32) : (tmpSharedTaskMemStart ≤ vaddr ∧ vaddr < tmpSharedTaskMemEnd) ↔
    pageIndex4M vaddr = pageIndex4M tmpSharedTaskMemStart := by
  have start : tmpSharedTaskMemStart.toNat = 20971520 := by decide
  have stop : tmpSharedTaskMemEnd.toNat = 25165824 := by decide
  rw [UInt32.le_iff_toNat_le, UInt32.lt_iff_toNat_lt, pageIndex4M_eq, pageIndex4M_eq, start, stop]
  omega

theorem window_own {address : UInt32}
    (outside : ¬(tmpSharedTaskMemStart ≤ address ∧ address < tmpSharedTaskMemEnd)) :
    kernel.window task current vaddr (pageIndex4M address) =
      kernel.paging.pageDirs current (pageIndex4M address) :=
  if_neg fun same => outside ((temporary_iff address).mpr same)

theorem place_own {address : UInt32}
    (outside : ¬(tmpSharedTaskMemStart ≤ address ∧ address < tmpSharedTaskMemEnd)) :
    place (kernel.window task current vaddr) address = place (kernel.paging.pageDirs current) address := by
  rw [place, place, window_own outside]

theorem shared_mod (vaddr : UInt32) (i : Nat) :
    (tmpSharedTaskMemStart + vaddr % kPageSize4M + UInt32.ofNat i).toNat % 4194304 =
      (vaddr + UInt32.ofNat i).toNat % 4194304 := by
  have offset := (window_address vaddr).2
  rw [byte_mod, byte_mod]
  omega

structure Routed (kernel : Kernel) (direction : Direction) (task current : PageDirPtr) (dst src size : UInt32)
    (pd : PageDirectory) (adjDst adjSrc : UInt32) : Prop where
  sourcePresent : ∀ i < size.toNat, present (pd (pageIndex4M (adjSrc + UInt32.ofNat i))) = true
  targetPresent : ∀ i < size.toNat, present (pd (pageIndex4M (adjDst + UInt32.ofNat i))) = true
  source : ∀ i < size.toNat, place pd (adjSrc + UInt32.ofNat i) =
    place (kernel.paging.pageDirs (direction.source task current)) (src + UInt32.ofNat i)
  target : ∀ i < size.toNat, place pd (adjDst + UInt32.ofNat i) =
    place (kernel.paging.pageDirs (direction.target task current)) (dst + UInt32.ofNat i)

theorem CopyRange.routed (range : kernel.CopyRange direction task current dst src size)
    (reaches : ∀ i < size.toNat, frameOf (kernel.window task current (direction.taskVaddr dst src)
        (pageIndex4M (tmpSharedTaskMemStart + direction.taskVaddr dst src % kPageSize4M + UInt32.ofNat i))) =
      frameOf (kernel.paging.pageDirs task (pageIndex4M (direction.taskVaddr dst src + UInt32.ofNat i)))) :
    Routed kernel direction task current dst src size (kernel.window task current (direction.taskVaddr dst src))
      (direction.adjDst dst (tmpSharedTaskMemStart + direction.taskVaddr dst src % kPageSize4M))
      (direction.adjSrc src (tmpSharedTaskMemStart + direction.taskVaddr dst src % kPageSize4M)) := by
  cases direction with
  | currentToOther =>
      have shared : ∀ i < size.toNat, _ := fun i below =>
        place_congr (reaches i below) (range.target i below) (shared_mod dst i)
      have own : ∀ i < size.toNat, _ := fun i below =>
        place_congr (congrArg frameOf (@window_own kernel task current dst _ (range.outside i below)))
          (range.source i below) rfl
      exact ⟨fun i below => (own i below).1, fun i below => (shared i below).1,
        fun i below => (own i below).2, fun i below => (shared i below).2⟩
  | otherToCurrent =>
      have shared : ∀ i < size.toNat, _ := fun i below =>
        place_congr (reaches i below) (range.source i below) (shared_mod src i)
      have own : ∀ i < size.toNat, _ := fun i below =>
        place_congr (congrArg frameOf (@window_own kernel task current src _ (range.outside i below)))
          (range.target i below) rfl
      exact ⟨fun i below => (shared i below).1, fun i below => (own i below).1,
        fun i below => (shared i below).2, fun i below => (own i below).2⟩

theorem CopyRange.taskPresent (range : kernel.CopyRange direction task current dst src size) (nonempty : size ≠ 0) :
    present (kernel.paging.pageDirs task (pageIndex4M (direction.taskVaddr dst src))) = true := by
  have positive : 0 < size.toNat := by
    rw [← UInt32.toNat_inj.ne] at nonempty
    exact Nat.pos_of_ne_zero nonempty
  cases direction with
  | currentToOther =>
      have first := range.target 0 positive
      rwa [first_byte] at first
  | otherToCurrent =>
      have first := range.source 0 positive
      rwa [first_byte] at first

theorem CopyFits.contract (tidy : Tidy kernel.paging) (isLive : current ∈ kernel.paging.live)
    (range : kernel.CopyRange direction task current dst src size)
    (fits : kernel.CopyFits direction task current dst src size) (nonempty : size ≠ 0) :
    kernel.CopyContract direction task current dst src size := by
  have routed := range.routed fits.reaches
  have run : kernel.transfer direction task current dst src size = .ok { kernel with
      memory := moves
        (fun i => place (kernel.paging.pageDirs (direction.source task current)) (src + UInt32.ofNat i))
        (fun i => place (kernel.paging.pageDirs (direction.target task current)) (dst + UInt32.ofNat i))
        size.toNat kernel.memory } := by
    rw [transfer, if_neg nonempty, taskMemcpy_lends tidy isLive fits.lends (range.taskPresent nonempty),
      memcpyVirtual_moves routed.sourcePresent routed.targetPresent, ok_bind,
      moves_same routed.source routed.target]
    rfl
  refine ⟨_, run, ?_, ?_⟩
  · intro i below
    exact ⟨_, _, translate_place (range.source i below), translate_place (range.target i below),
      moves_target fits.ordered kernel.memory below⟩
  · intro pd _ index _ address _ untouched
    refine moves_other kernel.memory ?_
    intro i below same
    refine untouched i below ?_
    rw [translate_place (range.target i below), same]

theorem CopyContract.moved {adjDst adjSrc : UInt32}
    (contract : kernel.CopyContract direction task current dst src size) (nonempty : size ≠ 0)
    (isDst : direction.adjDst dst (tmpSharedTaskMemStart + direction.taskVaddr dst src % kPageSize4M) = adjDst)
    (isSrc : direction.adjSrc src (tmpSharedTaskMemStart + direction.taskVaddr dst src % kPageSize4M) = adjSrc) :
    let pd := kernel.window task current (direction.taskVaddr dst src)
    let cells := moves (fun i => place pd (adjSrc + UInt32.ofNat i)) (fun i => place pd (adjDst + UInt32.ofNat i))
      size.toNat kernel.memory
    kernel.CanLend task current (direction.taskVaddr dst src) ∧
      (∀ i < size.toNat, present (pd (pageIndex4M (adjSrc + UInt32.ofNat i))) = true) ∧
      (∀ i < size.toNat, present (pd (pageIndex4M (adjDst + UInt32.ofNat i))) = true) ∧
      (∀ i < size.toNat,
        cells (place (kernel.paging.pageDirs (direction.target task current)) (dst + UInt32.ofNat i)) =
          kernel.memory (place (kernel.paging.pageDirs (direction.source task current)) (src + UInt32.ofNat i))) ∧
      ∀ query ∈ kernel.paging.live, ∀ index < 1024, ∀ address,
        frameOf (kernel.paging.pageDirs query index) = some (address / 4194304) →
        (∀ i < size.toNat, place (kernel.paging.pageDirs (direction.target task current))
          (dst + UInt32.ofNat i) ≠ address) →
        cells address = kernel.memory address := by
  obtain ⟨memory, run, arrived, kept⟩ := contract
  rw [transfer, if_neg nonempty] at run
  obtain ⟨lends, copied⟩ := taskMemcpy_lent run
  rw [isDst, isSrc] at copied
  obtain ⟨sources, targets⟩ := memcpyVirtual_present copied
  rw [memcpyVirtual_moves sources targets] at copied
  obtain rfl := Except.ok.inj copied
  refine ⟨lends, sources, targets, ?_, ?_⟩
  · intro i below
    obtain ⟨source, target, fromSource, toTarget, same⟩ := arrived i below
    rw [← (translate_eq_place fromSource).2, ← (translate_eq_place toTarget).2]
    exact same
  · intro query isLive index bound address maps untouched
    refine kept query isLive index bound address maps ?_
    intro i below translated
    exact untouched i below (translate_eq_place translated).2.symm

theorem window_live {index : Nat} (taskLive : task ∈ kernel.paging.live) (currentLive : current ∈ kernel.paging.live)
    (taskPresent : present (kernel.paging.pageDirs task (pageIndex4M vaddr)) = true) (bound : index < 1024)
    (isPresent : present (kernel.window task current vaddr index) = true) :
    ∃ pd ∈ kernel.paging.live, ∃ i < 1024, frameOf (kernel.paging.pageDirs pd i) =
      some (pageIndex4M (kernel.window task current vaddr index)) := by
  by_cases temporary : index = pageIndex4M tmpSharedTaskMemStart
  · refine ⟨task, taskLive, _, pageIndex4M_lt vaddr, frameOf_eq_some.mpr ⟨taskPresent, ?_⟩⟩
    rw [window, if_pos temporary, pageIndex4M_pageEntry, pageIndex4M_mask]
  · rw [window, if_neg temporary] at isPresent
    refine ⟨current, currentLive, index, bound, frameOf_eq_some.mpr ⟨isPresent, ?_⟩⟩
    rw [window, if_neg temporary]

theorem place_injective {pd other : PageDirectory} {first second : UInt32} {i j : Nat}
    (offset : first.toNat % 4194304 = second.toNat % 4194304) (below : i < 4194304) (inside : j < 4194304)
    (same : place pd (first + UInt32.ofNat i) = place other (second + UInt32.ofNat j)) : i = j := by
  have offsets := congrArg (· % 4194304) same
  simp only [place_mod, byte_mod] at offsets
  omega

theorem writeFits_of_contracts (taskLive : task ∈ kernel.paging.live) (currentLive : current ∈ kernel.paging.live)
    (range : kernel.CopyRange .currentToOther task current dst src size) (nonempty : size ≠ 0)
    (small : size.toNat ≤ 4194304)
    (contracts : ∀ memory, CopyContract { kernel with memory } .currentToOther task current dst src size) :
    kernel.CopyFits .currentToOther task current dst src size := by
  have moved := fun memory => (contracts memory).moved nonempty rfl rfl
  obtain ⟨lends, _, shared, _⟩ := moved kernel.memory
  have sourceSame : ∀ i < size.toNat, place (kernel.window task current dst) (src + UInt32.ofNat i) =
      place (kernel.paging.pageDirs current) (src + UInt32.ofNat i) := by
    intro i below
    exact place_own (range.outside i below)
  have injective : ∀ i j, i < size.toNat → j < size.toNat →
      place (kernel.window task current dst) (src + UInt32.ofNat i) =
        place (kernel.window task current dst) (src + UInt32.ofNat j) → i = j :=
    fun i j first second => place_injective rfl (by omega) (by omega)
  have correct : ∀ memory : Memory, ∀ i < size.toNat,
      moves (fun i => place (kernel.window task current dst) (src + UInt32.ofNat i))
        (fun i => place (kernel.window task current dst)
          (tmpSharedTaskMemStart + dst % kPageSize4M + UInt32.ofNat i)) size.toNat memory
        (place (kernel.paging.pageDirs task) (dst + UInt32.ofNat i)) =
      memory (place (kernel.window task current dst) (src + UInt32.ofNat i)) := by
    intro memory i below
    rw [sourceSame i below]
    exact (moved memory).2.2.2.1 i below
  have offset : (tmpSharedTaskMemStart + dst % kPageSize4M).toNat % 4194304 = dst.toNat % 4194304 :=
    (window_address dst).2
  have targetSame : ∀ k < size.toNat, place (kernel.window task current dst)
        (tmpSharedTaskMemStart + dst % kPageSize4M + UInt32.ofNat k) =
      place (kernel.paging.pageDirs task) (dst + UInt32.ofNat k) := by
    intro k below
    by_cases missing : ∃ i < size.toNat, place (kernel.window task current dst)
        (tmpSharedTaskMemStart + dst % kPageSize4M + UInt32.ofNat k) =
      place (kernel.paging.pageDirs task) (dst + UInt32.ofNat i)
    · obtain ⟨i, inside, same⟩ := missing
      obtain rfl := place_injective offset (by omega) (by omega) same
      exact same
    · -- the byte that was written instead is mapped, so the contract does not let it change
      push Not at missing
      obtain ⟨query, isLive, index, bound, maps⟩ := window_live taskLive currentLive
        (range.taskPresent nonempty) (pageIndex4M_lt _) (shared k below)
      have kept : ∀ memory : Memory, _ := fun memory => (moved memory).2.2.2.2 query isLive index bound
        (place (kernel.window task current dst) (tmpSharedTaskMemStart + dst % kPageSize4M + UInt32.ofNat k))
        (by rw [place_div]; exact maps) (fun i inside => (missing i inside).symm)
      obtain ⟨i, inside, same⟩ := target_of_correct injective
        (fun i j first second => place_injective rfl (by omega) (by omega)) correct below kept
      obtain rfl := place_injective offset (by omega) (by omega) same
      exact same
  refine ⟨lends, ?_, ?_, ?_⟩
  · intro i below
    exact frameOf_of_place (shared i below) (range.target i below) (targetSame i below)
  · intro i j before below
    have forward := forward_of_correct injective correct before below
    rw [targetSame i (by omega), sourceSame j below] at forward
    exact forward
  · intro i j first second same
    rw [place_injective rfl (by omega) (by omega) same]

theorem readFits_of_contracts
    (range : kernel.CopyRange .otherToCurrent task current dst src size) (nonempty : size ≠ 0)
    (small : size.toNat ≤ 4194304)
    (contracts : ∀ memory, CopyContract { kernel with memory } .otherToCurrent task current dst src size) :
    kernel.CopyFits .otherToCurrent task current dst src size := by
  have moved := fun memory => (contracts memory).moved nonempty rfl rfl
  obtain ⟨lends, shared, _, _⟩ := moved kernel.memory
  have targetSame : ∀ i < size.toNat, place (kernel.window task current src) (dst + UInt32.ofNat i) =
      place (kernel.paging.pageDirs current) (dst + UInt32.ofNat i) := by
    intro i below
    exact place_own (range.outside i below)
  have correct : ∀ memory : Memory, ∀ i < size.toNat,
      moves (fun i => place (kernel.window task current src)
          (tmpSharedTaskMemStart + src % kPageSize4M + UInt32.ofNat i))
        (fun i => place (kernel.window task current src) (dst + UInt32.ofNat i)) size.toNat memory
        (place (kernel.window task current src) (dst + UInt32.ofNat i)) =
      memory (place (kernel.paging.pageDirs task) (src + UInt32.ofNat i)) := by
    intro memory i below
    rw [targetSame i below]
    exact (moved memory).2.2.2.1 i below
  have offset : (tmpSharedTaskMemStart + src % kPageSize4M).toNat % 4194304 = src.toNat % 4194304 :=
    (window_address src).2
  have sourceSame : ∀ k < size.toNat, place (kernel.window task current src)
        (tmpSharedTaskMemStart + src % kPageSize4M + UInt32.ofNat k) =
      place (kernel.paging.pageDirs task) (src + UInt32.ofNat k) := by
    intro k below
    obtain ⟨i, inside, same⟩ := source_of_correct correct below
    obtain rfl := place_injective offset (by omega) (by omega) same
    exact same
  refine ⟨lends, ?_, ?_, ?_⟩
  · intro i below
    exact frameOf_of_place (shared i below) (range.source i below) (sourceSame i below)
  · intro i j before below
    have forward := forward_of_correct
      (fun i j first second => place_injective rfl (by omega) (by omega))
      (fun memory i inside => (correct memory i inside).trans (congrArg memory (sourceSame i inside).symm))
      before below
    rw [targetSame i (by omega), sourceSame j below] at forward
    exact forward
  · intro i j first second same
    rw [place_injective rfl (by omega) (by omega) same]

theorem copyContract_empty (kernel : Kernel) (direction : Direction) (task current : PageDirPtr) (dst src : UInt32) :
    kernel.CopyContract direction task current dst src 0 := by
  refine ⟨kernel.memory, rfl, ?_, fun _ _ _ _ _ _ _ => rfl⟩
  intro i below
  exact absurd below (Nat.not_lt_zero i)

theorem byte_index {vaddr : UInt32} {i : Nat} (inside : vaddr.toNat % 4194304 + i < 4194304) :
    pageIndex4M (vaddr + UInt32.ofNat i) = pageIndex4M vaddr := by
  have bound := vaddr.toNat_lt
  have value : (UInt32.ofNat i).toNat = i := UInt32.toNat_ofNat_of_lt' (by change i < 4294967296; omega)
  have sum : (vaddr + UInt32.ofNat i).toNat = vaddr.toNat + i := by
    rw [UInt32.toNat_add, value]
    exact Nat.mod_eq_of_lt (by change _ < 4294967296; omega)
  rw [pageIndex4M_eq, pageIndex4M_eq, sum]
  omega

/-- Within one page of the other task, the temporary page leads to the right bytes. -/
theorem copyFits_page (range : kernel.CopyRange direction task current dst src size)
    (page : (direction.taskVaddr dst src).toNat % 4194304 + size.toNat ≤ 4194304) :
    kernel.CopyFits direction task current dst src size ↔
      kernel.CanLend task current (direction.taskVaddr dst src) ∧
      ∀ i j, i < j → j < size.toNat →
        place (kernel.paging.pageDirs (direction.target task current)) (dst + UInt32.ofNat i) ≠
          place (kernel.paging.pageDirs (direction.source task current)) (src + UInt32.ofNat j) := by
  constructor
  · intro fits
    exact ⟨fits.lends, fits.ordered.forward⟩
  · rintro ⟨lends, forward⟩
    refine ⟨lends, ?_, forward, ?_⟩
    · intro i below
      obtain ⟨index, offset⟩ := window_address (direction.taskVaddr dst src)
      have nonempty : size ≠ 0 := by
        rintro rfl
        exact Nat.not_lt_zero i below
      have isPresent := range.taskPresent nonempty
      rw [byte_index (by omega), byte_index (by omega), index, window, if_pos rfl, frameOf_pageEntry,
        pageIndex4M_mask, frameOf_eq_some.mpr ⟨isPresent, rfl⟩]
    · intro i j first second same
      rw [place_injective rfl (by omega) (by omega) same]

theorem CopyContract.untouched (contract : kernel.CopyContract direction task current dst src size)
    (spares : kernel.SparesKernelFrames direction task current dst src size) :
    kernel.KernelUntouched direction task current dst src size := by
  obtain ⟨memory, run, arrived, kept⟩ := contract
  intro after copied address mapped
  rw [run] at copied
  obtain rfl := Except.ok.inj copied
  by_cases written : ∃ i < size.toNat, translate (kernel.paging.pageDirs (direction.target task current))
      (dst + UInt32.ofNat i) = .ok address
  · obtain ⟨i, below, translated⟩ := written
    obtain ⟨source, target, fromSource, toTarget, same⟩ := arrived i below
    obtain rfl := Except.ok.inj (translated.symm.trans toTarget)
    rw [(translate_eq_place toTarget).2] at mapped same ⊢
    rw [(translate_eq_place fromSource).2, ← spares i below mapped] at same
    exact same
  · obtain ⟨index, listed, maps⟩ := exists_of_occurrences_pos (Nat.pos_of_ne_zero mapped)
    exact kept .kernel (kernel_mem_live _) index (mem_indices.mp listed) address maps
      fun i below translated => written ⟨i, below, translated⟩

theorem spares_of_untouched
    (contracts : ∀ memory, CopyContract { kernel with memory } direction task current dst src size ∧
      KernelUntouched { kernel with memory } direction task current dst src size) :
    kernel.SparesKernelFrames direction task current dst src size := by
  intro i below mapped
  by_contra differs
  -- a memory with different bytes at the two places
  obtain ⟨⟨after, run, arrived, _⟩, untouched⟩ := contracts (Function.update (fun _ => 0)
    (place (kernel.paging.pageDirs (direction.target task current)) (dst + UInt32.ofNat i)) 1)
  obtain ⟨source, target, fromSource, toTarget, same⟩ := arrived i below
  have unchanged := untouched _ run _ mapped
  rw [(translate_eq_place fromSource).2, (translate_eq_place toTarget).2] at same
  dsimp only at same unchanged
  rw [unchanged, Function.update_self, Function.update_of_ne (Ne.symm differs)] at same
  exact absurd same (by decide)

theorem copyFromTask_other {caller handle : Nat} {other own : Task} (found : kernel.tasks handle = some other)
    (isUser : other.isUserTask = true) (foundOwn : kernel.tasks caller = some own) (different : handle ≠ caller) :
    kernel.copyFromTask caller handle dst src size =
      kernel.read other.pageDirectory own.pageDirectory dst src size := by
  have foundTask : kernel.getTask handle = .ok other := getTask_eq_ok.mpr found
  have foundCaller : kernel.getTask caller = .ok own := getTask_eq_ok.mpr foundOwn
  rw [copyFromTask, foundTask, ok_bind, require_of isUser, ok_bind, foundCaller, ok_bind, if_neg different]

end Copies

end Kernel

end ToyKernel
