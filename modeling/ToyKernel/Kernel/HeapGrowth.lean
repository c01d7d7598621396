import ToyKernel.Kernel.Model
import ToyKernel.Paging.Invariants

/-!
`ksbrk` at the limit of the kernel heap. Its check adds up 32-bit values, so a request that would
wrap around the address space passes it and the pages are mapped until the memory is full.
-/

namespace ToyKernel

open Library Paging

namespace Kernel

def wholePages (bytes : UInt32) : Nat := (bytes.toNat + 4194303) / 4194304

def freeFrames (paging : Paging) : Finset Nat :=
  (Finset.Ico 1 1024).filter fun frame => paging.frameUsed frame = false

structure HeapTop (paging : Paging) (heap : UInt32) : Prop where
  aligned : heap % kPageSize4M = 0
  above : kernHeapBegin ≤ heap
  below : heap ≤ kernHeapEnd
  unmapped : ∀ pd ∈ paging.live, ∀ index, pageIndex4M heap ≤ index → index < 256 →
    present (paging.pageDirs pd index) = false

structure Grown (old new : Paging) (first pages : Nat) (frames : Nat → Nat) : Prop where
  region : new.pageDirRegion = old.pageDirRegion
  pageDirs : ∀ pd index, new.pageDirs pd index =
    if pd ∈ old.live ∧ first ≤ index ∧ index < first + pages then pageEntry (pageAddr4M (frames index)) 0
    else old.pageDirs pd index
  fresh : ∀ index, first ≤ index → index < first + pages → frames index ∈ freeFrames old
  distinct : ∀ index other, first ≤ index → index < first + pages → first ≤ other → other < first + pages →
    frames index = frames other → index = other
  count : ∀ index, first ≤ index → index < first + pages →
    new.count (frames index) = (old.count (frames index) + old.live.card) % 65536
  others : ∀ frame, (∀ index, first ≤ index → index < first + pages → frames index ≠ frame) →
    new.count frame = old.count frame ∧ new.frameUsed frame = old.frameUsed frame

structure AllOrNothing (paging : Paging) (heap bytes : UInt32) : Prop where
  refused : kernHeapEnd.toNat < heap.toNat + 4194304 * wholePages bytes →
    ksbrk bytes heap paging = .ok (paging, none)
  granted : heap.toNat + 4194304 * wholePages bytes ≤ kernHeapEnd.toNat →
    wholePages bytes ≤ (freeFrames paging).card →
    ∃ after top frames, ksbrk bytes heap paging = .ok (after, some top) ∧
      top.toNat = heap.toNat + 4194304 * wholePages bytes ∧ bytes.toNat ≤ top.toNat - heap.toNat ∧
      Grown paging after (pageIndex4M heap) (wholePages bytes) frames

variable {paging after : Paging} {heap bytes : UInt32} {first pages : Nat}

theorem mem_freeFrames {frame : Nat} :
    frame ∈ freeFrames paging ↔ (1 ≤ frame ∧ frame < 1024) ∧ paging.frameUsed frame = false := by
  rw [freeFrames, Finset.mem_filter, Finset.mem_Ico]

theorem ksbrk_eq (heap : UInt32) (paging : Paging) (nonzero : bytes ≠ 0) :
    ∃ pages : UInt32, pages.toNat = wholePages bytes ∧ ksbrk bytes heap paging = ksbrkPage pages heap paging := by
  have positive : bytes.toNat ≠ 0 := fun zero => nonzero (UInt32.toNat_inj.mp zero)
  have bound := bytes.toNat_lt
  have size : kPageSize4M.toNat = 4194304 := rfl
  have quotient : (bytes / kPageSize4M).toNat = bytes.toNat / 4194304 := by
    rw [UInt32.toNat_div, size]
  unfold ksbrk
  by_cases small : bytes < kPageSize4M
  · rw [UInt32.lt_iff_toNat_lt, size] at small
    refine ⟨1, ?_, if_pos (UInt32.lt_iff_toNat_lt.mpr small)⟩
    rw [wholePages]
    show 1 = _
    omega
  · have large : 4194304 ≤ bytes.toNat := by
      rw [UInt32.lt_iff_toNat_lt, size] at small
      omega
    rw [if_neg small]
    by_cases whole : bytes % kPageSize4M = 0
    · refine ⟨bytes / kPageSize4M, ?_, if_pos whole⟩
      rw [aligned_iff] at whole
      rw [quotient, wholePages]
      omega
    · refine ⟨bytes / kPageSize4M + 1, ?_, if_neg whole⟩
      rw [aligned_iff] at whole
      have one : (1 : UInt32).toNat = 1 := rfl
      rw [UInt32.toNat_add, quotient, one, wholePages, Nat.mod_eq_of_lt (by omega)]
      omega

theorem nextFreePhysicalPage_succeeds (room : 0 < (freeFrames paging).card) :
    ∃ paddr, paging.physicalBitmap.nextFreePhysicalPage 1 = .ok paddr ∧ paddr % kPageSize4M = 0 ∧
      pageIndex4M paddr ∈ freeFrames paging := by
  obtain ⟨frame, free⟩ := Finset.card_pos.mp room
  obtain ⟨⟨above, below⟩, unused⟩ := mem_freeFrames.mp free
  cases found : paging.physicalBitmap.nextFreePhysicalPage 1 with
  | ok paddr =>
      obtain ⟨aligned, later, isFree⟩ := PhysicalBitmap4M.nextFreePhysicalPage_eq_ok found
      exact ⟨paddr, rfl, aligned, mem_freeFrames.mpr ⟨⟨later, pageIndex4M_lt paddr⟩, isFree⟩⟩
  | error fault =>
      rw [PhysicalBitmap4M.nextFreePhysicalPage] at found
      cases zero : paging.physicalBitmap.bits.getFirstZero 1 with
      | some page =>
          rw [zero] at found
          cases found
      | none =>
          have full := BitArray.getFirstZero_eq_none zero above below
          rw [show paging.frameUsed frame = true from full] at unused
          cases unused

theorem isReplicated_heap (above : 8 ≤ pageIndex4M heap) (below : pageIndex4M heap < 256) :
    isReplicated heap = true := by
  rw [pageIndex4M_eq] at above below
  have start : kernHeapBegin ≤ heap := by
    rw [UInt32.le_iff_toNat_le]
    show 33554432 ≤ heap.toNat
    omega
  have stop : heap < kernHeapEnd := by
    rw [UInt32.lt_iff_toNat_lt]
    show heap.toNat < 1073741824
    omega
  simp [isReplicated, isKernelHeap, start, stop]

theorem nextPage_toNat (bound : pageIndex4M heap < 1023) (aligned : heap % kPageSize4M = 0) :
    (heap + kPageSize4M).toNat = heap.toNat + 4194304 ∧ (heap + kPageSize4M) % kPageSize4M = 0 ∧
      pageIndex4M (heap + kPageSize4M) = pageIndex4M heap + 1 := by
  have size : kPageSize4M.toNat = 4194304 := rfl
  rw [pageIndex4M_eq] at bound
  rw [aligned_iff] at aligned
  have sum : (heap + kPageSize4M).toNat = heap.toNat + 4194304 := by
    rw [UInt32.toNat_add, size]
    exact Nat.mod_eq_of_lt (by omega)
  rw [aligned_iff, pageIndex4M_eq, pageIndex4M_eq, sum]
  exact ⟨rfl, by omega, by omega⟩

/-- One more page in front of those that the rest of the loop maps. -/
theorem Grown.cons {old middle new : Paging} {page : Nat} {frames : Nat → Nat}
    (installed : Installed old middle old.live first (pageEntry (pageAddr4M page) 0) page)
    (free : page ∈ freeFrames old) (grown : Grown middle new (first + 1) pages frames) :
    Grown old new first (pages + 1) fun index => if index = first then page else frames index := by
  have sameLive : middle.live = old.live := live_congr (slots_congr installed.region)
  have later : ∀ index, first ≤ index → index < first + (pages + 1) → index ≠ first →
      first + 1 ≤ index ∧ index < first + 1 + pages := by
    intro index above below different
    omega
  have kept : ∀ index, first + 1 ≤ index → index < first + 1 + pages →
      frames index ∈ freeFrames old ∧ frames index ≠ page := by
    intro index above below
    obtain ⟨range, unused⟩ := mem_freeFrames.mp (grown.fresh index above below)
    have none : ¬(frames index = page ∨ old.frameUsed (frames index) = true) := by
      rw [← installed.used, unused]
      simp
    rw [not_or] at none
    exact ⟨mem_freeFrames.mpr ⟨range, by simpa using none.2⟩, none.1⟩
  constructor
  · rw [grown.region, installed.region]
  · intro pd index
    rw [grown.pageDirs, sameLive, installed.pageDirs]
    by_cases isLive : pd ∈ old.live
    · by_cases same : index = first
      · simp [isLive, same]
      · by_cases range : first + 1 ≤ index ∧ index < first + 1 + pages
        · rw [if_pos ⟨isLive, range⟩, if_pos ⟨isLive, by omega, by omega⟩, if_neg same]
        · rw [if_neg fun both => range both.2, if_neg fun both => same both.2, if_neg fun both => by omega]
    · simp [isLive]
  · intro index above below
    by_cases same : index = first
    · rw [if_pos same]
      exact free
    · obtain ⟨lower, upper⟩ := later index above below same
      rw [if_neg same]
      exact (kept index lower upper).1
  · intro index other above below otherAbove otherBelow equal
    by_cases same : index = first
    · by_cases otherSame : other = first
      · rw [same, otherSame]
      · obtain ⟨lower, upper⟩ := later other otherAbove otherBelow otherSame
        rw [if_pos same, if_neg otherSame] at equal
        exact absurd equal.symm (kept other lower upper).2
    · obtain ⟨lower, upper⟩ := later index above below same
      by_cases otherSame : other = first
      · rw [if_neg same, if_pos otherSame] at equal
        exact absurd equal (kept index lower upper).2
      · obtain ⟨otherLower, otherUpper⟩ := later other otherAbove otherBelow otherSame
        rw [if_neg same, if_neg otherSame] at equal
        exact grown.distinct index other lower upper otherLower otherUpper equal
  · intro index above below
    by_cases same : index = first
    · have unchanged := (grown.others page fun other lower upper => (kept other lower upper).2).1
      rw [if_pos same, unchanged, installed.count, if_pos rfl]
    · obtain ⟨lower, upper⟩ := later index above below same
      rw [if_neg same, grown.count index lower upper, sameLive, installed.count,
        if_neg (kept index lower upper).2]
  · intro frame unassigned
    have notPage : frame ≠ page := by
      have here := unassigned first (Nat.le_refl _) (by omega)
      rw [if_pos rfl] at here
      exact here.symm
    have notLater : ∀ index, first + 1 ≤ index → index < first + 1 + pages → frames index ≠ frame := by
      intro index lower upper
      have there := unassigned index (by omega) (by omega)
      rwa [if_neg (by omega)] at there
    obtain ⟨counts, marks⟩ := grown.others frame notLater
    refine ⟨by rw [counts, installed.count, if_neg notPage], ?_⟩
    rw [marks, Bool.eq_iff_iff, installed.used]
    simp [notPage]

theorem ksbrkPages_grown (aligned : heap % kPageSize4M = 0) (above : 8 ≤ pageIndex4M heap)
    (below : pageIndex4M heap + pages ≤ 256)
    (unmapped : ∀ pd ∈ paging.live, ∀ index, pageIndex4M heap ≤ index → index < 256 →
      present (paging.pageDirs pd index) = false) (room : pages ≤ (freeFrames paging).card) :
    ∃ after top frames, ksbrkPages pages heap paging = .ok (after, top) ∧
      top.toNat = heap.toNat + 4194304 * pages ∧ Grown paging after (pageIndex4M heap) pages frames := by
  induction pages generalizing heap paging with
  | zero =>
      refine ⟨paging, heap, id, rfl, rfl, rfl, ?_, ?_, ?_, ?_, fun _ _ => ⟨rfl, rfl⟩⟩
      · intro pd index
        rw [if_neg fun range => by omega]
      all_goals
        intros
        omega
  | succ pages ih =>
      have some_free : 0 < (freeFrames paging).card := by omega
      obtain ⟨paddr, found, physical, free⟩ := nextFreePhysicalPage_succeeds some_free
      have everywhere : paging.targets .kernel heap = paging.live :=
        if_pos ⟨rfl, isReplicated_heap above (by omega)⟩
      obtain ⟨middle, added, installed⟩ := addPage_succeeds 0 physical aligned
        (show false = false → paging.frameUsed (pageIndex4M paddr) = false from
          fun _ => (mem_freeFrames.mp free).2)
        (by rw [everywhere]; exact fun other isLive => unmapped other isLive _ (Nat.le_refl _) (by omega))
      rw [everywhere] at installed
      obtain ⟨sum, nextAligned, nextIndex⟩ := nextPage_toNat (by omega) aligned
      have fewer : pages ≤ (freeFrames middle).card := by
        have within : (freeFrames paging).erase (pageIndex4M paddr) ⊆ freeFrames middle := by
          intro frame member
          obtain ⟨different, wasFree⟩ := Finset.mem_erase.mp member
          obtain ⟨range, unused⟩ := mem_freeFrames.mp wasFree
          refine mem_freeFrames.mpr ⟨range, ?_⟩
          rw [Bool.eq_false_iff, ne_eq, installed.used, unused]
          simp [different]
        have cards := Finset.card_le_card within
        rw [Finset.card_erase_of_mem free] at cards
        omega
      have still : ∀ pd ∈ middle.live, ∀ index, pageIndex4M (heap + kPageSize4M) ≤ index → index < 256 →
          present (middle.pageDirs pd index) = false := by
        intro pd isLive index lower upper
        rw [live_congr (slots_congr installed.region)] at isLive
        rw [installed.pageDirs, if_neg (by omega)]
        exact unmapped pd isLive index (by omega) upper
      obtain ⟨after, top, frames, run, reached, grown⟩ := ih nextAligned (by omega) (by omega) still fewer
      rw [nextIndex] at grown
      rw [← pageAddr4M_pageIndex4M physical] at installed
      rw [pageIndex4M_pageAddr4M (pageIndex4M_lt paddr)] at installed
      refine ⟨after, top, _, ?_, by rw [reached, sum]; omega, grown.cons installed free⟩
      rw [ksbrkPages, found, ok_bind, added, ok_bind, run]

theorem limit_toNat (top : HeapTop paging heap) : 33554432 ≤ heap.toNat ∧ heap.toNat ≤ 1073741824 ∧
    heap.toNat = 4194304 * pageIndex4M heap := by
  have above := UInt32.le_iff_toNat_le.mp top.above
  have below := UInt32.le_iff_toNat_le.mp top.below
  have aligned := (aligned_iff heap).mp top.aligned
  rw [pageIndex4M_eq]
  exact ⟨above, below, by omega⟩

theorem checked_toNat (heap pages : UInt32) : (heap + pages * kPageSize4M).toNat =
    (heap.toNat + 4194304 * pages.toNat) % 4294967296 := by
  have size : kPageSize4M.toNat = 4194304 := rfl
  rw [UInt32.toNat_add, UInt32.toNat_mul, size]
  omega

theorem ksbrk_not_refused (top : HeapTop paging heap) (nonzero : bytes ≠ 0)
    (wraps : 4294967296 ≤ heap.toNat + 4194304 * wholePages bytes) {after : Paging} :
    ksbrk bytes heap paging ≠ .ok (after, none) := by
  obtain ⟨_, below, _⟩ := limit_toNat top
  obtain ⟨pages, count, same⟩ := ksbrk_eq heap paging nonzero
  have bytesBound := bytes.toNat_lt
  have few : wholePages bytes ≤ 1024 := by
    rw [wholePages]
    omega
  have sum := checked_toNat heap pages
  have limit : kernHeapEnd.toNat = 1073741824 := rfl
  have passes : ¬kernHeapEnd < heap + pages * kPageSize4M := by
    rw [UInt32.lt_iff_toNat_lt, sum, limit, count]
    omega
  intro refused
  rw [same, ksbrkPage, if_neg passes] at refused
  obtain ⟨_, _, done⟩ := bind_eq_ok.mp refused
  cases done

theorem ksbrk_allOrNothing_iff (top : HeapTop paging heap) (nonzero : bytes ≠ 0) :
    AllOrNothing paging heap bytes ↔ heap.toNat + 4194304 * wholePages bytes < 4294967296 := by
  obtain ⟨above, below, address⟩ := limit_toNat top
  obtain ⟨pages, count, same⟩ := ksbrk_eq heap paging nonzero
  have sum := checked_toNat heap pages
  have limit : kernHeapEnd.toNat = 1073741824 := rfl
  rw [count] at sum
  constructor
  · intro law
    by_contra wraps
    exact ksbrk_not_refused top nonzero (by omega) (law.refused (by omega))
  · intro fits
    rw [Nat.mod_eq_of_lt fits] at sum
    constructor
    · intro exceeds
      have caught : kernHeapEnd < heap + pages * kPageSize4M := by
        rw [UInt32.lt_iff_toNat_lt, sum]
        exact exceeds
      rw [same, ksbrkPage, if_pos caught]
      rfl
    · intro within room
      have passes : ¬kernHeapEnd < heap + pages * kPageSize4M := by
        rw [UInt32.lt_iff_toNat_lt, sum]
        omega
      have inside : pageIndex4M heap + wholePages bytes ≤ 256 := by omega
      obtain ⟨after, newTop, frames, run, reached, grown⟩ :=
        ksbrkPages_grown top.aligned (by omega) inside top.unmapped room
      refine ⟨after, newTop, frames, ?_, reached, ?_, grown⟩
      · rw [same, ksbrkPage, if_neg passes, count, run]
        rfl
      · rw [reached, wholePages]
        omega

theorem initialized_heapTop (initialized : Initialized paging) : HeapTop paging kernHeapBegin := by
  refine ⟨by decide, by decide, by decide, ?_⟩
  intro pd isLive index above _
  have start : pageIndex4M kernHeapBegin = 8 := by decide
  rw [initialized.only_kernel isLive, initialized.kernel, if_neg (by omega), if_neg (by omega)]
  exact present_zero

/-- 4 GB less one byte are not refused at the bottom of the heap. -/
theorem ksbrk_wraps_past_limit : ∃ paging, initializePaging 131072 (fun _ _ => 0) = .ok paging ∧
    HeapTop paging kernHeapBegin ∧ ¬AllOrNothing paging kernHeapBegin 0xFFFFFFFF := by
  obtain ⟨paging, run, initialized⟩ := initializePaging_succeeds (fun _ _ => 0)
    (show 32 ≤ (131072 : UInt32) * 1024 / kPageSize4M + 1 by decide)
  have top := initialized_heapTop initialized
  refine ⟨paging, run, top, ?_⟩
  intro law
  exact ksbrk_not_refused top (by decide) (by decide) (law.refused (by decide))

theorem ksbrk_allOrNothing_first_page : ∃ paging, initializePaging 131072 (fun _ _ => 0) = .ok paging ∧
    HeapTop paging kernHeapBegin ∧ AllOrNothing paging kernHeapBegin 1 := by
  obtain ⟨paging, run, initialized⟩ := initializePaging_succeeds (fun _ _ => 0)
    (show 32 ≤ (131072 : UInt32) * 1024 / kPageSize4M + 1 by decide)
  have top := initialized_heapTop initialized
  exact ⟨paging, run, top, (ksbrk_allOrNothing_iff top (by decide)).mpr (by decide)⟩

end Kernel

end ToyKernel
