import ToyKernel.Library.Occurrences
import ToyKernel.Paging.Model

/-!
What each paging operation does, said once: which entries it rewrites, how the
reference counts and bitmaps move, and under which conditions it stops at an
assertion. Every invariant is derived from these descriptions.
-/

namespace ToyKernel

open Library

theorem pageIndex4M_eq (address : UInt32) : pageIndex4M address = address.toNat / 4194304 := by
  simp [pageIndex4M, Nat.shiftRight_eq_div_pow]

theorem pageIndex4M_lt (address : UInt32) : pageIndex4M address < 1024 := by
  have bound := address.toNat_lt
  rw [pageIndex4M_eq]
  omega

theorem pageIndex4M_shift (address : UInt32) : pageIndex4M address = address.toNat >>> 22 := by
  simp [pageIndex4M]

theorem pageIndex4M_mask (entry : UInt32) :
    pageIndex4M (entry &&& kPageMask4M) = pageIndex4M entry := by
  have bound := pageIndex4M_lt entry
  have mask : kPageMask4M.toNat >>> 22 = 2 ^ 10 - 1 := by decide
  rw [pageIndex4M_shift] at bound
  rw [pageIndex4M_shift, pageIndex4M_shift, UInt32.toNat_and, Nat.shiftRight_and_distrib, mask,
    Nat.and_two_pow_sub_one_eq_mod, Nat.mod_eq_of_lt bound]

theorem present_eq (entry : UInt32) : present entry = entry.toBitVec.getLsbD 0 := by
  rw [Bool.eq_iff_iff, present, bne_iff_ne, ne_eq, ← UInt32.toBitVec_inj]
  exact and_twoPow_ne_zero entry.toBitVec (show 0 < 32 by decide)

theorem userAccessible_eq (entry : UInt32) :
    userAccessible entry = entry.toBitVec.getLsbD 2 := by
  rw [Bool.eq_iff_iff, userAccessible, bne_iff_ne, ne_eq, ← UInt32.toBitVec_inj]
  exact and_twoPow_ne_zero entry.toBitVec (show 2 < 32 by decide)

@[simp] theorem present_zero : present 0 = false := by decide

@[simp] theorem present_pageEntry (paddr : UInt32) (flags : UInt8) :
    present (pageEntry paddr flags) = true := by
  rw [present_eq]
  simp [pageEntry, pgPresent]

theorem userAccessible_pageEntry (paddr : UInt32) (flags : UInt8) :
    userAccessible (pageEntry paddr flags) = flags.toBitVec.getLsbD 2 := by
  rw [userAccessible_eq]
  simp [pageEntry, pgPresent, kPageMask4M, pg4MB, pgWrite]

@[simp] theorem pageIndex4M_pageEntry (paddr : UInt32) (flags : UInt8) :
    pageIndex4M (pageEntry paddr flags) = pageIndex4M paddr := by
  have small : (pgPresent ||| pg4MB ||| pgWrite ||| flags.toUInt32).toNat < 2 ^ 22 := by
    have bound := flags.toNat_lt
    rw [UInt32.toNat_or]
    refine Nat.or_lt_two_pow (by decide) ?_
    rw [UInt8.toNat_toUInt32]
    omega
  have low : (pgPresent ||| pg4MB ||| pgWrite ||| flags.toUInt32).toNat >>> 22 = 0 := by
    rw [Nat.shiftRight_eq_div_pow, Nat.div_eq_of_lt small]
  have high := pageIndex4M_mask paddr
  rw [pageIndex4M_shift] at high
  rw [pageIndex4M_shift, pageEntry, UInt32.toNat_or, Nat.shiftRight_or_distrib, low, Nat.or_zero, high]

theorem aligned_iff (address : UInt32) :
    address % kPageSize4M = 0 ↔ address.toNat % 4194304 = 0 := by
  rw [← UInt32.toNat_inj, UInt32.toNat_mod]
  rfl

theorem pageAddr4M_toNat {page : Nat} (bound : page < 1024) :
    (pageAddr4M page).toNat = page * 4194304 := by
  have small : (UInt32.ofNat page).toNat = page := UInt32.toNat_ofNat_of_lt' (by
    show page < 4294967296
    omega)
  rw [pageAddr4M, UInt32.toNat_shiftLeft, small, Nat.shiftLeft_eq]
  exact Nat.mod_eq_of_lt (by show page * 4194304 < 4294967296; omega)

theorem pageAddr4M_pageIndex4M {address : UInt32} (aligned : address % kPageSize4M = 0) :
    pageAddr4M (pageIndex4M address) = address := by
  rw [← UInt32.toNat_inj, pageAddr4M_toNat (pageIndex4M_lt address), pageIndex4M_eq]
  rw [aligned_iff] at aligned
  omega

theorem pageIndex4M_pageAddr4M {page : Nat} (bound : page < 1024) :
    pageIndex4M (pageAddr4M page) = page := by
  rw [pageIndex4M_eq, pageAddr4M_toNat bound]
  omega

theorem pageAddr4M_aligned {page : Nat} (bound : page < 1024) : pageAddr4M page % kPageSize4M = 0 := by
  rw [aligned_iff, pageAddr4M_toNat bound]
  omega

theorem isReplicated_user {index : Nat} (above : 256 ≤ index) (bound : index < 1024) :
    isReplicated (pageAddr4M index) = false := by
  have address := pageAddr4M_toNat bound
  have code : isKernelCode (pageAddr4M index) = false := by
    simp only [isKernelCode, kernelEnd, Bool.and_eq_false_imp, decide_eq_true_eq,
      decide_eq_false_iff_not, UInt32.lt_iff_toNat_lt, address]
    intro _
    show ¬index * 4194304 < 8388608
    omega
  have heap : isKernelHeap (pageAddr4M index) = false := by
    simp only [isKernelHeap, kernHeapEnd, Bool.and_eq_false_imp, decide_eq_true_eq,
      decide_eq_false_iff_not, UInt32.lt_iff_toNat_lt, address]
    intro _
    show ¬index * 4194304 < 1073741824
    omega
  have region : isPageDirRegion (pageAddr4M index) = false := by
    simp only [isPageDirRegion, pageDirectoryRegionEnd, Bool.and_eq_false_imp, decide_eq_true_eq,
      decide_eq_false_iff_not, UInt32.lt_iff_toNat_lt, address]
    intro _
    show ¬index * 4194304 < 12582912
    omega
  rw [isReplicated, code, heap, region]
  rfl

namespace PhysicalBitmap4M

variable {bitmap after : PhysicalBitmap4M} {page : Nat}

def count (bitmap : PhysicalBitmap4M) (page : Nat) : Nat := (bitmap.refs page).toNat

theorem count_lt (bitmap : PhysicalBitmap4M) (page : Nat) : bitmap.count page < 65536 :=
  (bitmap.refs page).toNat_lt

theorem count_setRef (bitmap : PhysicalBitmap4M) (page query : Nat) (count : UInt16) :
    (bitmap.setRef page count).count query =
      if query = page then count.toNat else bitmap.count query := by
  by_cases same : query = page <;> simp [PhysicalBitmap4M.count, setRef, same]

theorem count_ref (bitmap : PhysicalBitmap4M) (page query : Nat) :
    (bitmap.ref page).count query =
      if query = page then (bitmap.count query + 1) % 65536 else bitmap.count query := by
  rw [ref, count_setRef]
  by_cases same : query = page
  · rw [if_pos same, if_pos same, UInt16.toNat_add, same]
    rfl
  · rw [if_neg same, if_neg same]

theorem setPageFrameUsed_eq (bitmap : PhysicalBitmap4M) (inRange : page < 1024) :
    ∃ after, setPageFrameUsed page bitmap = .ok after ∧
      (∀ query, after.count query =
        if query = page then (bitmap.count query + 1) % 65536 else bitmap.count query) ∧
      ∀ query, after.bits.isSet query = true ↔ query = page ∨ bitmap.bits.isSet query = true := by
  obtain ⟨bits, set, isSet⟩ := BitArray.setOne_eq (bitmap.ref page).bits inRange
  refine ⟨{ bitmap.ref page with bits }, ?_, fun query => count_ref bitmap page query, isSet⟩
  rw [setPageFrameUsed]
  dsimp only
  rw [set]
  rfl

theorem setPageFrameFree_eq (bitmap : PhysicalBitmap4M) (inRange : page < 1024)
    (referenced : bitmap.count page ≠ 0) :
    ∃ after, setPageFrameFree page bitmap = .ok after ∧
      (∀ query, after.count query =
        if query = page then bitmap.count query - 1 else bitmap.count query) ∧
      ∀ query, after.bits.isSet query = true ↔
        bitmap.bits.isSet query = true ∧ ¬(query = page ∧ bitmap.count page = 1) := by
  have nonzero : bitmap.refs page ≠ 0 := by
    intro zero
    rw [count, zero] at referenced
    exact referenced rfl
  have decreased : (bitmap.refs page - 1).toNat = bitmap.count page - 1 := by
    have bound := bitmap.count_lt page
    rw [count] at referenced bound ⊢
    rw [UInt16.toNat_sub_of_le _ _ (by rw [UInt16.le_iff_toNat_le]; exact Nat.pos_of_ne_zero referenced)]
    rfl
  have counts : ∀ query, (bitmap.setRef page (bitmap.refs page - 1)).count query =
      if query = page then bitmap.count query - 1 else bitmap.count query := by
    intro query
    rw [count_setRef, decreased]
    by_cases same : query = page
    · rw [if_pos same, if_pos same, same]
    · rw [if_neg same, if_neg same]
  have last : (bitmap.setRef page (bitmap.refs page - 1)).refs page = 0 ↔ bitmap.count page = 1 := by
    have counted := counts page
    rw [if_pos rfl, count] at counted
    rw [← UInt16.toNat_inj, counted]
    show bitmap.count page - 1 = 0 ↔ _
    omega
  rw [setPageFrameFree, unref, require_of nonzero, ok_bind]
  simp only [pure_bind]
  by_cases isLast : (bitmap.setRef page (bitmap.refs page - 1)).refs page = 0
  · obtain ⟨bits, set, isSet⟩ :=
      BitArray.setZero_eq (bitmap.setRef page (bitmap.refs page - 1)).bits inRange
    refine ⟨{ bitmap.setRef page (bitmap.refs page - 1) with bits }, ?_, counts, ?_⟩
    · rw [if_pos isLast, set]
      rfl
    · intro query
      rw [isSet]
      have only := last.mp isLast
      show query ≠ page ∧ bitmap.bits.isSet query = true ↔ _
      tauto
  · refine ⟨bitmap.setRef page (bitmap.refs page - 1), by rw [if_neg isLast]; rfl, counts, ?_⟩
    intro query
    have more := mt last.mpr isLast
    show bitmap.bits.isSet query = true ↔ _
    tauto

theorem setPageFrameFree_unreferenced (unreferenced : bitmap.count page = 0) :
    setPageFrameFree page bitmap = .error .unreferencedPage := by
  have zero : bitmap.refs page = 0 := by
    rw [← UInt16.toNat_inj]
    exact unreferenced
  simp [setPageFrameFree, unref, require, zero, Bind.bind, Except.bind]

theorem nextFreePhysicalPage_eq_ok {start : Nat} {paddr : UInt32}
    (found : nextFreePhysicalPage start bitmap = .ok paddr) :
    paddr % kPageSize4M = 0 ∧ start ≤ pageIndex4M paddr ∧
      bitmap.bits.isSet (pageIndex4M paddr) = false := by
  unfold nextFreePhysicalPage at found
  split at found
  · rename_i page first
    obtain ⟨above, inRange, isZero⟩ := BitArray.getFirstZero_eq_some first
    have bound : page < 1024 := inRange
    have small : (UInt32.ofNat page).toNat = page := UInt32.toNat_ofNat_of_lt' (by
      show page < 4294967296
      omega)
    have address : (UInt32.ofNat page * kPageSize4M).toNat = page * 4194304 := by
      rw [UInt32.toNat_mul, small]
      exact Nat.mod_eq_of_lt (by show page * 4194304 < 4294967296; omega)
    injection found with same
    rw [← same, aligned_iff, pageIndex4M_eq, address]
    refine ⟨by omega, by omega, ?_⟩
    rwa [Nat.mul_div_cancel _ (by decide)]
  · cases found

end PhysicalBitmap4M

def frameOf (entry : UInt32) : Option Nat :=
  if present entry then some (pageIndex4M entry) else none

@[simp] theorem frameOf_zero : frameOf 0 = none := by decide

@[simp] theorem frameOf_pageEntry (paddr : UInt32) (flags : UInt8) :
    frameOf (pageEntry paddr flags) = some (pageIndex4M paddr) := by
  simp [frameOf]

theorem frameOf_eq_none {entry : UInt32} : frameOf entry = none ↔ present entry = false := by
  simp [frameOf]

theorem frameOf_eq_some {entry : UInt32} {frame : Nat} :
    frameOf entry = some frame ↔ present entry = true ∧ pageIndex4M entry = frame := by
  simp [frameOf]

namespace Paging

def count (state : Paging) (frame : Nat) : Nat := state.physicalBitmap.count frame

def frameUsed (state : Paging) (frame : Nat) : Bool := state.physicalBitmap.isPageFrameUsed frame

def slots (state : Paging) : Finset Nat :=
  (Finset.range kNumPageDirs).filter fun slot => state.pageDirRegion.isSet slot = true

def clones (state : Paging) : Finset PageDirPtr :=
  state.slots.image PageDirPtr.region

def live (state : Paging) : Finset PageDirPtr := insert .kernel state.clones

theorem mem_slots {state : Paging} {slot : Nat} :
    slot ∈ state.slots ↔ slot < 1024 ∧ state.pageDirRegion.isSet slot = true := by
  rw [slots, Finset.mem_filter, Finset.mem_range]
  rfl

theorem slots_congr {old new : Paging} (same : new.pageDirRegion = old.pageDirRegion) :
    new.slots = old.slots := by
  rw [slots, slots, same]

attribute [irreducible] slots

theorem mem_clones {state : Paging} {pd : PageDirPtr} :
    pd ∈ state.clones ↔ ∃ slot ∈ state.slots, .region slot = pd := by
  simp [clones]

@[simp] theorem kernel_mem_live (state : Paging) : .kernel ∈ state.live := Finset.mem_insert_self _ _

@[simp] theorem region_mem_live {state : Paging} {slot : Nat} :
    .region slot ∈ state.live ↔ slot ∈ state.slots := by
  simp [live, clones]

def targets (state : Paging) (pd : PageDirPtr) (vaddr : UInt32) : Finset PageDirPtr :=
  if pd = .kernel ∧ isReplicated vaddr = true then state.live else {pd}

theorem self_mem_targets (state : Paging) (pd : PageDirPtr) (vaddr : UInt32) :
    pd ∈ state.targets pd vaddr := by
  unfold targets
  split
  · rename_i shared
    rw [shared.1]
    exact kernel_mem_live state
  · simp

theorem targets_own {state : Paging} {pd : PageDirPtr} {vaddr : UInt32}
    (own : pd = .kernel → isReplicated vaddr = false) : state.targets pd vaddr = {pd} := by
  unfold targets
  split
  · rename_i shared
    rw [own shared.1] at shared
    exact absurd shared.2 (by decide)
  · rfl

structure Installed (old new : Paging) (targets : Finset PageDirPtr) (index : Nat) (entry : UInt32)
    (page : Nat) : Prop where
  pageDirs : ∀ pd i, new.pageDirs pd i =
    if pd ∈ targets ∧ i = index then entry else old.pageDirs pd i
  count : ∀ query, new.count query =
    if query = page then (old.count query + targets.card) % 65536 else old.count query
  used : ∀ query, new.frameUsed query = true ↔ query = page ∨ old.frameUsed query = true
  region : new.pageDirRegion = old.pageDirRegion
  empty : ∀ pd ∈ targets, present (old.pageDirs pd index) = false

structure Cleared (old new : Paging) (targets : Finset PageDirPtr) (index : Nat) (page : Nat) :
    Prop where
  pageDirs : ∀ pd i, new.pageDirs pd i =
    if pd ∈ targets ∧ i = index then 0 else old.pageDirs pd i
  enough : targets.card ≤ old.count page
  count : ∀ query, new.count query =
    if query = page then old.count query - targets.card else old.count query
  used : ∀ query, new.frameUsed query = true ↔
    old.frameUsed query = true ∧ ¬(query = page ∧ old.count page = targets.card)
  region : new.pageDirRegion = old.pageDirRegion

variable {state after middle old new : Paging} {pd : PageDirPtr} {index page : Nat} {entry : UInt32}
  {targets : Finset PageDirPtr}

theorem installEntry_eq (state : Paging) (inRange : page < 1024)
    (empty : present (state.pageDirs pd index) = false) :
    ∃ after, installEntry pd index entry page state = .ok after ∧
      Installed state after {pd} index entry page := by
  obtain ⟨bitmap, set, counts, bits⟩ :=
    PhysicalBitmap4M.setPageFrameUsed_eq state.physicalBitmap inRange
  refine ⟨{ setEntry pd index entry state with physicalBitmap := bitmap }, ?_, ?_⟩
  · rw [installEntry]
    dsimp only
    rw [show (setEntry pd index entry state).physicalBitmap = state.physicalBitmap from rfl, set]
    rfl
  · refine ⟨?_, ?_, bits, rfl, ?_⟩
    · intro query i
      simp only [setEntry, Finset.mem_singleton]
    · intro query
      rw [Finset.card_singleton]
      exact counts query
    · intro query member
      rw [Finset.mem_singleton.mp member]
      exact empty

theorem Installed.step (first : Installed old middle targets index entry page)
    (second : Installed middle new {pd} index entry page) (fresh : pd ∉ targets) :
    Installed old new (insert pd targets) index entry page := by
  refine ⟨?_, ?_, ?_, second.region.trans first.region, ?_⟩
  · intro query i
    rw [second.pageDirs, first.pageDirs]
    simp only [Finset.mem_singleton, Finset.mem_insert]
    by_cases here : i = index
    · by_cases same : query = pd <;> simp [here, same]
    · simp [here]
  · intro query
    rw [second.count, first.count, Finset.card_singleton, Finset.card_insert_of_notMem fresh]
    split
    · omega
    · rfl
  · intro query
    rw [second.used, first.used]
    tauto
  · intro query member
    rcases Finset.mem_insert.mp member with rfl | listed
    · have kept := second.empty query (Finset.mem_singleton_self query)
      rw [first.pageDirs] at kept
      simpa [fresh] using kept
    · exact first.empty query listed

theorem clearEntry_eq (state : Paging) (inRange : page < 1024) (referenced : state.count page ≠ 0) :
    ∃ after, clearEntry pd index page state = .ok after ∧ Cleared state after {pd} index page := by
  obtain ⟨bitmap, set, counts, bits⟩ :=
    PhysicalBitmap4M.setPageFrameFree_eq state.physicalBitmap inRange referenced
  refine ⟨{ setEntry pd index 0 state with physicalBitmap := bitmap }, ?_, ?_⟩
  · rw [clearEntry]
    dsimp only
    rw [show (setEntry pd index 0 state).physicalBitmap = state.physicalBitmap from rfl, set]
    rfl
  · refine ⟨?_, ?_, ?_, ?_, rfl⟩
    · intro query i
      simp only [setEntry, Finset.mem_singleton]
    · rw [Finset.card_singleton]
      omega
    · intro query
      rw [Finset.card_singleton]
      exact counts query
    · intro query
      rw [Finset.card_singleton]
      exact bits query

theorem clearEntry_unreferenced (unreferenced : state.count page = 0) :
    clearEntry pd index page state = .error .unreferencedPage := by
  rw [clearEntry, show (setEntry pd index 0 state).physicalBitmap = state.physicalBitmap from rfl,
    PhysicalBitmap4M.setPageFrameFree_unreferenced unreferenced]
  rfl

theorem Cleared.step (first : Cleared old middle targets index page)
    (second : Cleared middle new {pd} index page) (fresh : pd ∉ targets) :
    Cleared old new (insert pd targets) index page := by
  have enough := first.enough
  have more := second.enough
  rw [first.count, if_pos rfl, Finset.card_singleton] at more
  refine ⟨?_, ?_, ?_, ?_, second.region.trans first.region⟩
  · intro query i
    rw [second.pageDirs, first.pageDirs]
    simp only [Finset.mem_singleton, Finset.mem_insert]
    by_cases here : i = index
    · by_cases same : query = pd <;> simp [here, same]
    · simp [here]
  · rw [Finset.card_insert_of_notMem fresh]
    omega
  · intro query
    rw [second.count, first.count, Finset.card_singleton, Finset.card_insert_of_notMem fresh]
    split
    · omega
    · rfl
  · intro query
    rw [second.used, first.used, first.count, if_pos rfl, Finset.card_singleton,
      Finset.card_insert_of_notMem fresh]
    have last : old.count page - targets.card = 1 ↔ old.count page = targets.card + 1 := by omega
    have notYet : ¬old.count page = targets.card := by omega
    rw [last]
    tauto

def reach (region : BitArray kNumPageDirs) : List Nat → Finset PageDirPtr → Finset PageDirPtr
  | [], targets => targets
  | bit :: rest, targets =>
      if region.isSet bit then reach region rest (insert (.region bit) targets)
      else reach region rest targets

theorem mem_reach {region : BitArray kNumPageDirs} {bits : List Nat} {targets : Finset PageDirPtr}
    {pd : PageDirPtr} : pd ∈ reach region bits targets ↔
      pd ∈ targets ∨ ∃ bit ∈ bits, region.isSet bit = true ∧ pd = .region bit := by
  induction bits generalizing targets with
  | nil => simp [reach]
  | cons bit rest ih =>
      by_cases isSet : region.isSet bit = true
      · rw [reach, if_pos isSet, ih]
        simp [isSet, or_assoc, or_comm]
      · rw [reach, if_neg isSet, ih]
        simp [isSet]

theorem reach_kernel (state : Paging) :
    reach state.pageDirRegion (List.range kNumPageDirs) {.kernel} = state.live := by
  ext pd
  rw [mem_reach, live, Finset.mem_insert, Finset.mem_singleton, mem_clones]
  simp only [List.mem_range, mem_slots]
  constructor
  · rintro (same | ⟨bit, bound, isSet, same⟩)
    · exact Or.inl same
    · exact Or.inr ⟨bit, ⟨bound, isSet⟩, same.symm⟩
  · rintro (same | ⟨bit, ⟨bound, isSet⟩, same⟩)
    · exact Or.inl same
    · exact Or.inr ⟨bit, bound, isSet, same.symm⟩

theorem fresh_insert {bit : Nat} {rest : List Nat} (distinct : (bit :: rest).Nodup)
    (fresh : ∀ other ∈ bit :: rest, .region other ∉ targets) :
    ∀ other ∈ rest, .region other ∉ insert (.region bit) targets := by
  intro other member listed
  rcases Finset.mem_insert.mp listed with equal | earlier
  · injection equal with equal
    exact (List.nodup_cons.mp distinct).1 (equal ▸ member)
  · exact fresh other (List.mem_cons_of_mem _ member) earlier

theorem propagateAdd_spec (bits : List Nat) (distinct : bits.Nodup) (inRange : page < 1024)
    (installed : Installed old state targets index entry page)
    (fresh : ∀ bit ∈ bits, .region bit ∉ targets) :
    Returns (propagateAdd index entry page bits state)
      (fun fault => fault = .otherEntryUsed ∧ ∃ pd ∈ reach old.pageDirRegion bits targets,
        pd ∉ targets ∧ present (old.pageDirs pd index) = true)
      (fun after =>
        Installed old after (reach old.pageDirRegion bits targets) index entry page) := by
  induction bits generalizing state targets with
  | nil => exact returns_pure.mpr installed
  | cons bit rest ih =>
      have restDistinct := (List.nodup_cons.mp distinct).2
      have bitFresh := fresh bit List.mem_cons_self
      have same : state.pageDirs (.region bit) index = old.pageDirs (.region bit) index := by
        rw [installed.pageDirs, if_neg (by simp [bitFresh])]
      rw [propagateAdd, installed.region, reach]
      by_cases isSet : old.pageDirRegion.isSet bit = true
      · rw [if_pos isSet, if_pos isSet, same]
        by_cases empty : present (old.pageDirs (.region bit) index) = false
        · obtain ⟨next, ok, one⟩ := installEntry_eq state inRange
            (show present (state.pageDirs (.region bit) index) = false by rw [same]; exact empty)
          rw [require_of empty, ok_bind, ok, ok_bind]
          refine (ih restDistinct (installed.step one bitFresh) (fresh_insert distinct fresh)).weaken ?_
          rintro fault ⟨isUsed, pd, reached, notListed, holds⟩
          exact ⟨isUsed, pd, reached, fun listed => notListed (Finset.mem_insert_of_mem listed), holds⟩
        · refine returns_require_or ⟨rfl, .region bit, ?_, bitFresh, by simpa using empty⟩ ?_
          · exact mem_reach.mpr (Or.inl (Finset.mem_insert_self _ _))
          · intro holds
            exact absurd holds empty
      · rw [if_neg isSet, if_neg isSet]
        exact ih restDistinct installed fun other member => fresh other (List.mem_cons_of_mem _ member)

theorem propagateRemove_spec (bits : List Nat) (distinct : bits.Nodup) (inRange : page < 1024)
    (cleared : Cleared old state targets index page) (fresh : ∀ bit ∈ bits, .region bit ∉ targets) :
    Returns (propagateRemove index page bits state)
      (fun fault => (fault = .otherEntryMissing ∧ ∃ pd ∈ reach old.pageDirRegion bits targets,
          pd ∉ targets ∧ present (old.pageDirs pd index) = false) ∨
        (fault = .unreferencedPage ∧ old.count page < (reach old.pageDirRegion bits targets).card))
      (fun after => Cleared old after (reach old.pageDirRegion bits targets) index page ∧
        ∀ pd ∈ reach old.pageDirRegion bits targets, pd ∉ targets →
          present (old.pageDirs pd index) = true) := by
  induction bits generalizing state targets with
  | nil => exact returns_pure.mpr ⟨cleared, fun pd reached notListed => absurd reached notListed⟩
  | cons bit rest ih =>
      have restDistinct := (List.nodup_cons.mp distinct).2
      have bitFresh := fresh bit List.mem_cons_self
      have same : state.pageDirs (.region bit) index = old.pageDirs (.region bit) index := by
        rw [cleared.pageDirs, if_neg (by simp [bitFresh])]
      rw [propagateRemove, cleared.region, reach]
      by_cases isSet : old.pageDirRegion.isSet bit = true
      · rw [if_pos isSet, if_pos isSet, same]
        have bitReached : PageDirPtr.region bit ∈
            reach old.pageDirRegion rest (insert (.region bit) targets) :=
          mem_reach.mpr (Or.inl (Finset.mem_insert_self _ _))
        by_cases isPresent : present (old.pageDirs (.region bit) index) = true
        · rw [require_of isPresent, ok_bind]
          by_cases referenced : state.count page = 0
          · rw [clearEntry_unreferenced referenced]
            refine returns_error.mpr (Or.inr ⟨rfl, ?_⟩)
            have counted := cleared.count page
            rw [if_pos rfl, referenced] at counted
            have enough := cleared.enough
            have grows : (insert (.region bit) targets).card ≤
                (reach old.pageDirRegion rest (insert (.region bit) targets)).card :=
              Finset.card_le_card fun pd member => mem_reach.mpr (Or.inl member)
            rw [Finset.card_insert_of_notMem bitFresh] at grows
            omega
          · obtain ⟨next, ok, one⟩ := clearEntry_eq state inRange referenced
            rw [ok, ok_bind]
            refine ((ih restDistinct (cleared.step one bitFresh) (fresh_insert distinct fresh)).mono
              ?_).weaken ?_
            · rintro after ⟨effect, others⟩
              refine ⟨effect, ?_⟩
              intro pd reached notListed
              by_cases new : pd = .region bit
              · rw [new]
                exact isPresent
              · exact others pd reached (by simp [new, notListed])
            · rintro fault (⟨isMissing, pd, reached, notListed, holds⟩ | few)
              · exact Or.inl ⟨isMissing, pd, reached,
                  fun listed => notListed (Finset.mem_insert_of_mem listed), holds⟩
              · exact Or.inr few
        · refine returns_require_or (Or.inl ⟨rfl, .region bit, bitReached, bitFresh, ?_⟩) ?_
          · simpa using isPresent
          · intro holds
            exact absurd holds isPresent
      · rw [if_neg isSet, if_neg isSet]
        exact ih restDistinct cleared fun other member => fresh other (List.mem_cons_of_mem _ member)

def AddFault (state : Paging) (pd : PageDirPtr) (vaddr paddr : UInt32) (allowPhysicalReuse : Bool) :
    Fault → Prop
  | .unalignedPhysical => paddr % kPageSize4M ≠ 0
  | .unalignedVirtual => vaddr % kPageSize4M ≠ 0
  | .frameAlreadyUsed =>
      allowPhysicalReuse = false ∧ state.frameUsed (pageIndex4M paddr) = true
  | .entryAlreadyAssigned => present (state.pageDirs pd (pageIndex4M vaddr)) = true
  | .otherEntryUsed => vaddr % kPageSize4M = 0 ∧
      present (state.pageDirs pd (pageIndex4M vaddr)) = false ∧
      ∃ other ∈ state.targets pd vaddr, other ≠ pd ∧
        present (state.pageDirs other (pageIndex4M vaddr)) = true
  | _ => False

theorem addPage_spec (state : Paging) (pd : PageDirPtr) (vaddr paddr : UInt32) (flags : UInt8)
    (allowPhysicalReuse : Bool) :
    Returns (addPage pd vaddr paddr flags allowPhysicalReuse state)
      (AddFault state pd vaddr paddr allowPhysicalReuse)
      (fun after => paddr % kPageSize4M = 0 ∧ vaddr % kPageSize4M = 0 ∧
        (allowPhysicalReuse = false → state.frameUsed (pageIndex4M paddr) = false) ∧
        Installed state after (state.targets pd vaddr) (pageIndex4M vaddr) (pageEntry paddr flags)
          (pageIndex4M paddr)) := by
  refine returns_require id fun physical => returns_require id fun virtual => ?_
  refine returns_require (by simp [AddFault, frameUsed]) fun unused => ?_
  refine returns_require (by simp [AddFault]) fun empty => ?_
  obtain ⟨middle, ok, installed⟩ := installEntry_eq state (pageIndex4M_lt paddr) empty
  dsimp only
  rw [ok, ok_bind]
  by_cases shared : pd = .kernel ∧ isReplicated vaddr = true
  · obtain ⟨rfl, replicated⟩ := shared
    have reached : state.targets .kernel vaddr = state.live := if_pos ⟨rfl, replicated⟩
    have spec := propagateAdd_spec (List.range kNumPageDirs) List.nodup_range
      (pageIndex4M_lt paddr) installed (by simp)
    rw [reach_kernel, ← reached] at spec
    rw [if_pos ⟨rfl, replicated⟩]
    refine (spec.mono fun after effect => ⟨physical, virtual, unused, effect⟩).weaken ?_
    rintro fault ⟨rfl, other, listed, different, holds⟩
    exact ⟨virtual, empty, other, listed, by simpa using different, holds⟩
  · rw [if_neg shared, targets, if_neg shared]
    exact returns_pure.mpr ⟨physical, virtual, unused, installed⟩

theorem addPage_succeeds {vaddr paddr : UInt32} (flags : UInt8) {allowPhysicalReuse : Bool}
    (physical : paddr % kPageSize4M = 0) (virtual : vaddr % kPageSize4M = 0)
    (unused : allowPhysicalReuse = false → state.frameUsed (pageIndex4M paddr) = false)
    (empty : ∀ other ∈ state.targets pd vaddr,
      present (state.pageDirs other (pageIndex4M vaddr)) = false) :
    ∃ after, addPage pd vaddr paddr flags allowPhysicalReuse state = .ok after ∧
      Installed state after (state.targets pd vaddr) (pageIndex4M vaddr) (pageEntry paddr flags)
        (pageIndex4M paddr) := by
  have spec := addPage_spec state pd vaddr paddr flags allowPhysicalReuse
  cases run : addPage pd vaddr paddr flags allowPhysicalReuse state with
  | ok after => exact ⟨after, rfl, (spec.of_ok run).2.2.2⟩
  | error fault =>
      have failed := spec.of_error run
      have own := empty pd (self_mem_targets state pd vaddr)
      cases fault <;> simp only [AddFault] at failed
      case unalignedPhysical => exact absurd physical failed
      case unalignedVirtual => exact absurd virtual failed
      case frameAlreadyUsed =>
        rw [unused failed.1] at failed
        exact absurd failed.2 (by simp)
      case entryAlreadyAssigned =>
        rw [own] at failed
        cases failed
      case otherEntryUsed =>
        obtain ⟨_, _, other, listed, _, holds⟩ := failed
        rw [empty other listed] at holds
        cases holds

theorem addPage_own_succeeds {vaddr paddr : UInt32} (flags : UInt8) {allowPhysicalReuse : Bool}
    (own : pd = .kernel → isReplicated vaddr = false)
    (physical : paddr % kPageSize4M = 0) (virtual : vaddr % kPageSize4M = 0)
    (unused : allowPhysicalReuse = false → state.frameUsed (pageIndex4M paddr) = false)
    (empty : present (state.pageDirs pd (pageIndex4M vaddr)) = false) :
    ∃ after, addPage pd vaddr paddr flags allowPhysicalReuse state = .ok after ∧
      Installed state after {pd} (pageIndex4M vaddr) (pageEntry paddr flags) (pageIndex4M paddr) := by
  rw [← targets_own own]
  refine addPage_succeeds flags physical virtual unused ?_
  rw [targets_own own]
  intro other member
  rw [Finset.mem_singleton.mp member]
  exact empty

def RemoveFault (state : Paging) (pd : PageDirPtr) (vaddr : UInt32) : Fault → Prop
  | .unalignedVirtual => vaddr % kPageSize4M ≠ 0
  | .unreferencedPage =>
      state.count (pageIndex4M (state.pageDirs pd (pageIndex4M vaddr))) <
        (state.targets pd vaddr).card
  | .otherEntryMissing => vaddr % kPageSize4M = 0 ∧
      ∃ other ∈ state.targets pd vaddr, other ≠ pd ∧
        present (state.pageDirs other (pageIndex4M vaddr)) = false
  | _ => False

theorem removePage_spec (state : Paging) (pd : PageDirPtr) (vaddr : UInt32) :
    Returns (removePage pd vaddr state) (RemoveFault state pd vaddr)
      (fun after => vaddr % kPageSize4M = 0 ∧
        Cleared state after (state.targets pd vaddr) (pageIndex4M vaddr)
          (pageIndex4M (state.pageDirs pd (pageIndex4M vaddr))) ∧
        ∀ other ∈ state.targets pd vaddr, other ≠ pd →
          present (state.pageDirs other (pageIndex4M vaddr)) = true) := by
  refine returns_require id fun virtual => ?_
  dsimp only
  rw [pageIndex4M_mask]
  have self := Finset.card_pos.mpr ⟨pd, self_mem_targets state pd vaddr⟩
  by_cases unreferenced : state.count (pageIndex4M (state.pageDirs pd (pageIndex4M vaddr))) = 0
  · rw [clearEntry_unreferenced unreferenced]
    refine returns_error.mpr ?_
    simp only [RemoveFault]
    omega
  · obtain ⟨middle, ok, cleared⟩ := clearEntry_eq state (pageIndex4M_lt _) unreferenced
    rw [ok, ok_bind]
    by_cases shared : pd = .kernel ∧ isReplicated vaddr = true
    · obtain ⟨rfl, replicated⟩ := shared
      have reached : state.targets .kernel vaddr = state.live := if_pos ⟨rfl, replicated⟩
      have spec := propagateRemove_spec (List.range kNumPageDirs) List.nodup_range
        (pageIndex4M_lt _) cleared (by simp)
      rw [reach_kernel, ← reached] at spec
      rw [if_pos ⟨rfl, replicated⟩]
      refine (spec.mono ?_).weaken ?_
      · rintro after ⟨effect, others⟩
        exact ⟨virtual, effect, fun other listed different => others other listed (by simpa using different)⟩
      · rintro fault (⟨rfl, other, listed, different, holds⟩ | ⟨rfl, few⟩)
        · exact ⟨virtual, other, listed, by simpa using different, holds⟩
        · exact few
    · rw [if_neg shared, targets, if_neg shared]
      exact returns_pure.mpr ⟨virtual, cleared, fun other listed different => by simp_all⟩

theorem removePage_succeeds {vaddr : UInt32} (virtual : vaddr % kPageSize4M = 0)
    (enough : (state.targets pd vaddr).card ≤
      state.count (pageIndex4M (state.pageDirs pd (pageIndex4M vaddr))))
    (others : ∀ other ∈ state.targets pd vaddr, other ≠ pd →
      present (state.pageDirs other (pageIndex4M vaddr)) = true) :
    ∃ after, removePage pd vaddr state = .ok after ∧
      Cleared state after (state.targets pd vaddr) (pageIndex4M vaddr)
        (pageIndex4M (state.pageDirs pd (pageIndex4M vaddr))) := by
  have spec := removePage_spec state pd vaddr
  cases run : removePage pd vaddr state with
  | ok after => exact ⟨after, rfl, (spec.of_ok run).2.1⟩
  | error fault =>
      have failed := spec.of_error run
      cases fault <;> simp only [RemoveFault] at failed
      case unalignedVirtual => exact absurd virtual failed
      case unreferencedPage => omega
      case otherEntryMissing =>
        obtain ⟨_, other, listed, different, holds⟩ := failed
        rw [others other listed different] at holds
        cases holds

def indices : Finset Nat := Finset.range kNumPageDirEntries

theorem mem_indices {index : Nat} : index ∈ indices ↔ index < 1024 := by
  rw [indices, Finset.mem_range]
  rfl

def mapCount (state : Paging) (pd : PageDirPtr) (frame : Nat) : Nat :=
  occurrences indices (fun index => frameOf (state.pageDirs pd index)) frame

def entryCount (entries : List UInt32) (frame : Nat) : Nat :=
  entries.countP fun entry => frameOf entry = some frame

theorem entryCount_cons (entry : UInt32) (rest : List UInt32) (frame : Nat) :
    entryCount (entry :: rest) frame =
      entryCount rest frame + if frameOf entry = some frame then 1 else 0 := by
  simp [entryCount, List.countP_cons]

theorem entryCount_entries (state : Paging) (pd : PageDirPtr) (frame : Nat) :
    entryCount (state.entries pd) frame = state.mapCount pd frame := by
  rw [entryCount, entries, List.countP_map, mapCount, occurrences, List.countP_eq_length_filter]
  rfl

attribute [irreducible] indices

theorem entryCount_absent {entry : UInt32} (absent : present entry = false) (rest : List UInt32)
    (frame : Nat) : entryCount (entry :: rest) frame = entryCount rest frame := by
  rw [entryCount_cons, frameOf_eq_none.mpr absent]
  simp

theorem entryCount_present {entry : UInt32} (isPresent : present entry = true) (rest : List UInt32)
    (frame : Nat) : entryCount (entry :: rest) frame =
      entryCount rest frame + if frame = pageIndex4M entry then 1 else 0 := by
  rw [entryCount_cons, frameOf_eq_some.mpr ⟨isPresent, rfl⟩]
  simp [eq_comm]

theorem refEntries_eq (list : List UInt32) (bitmap : PhysicalBitmap4M) :
    (refEntries list bitmap).bits = bitmap.bits ∧ ∀ frame,
      (refEntries list bitmap).count frame = (bitmap.count frame + entryCount list frame) % 65536 := by
  induction list generalizing bitmap with
  | nil =>
      refine ⟨rfl, fun frame => ?_⟩
      exact (Nat.mod_eq_of_lt (bitmap.count_lt frame)).symm
  | cons entry rest ih =>
      by_cases isPresent : present entry = true
      · rw [refEntries, if_pos isPresent]
        obtain ⟨bits, counts⟩ := ih (bitmap.ref (pageIndex4M entry))
        refine ⟨bits, fun frame => ?_⟩
        rw [counts, PhysicalBitmap4M.count_ref, entryCount_present isPresent]
        split <;> omega
      · rw [refEntries, if_neg isPresent]
        obtain ⟨bits, counts⟩ := ih bitmap
        refine ⟨bits, fun frame => ?_⟩
        rw [counts, entryCount_absent (by simpa using isPresent)]

theorem freeEntries_spec (list : List UInt32) (bitmap : PhysicalBitmap4M) :
    Returns (freeEntries list bitmap)
      (fun fault => fault = .unreferencedPage ∧ ∃ frame, bitmap.count frame < entryCount list frame)
      (fun after => ∀ frame, entryCount list frame ≤ bitmap.count frame ∧
        after.count frame = bitmap.count frame - entryCount list frame ∧
        (after.bits.isSet frame = true ↔ bitmap.bits.isSet frame = true ∧
          ¬(entryCount list frame ≠ 0 ∧ bitmap.count frame = entryCount list frame))) := by
  induction list generalizing bitmap with
  | nil => exact returns_pure.mpr fun frame => by simp [entryCount]
  | cons entry rest ih =>
      rw [freeEntries]
      by_cases isPresent : present entry = true
      · rw [if_pos isPresent]
        have counted := entryCount_present isPresent rest
        by_cases unreferenced : bitmap.count (pageIndex4M entry) = 0
        · rw [PhysicalBitmap4M.setPageFrameFree_unreferenced unreferenced]
          refine returns_error.mpr ⟨rfl, pageIndex4M entry, ?_⟩
          rw [counted, if_pos rfl]
          omega
        · obtain ⟨next, ok, counts, bits⟩ :=
            PhysicalBitmap4M.setPageFrameFree_eq bitmap (pageIndex4M_lt entry) unreferenced
          rw [ok, ok_bind]
          refine ((ih next).mono ?_).weaken ?_
          · intro after effect frame
            obtain ⟨enough, after_count, after_bits⟩ := effect frame
            rw [counts] at enough after_count after_bits
            rw [bits] at after_bits
            rw [counted, after_count, after_bits]
            by_cases same : frame = pageIndex4M entry
            · subst same
              simp only [if_true] at enough ⊢
              refine ⟨by omega, by omega, ?_⟩
              by_cases isSet : bitmap.bits.isSet (pageIndex4M entry) = true
              · simp only [isSet, true_and]
                omega
              · simp [isSet]
            · rw [if_neg same] at enough ⊢
              simp [same]
              omega
          · rintro fault ⟨isUnref, frame, few⟩
            refine ⟨isUnref, frame, ?_⟩
            rw [counts] at few
            rw [counted]
            split at few <;> split <;> omega
      · rw [if_neg isPresent]
        simp only [entryCount_absent (show present entry = false by simpa using isPresent)]
        exact ih bitmap

structure Cloned (old new : Paging) (pd : PageDirPtr) (slot : Nat) : Prop where
  fresh : slot ∉ old.slots
  slots : new.slots = insert slot old.slots
  pageDirs : ∀ query, new.pageDirs query =
    if query = .region slot then old.pageDirs pd else old.pageDirs query
  count : ∀ frame, new.count frame = (old.count frame + old.mapCount pd frame) % 65536
  used : ∀ frame, new.frameUsed frame = old.frameUsed frame

theorem clone_spec (state : Paging) (pd : PageDirPtr) :
    Returns (clone pd state)
      (fun fault => fault = .pageDirRegionFull ∧ state.slots = Finset.range kNumPageDirs)
      (fun result => Cloned state result.1 pd result.2) := by
  rw [clone]
  cases found : state.pageDirRegion.getFirstZero 0 with
  | none =>
      refine returns_error.mpr ⟨rfl, ?_⟩
      ext slot
      rw [mem_slots, Finset.mem_range]
      constructor
      · intro listed
        exact listed.1
      · intro bound
        exact ⟨bound, BitArray.getFirstZero_eq_none found (Nat.zero_le _) bound⟩
  | some slot =>
      obtain ⟨_, bound, isZero⟩ := BitArray.getFirstZero_eq_some found
      obtain ⟨region, set, isSet⟩ := BitArray.setOne_eq state.pageDirRegion bound
      obtain ⟨bits, counts⟩ := refEntries_eq (state.entries pd) state.physicalBitmap
      simp only [entryCount_entries] at counts
      dsimp only
      rw [set, ok_bind]
      generalize refEntries (state.entries pd) state.physicalBitmap = bitmap at bits counts ⊢
      refine returns_pure.mpr ⟨?_, ?_, fun _ => rfl, counts, ?_⟩
      · rw [mem_slots, isZero]
        simp
      · ext other
        rw [Finset.mem_insert, mem_slots, mem_slots]
        show other < 1024 ∧ region.isSet other = true ↔ _
        rw [isSet]
        constructor
        · rintro ⟨below, rfl | listed⟩
          · exact Or.inl rfl
          · exact Or.inr ⟨below, listed⟩
        · rintro (rfl | ⟨below, listed⟩)
          · exact ⟨bound, Or.inl rfl⟩
          · exact ⟨below, Or.inr listed⟩
      · intro frame
        show bitmap.bits.isSet frame = _
        rw [bits]
        rfl

theorem clone_succeeds (state : Paging) (pd : PageDirPtr) (room : state.slots.card < kNumPageDirs) :
    ∃ after slot, clone pd state = .ok (after, slot) ∧ Cloned state after pd slot := by
  have spec := clone_spec state pd
  cases run : clone pd state with
  | ok result => exact ⟨result.1, result.2, rfl, spec.of_ok run⟩
  | error fault =>
      rw [(spec.of_error run).2, Finset.card_range] at room
      exact absurd room (Nat.lt_irrefl _)

structure Reclaimed (old new : Paging) (slot : Nat) : Prop where
  slots : new.slots = old.slots.erase slot
  pageDirs : new.pageDirs = old.pageDirs
  enough : ∀ frame, old.mapCount (.region slot) frame ≤ old.count frame
  count : ∀ frame, new.count frame = old.count frame - old.mapCount (.region slot) frame
  used : ∀ frame, new.frameUsed frame = true ↔ old.frameUsed frame = true ∧
    ¬(old.mapCount (.region slot) frame ≠ 0 ∧ old.count frame = old.mapCount (.region slot) frame)

theorem reclaimPageDirRegion_spec (state : Paging) {slot : Nat} (bound : slot < kNumPageDirs) :
    Returns (reclaimPageDirRegion (.region slot) state)
      (fun fault => fault = .unreferencedPage ∧
        ∃ frame, state.count frame < state.mapCount (.region slot) frame)
      (fun after => Reclaimed state after slot) := by
  have spec := freeEntries_spec (state.entries (.region slot)) state.physicalBitmap
  simp only [entryCount_entries] at spec
  refine spec.bind ?_
  intro bitmap effect
  obtain ⟨region, set, isSet⟩ := BitArray.setZero_eq state.pageDirRegion bound
  dsimp only
  rw [set, ok_bind]
  refine returns_pure.mpr ⟨?_, rfl, fun frame => (effect frame).1, fun frame => (effect frame).2.1,
    fun frame => (effect frame).2.2⟩
  ext other
  rw [Finset.mem_erase, mem_slots, mem_slots]
  show other < 1024 ∧ region.isSet other = true ↔ _
  rw [isSet]
  tauto

end Paging

end ToyKernel
