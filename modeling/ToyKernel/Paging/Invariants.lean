import ToyKernel.Paging.Counting

/-!
The two invariants of the paging code and their preservation by every operation:
reference counts and bitmap stay in step with the mappings, and all page directories
agree on the kernel's own regions.
-/

namespace ToyKernel

open Library

namespace Paging

/-- `ReservePhysical` keeps one reference to every frame beyond the usable memory. -/
def reserved (frame : Nat) : Nat := if kPhysicalPages ≤ frame then 1 else 0

theorem reserved_le (frame : Nat) : reserved frame ≤ 1 := by
  rw [reserved]
  split <;> omega

structure Counted (state : Paging) (frame : Nat) : Prop where
  count : state.count frame = state.mappings frame + reserved frame
  used : state.frameUsed frame = true ↔ 0 < state.count frame

def Coherent (state : Paging) : Prop :=
  ∀ slot ∈ state.slots, ∀ index < 1024, isReplicated (pageAddr4M index) = true →
    state.pageDirs (.region slot) index = state.pageDirs .kernel index

variable {old new state after : Paging} {targets : Finset PageDirPtr} {index page frame slot : Nat}
  {entry : UInt32} {pd : PageDirPtr}

theorem Counted.unreferenced (counted : Counted state frame) (unused : state.frameUsed frame = false) :
    state.count frame = 0 := by
  by_contra counts
  rw [counted.used.mpr (by omega)] at unused
  cases unused

theorem Counted.free (counted : Counted state frame) (unused : state.frameUsed frame = false) :
    state.mappings frame = 0 ∧ reserved frame = 0 := by
  have zero := counted.unreferenced unused
  have sum := counted.count
  omega

theorem Installed.counted (installed : Installed old new targets index entry page)
    (counted : Counted old frame) (listed : targets ⊆ old.live) (nonempty : targets.Nonempty)
    (bound : index < 1024) (maps : frameOf entry = some page)
    (limit : new.mappings frame + reserved frame < 65536) : Counted new frame := by
  have added := installed.mappings listed bound maps frame
  have counts := installed.count frame
  have positive := Finset.card_pos.mpr nonempty
  have before := counted.count
  by_cases same : frame = page
  · rw [if_pos same] at added counts
    rw [Nat.mod_eq_of_lt (by omega)] at counts
    refine ⟨by omega, ?_⟩
    rw [installed.used]
    exact ⟨fun _ => by omega, fun _ => Or.inl same⟩
  · rw [if_neg same] at added counts
    refine ⟨by omega, ?_⟩
    rw [installed.used, counted.used, counts]
    simp [same]

theorem Cleared.counted (cleared : Cleared old new targets index page)
    (counted : Counted old frame) (listed : targets ⊆ old.live) (bound : index < 1024)
    (maps : ∀ query ∈ targets, frameOf (old.pageDirs query index) = some page) :
    Counted new frame := by
  have removed := cleared.mappings listed bound maps frame
  have counts := cleared.count frame
  have enough := cleared.enough
  have before := counted.count
  by_cases same : frame = page
  · subst same
    rw [if_pos rfl] at removed counts
    refine ⟨by omega, ?_⟩
    rw [cleared.used, counted.used, counts]
    simp only [true_and]
    omega
  · rw [if_neg same] at removed counts
    refine ⟨by omega, ?_⟩
    rw [cleared.used, counted.used, counts]
    simp [same]

theorem Cloned.counted (cloned : Cloned old new pd slot) (counted : Counted old frame)
    (isLive : pd ∈ old.live) (limit : new.mappings frame + reserved frame < 65536) :
    Counted new frame := by
  have added := cloned.mappings frame
  have counts := cloned.count frame
  have before := counted.count
  have part := mapCount_le_mappings isLive frame
  rw [Nat.mod_eq_of_lt (by omega)] at counts
  refine ⟨by omega, ?_⟩
  rw [cloned.used, counted.used, counts]
  omega

theorem Reclaimed.counted (reclaimed : Reclaimed old new slot) (counted : Counted old frame)
    (listed : slot ∈ old.slots) : Counted new frame := by
  have removed := reclaimed.mappings listed frame
  have counts := reclaimed.count frame
  have before := counted.count
  refine ⟨by omega, ?_⟩
  rw [reclaimed.used, counted.used, counts]
  omega

theorem Installed.coherent (installed : Installed old new targets index entry page)
    (coherent : Coherent old)
    (everywhere : isReplicated (pageAddr4M index) = true → ∀ query ∈ old.live, query ∈ targets) :
    Coherent new := by
  intro slot listed i bound replicated
  rw [slots_congr installed.region] at listed
  rw [installed.pageDirs, installed.pageDirs, coherent slot listed i bound replicated]
  by_cases same : i = index
  · rw [if_pos ⟨everywhere (same ▸ replicated) _ (region_mem_live.mpr listed), same⟩,
      if_pos ⟨everywhere (same ▸ replicated) _ (kernel_mem_live old), same⟩]
  · rw [if_neg (by simp [same]), if_neg (by simp [same])]

theorem Cleared.coherent (cleared : Cleared old new targets index page)
    (coherent : Coherent old)
    (everywhere : isReplicated (pageAddr4M index) = true → ∀ query ∈ old.live, query ∈ targets) :
    Coherent new := by
  intro slot listed i bound replicated
  rw [slots_congr cleared.region] at listed
  rw [cleared.pageDirs, cleared.pageDirs, coherent slot listed i bound replicated]
  by_cases same : i = index
  · rw [if_pos ⟨everywhere (same ▸ replicated) _ (region_mem_live.mpr listed), same⟩,
      if_pos ⟨everywhere (same ▸ replicated) _ (kernel_mem_live old), same⟩]
  · rw [if_neg (by simp [same]), if_neg (by simp [same])]

theorem Cloned.coherent (cloned : Cloned old new .kernel slot) (coherent : Coherent old) :
    Coherent new := by
  intro other listed i bound replicated
  rw [cloned.pageDirs, cloned.pageDirs, if_neg (show ¬PageDirPtr.kernel = .region slot by simp)]
  by_cases same : other = slot
  · rw [if_pos (by rw [same])]
  · rw [if_neg (by simpa using same)]
    rw [cloned.slots, Finset.mem_insert] at listed
    exact coherent other (listed.resolve_left same) i bound replicated

theorem Reclaimed.coherent (reclaimed : Reclaimed old new slot) (coherent : Coherent old) :
    Coherent new := by
  intro other listed i bound replicated
  rw [reclaimed.slots] at listed
  rw [reclaimed.pageDirs]
  exact coherent other (Finset.mem_of_mem_erase listed) i bound replicated

/-- An edit of one page directory reaches every live one when its address is replicated. -/
theorem targets_everywhere {vaddr : UInt32} (aligned : vaddr % kPageSize4M = 0)
    (permitted : pd ≠ .kernel → isReplicated vaddr = false)
    (replicated : isReplicated (pageAddr4M (pageIndex4M vaddr)) = true) :
    ∀ query ∈ state.live, query ∈ state.targets pd vaddr := by
  rw [pageAddr4M_pageIndex4M aligned] at replicated
  intro query isLive
  by_cases isKernel : pd = .kernel
  · rw [Paging.targets, if_pos ⟨isKernel, replicated⟩]
    exact isLive
  · rw [permitted isKernel] at replicated
    cases replicated

theorem Coherent.target_entry (coherent : Coherent state) {vaddr : UInt32}
    (aligned : vaddr % kPageSize4M = 0) {query : PageDirPtr}
    (member : query ∈ state.targets pd vaddr) :
    state.pageDirs query (pageIndex4M vaddr) = state.pageDirs pd (pageIndex4M vaddr) := by
  unfold Paging.targets at member
  split at member
  · rename_i shared
    rw [shared.1]
    cases query with
    | kernel => rfl
    | region slot =>
        refine coherent slot (region_mem_live.mp member) _ (pageIndex4M_lt vaddr) ?_
        rw [pageAddr4M_pageIndex4M aligned]
        exact shared.2
  · rw [Finset.mem_singleton.mp member]

theorem foldl_ref_eq (pages : List Nat) (distinct : pages.Nodup) (bitmap : PhysicalBitmap4M) :
    (pages.foldl (fun bitmap page => PhysicalBitmap4M.ref page bitmap) bitmap).bits = bitmap.bits ∧
      ∀ frame, (pages.foldl (fun bitmap page => PhysicalBitmap4M.ref page bitmap) bitmap).count frame =
        if frame ∈ pages then (bitmap.count frame + 1) % 65536 else bitmap.count frame := by
  induction pages generalizing bitmap with
  | nil => simp
  | cons page rest ih =>
      obtain ⟨notRest, restDistinct⟩ := List.nodup_cons.mp distinct
      obtain ⟨bits, counts⟩ := ih restDistinct (bitmap.ref page)
      refine ⟨bits, ?_⟩
      intro frame
      rw [List.foldl_cons, counts, PhysicalBitmap4M.count_ref]
      by_cases same : frame = page
      · simp [same, notRest]
      · simp [same]

theorem reservePhysical_eq : ∃ bitmap,
    PhysicalBitmap4M.reservePhysical kPhysicalPages ⟨BitArray.clear, fun _ => 0⟩ = .ok bitmap ∧
      ∀ frame < 1024, bitmap.count frame = reserved frame ∧
        (bitmap.bits.isSet frame = true ↔ 0 < reserved frame) := by
  obtain ⟨bits, reservation, isSet⟩ := BitArray.reserve_eq (BitArray.clear : BitArray kRamAs4MPages)
    (show kPhysicalPages ≤ kRamAs4MPages by decide)
  obtain ⟨sameBits, counts⟩ := foldl_ref_eq
    (List.range' kPhysicalPages (kRamAs4MPages - kPhysicalPages)) List.nodup_range' ⟨bits, fun _ => 0⟩
  refine ⟨_, by rw [PhysicalBitmap4M.reservePhysical, reservation, ok_bind]; rfl, ?_⟩
  intro frame bound
  have member : frame ∈ List.range' kPhysicalPages (kRamAs4MPages - kPhysicalPages) ↔
      kPhysicalPages ≤ frame := by
    rw [List.mem_range'_1]
    simp only [kPhysicalPages, kRamAs4MPages]
    omega
  have zero : PhysicalBitmap4M.count ⟨bits, fun _ => 0⟩ frame = 0 := rfl
  rw [counts, sameBits, isSet frame bound, BitArray.isSet_clear, reserved, zero]
  by_cases usable : kPhysicalPages ≤ frame
  · rw [if_pos (member.mpr usable), if_pos usable]
    simp [usable]
  · rw [if_neg (mt member.mp usable), if_neg usable]
    simp [usable]

structure Initialized (state : Paging) : Prop where
  slots : state.slots = ∅
  kernel : ∀ index, state.pageDirs .kernel index =
    if index = 1 then pageEntry kernelStart 131
    else if index = 2 then pageEntry pageDirectoryRegionStart 131 else 0
  count : ∀ frame < 1024, state.count frame =
    reserved frame + if frame = 1 ∨ frame = 2 then 1 else 0
  used : ∀ frame < 1024, (state.frameUsed frame = true ↔ 0 < state.count frame)

theorem identityMap_eq {address : UInt32} (flags : UInt8) (noSlots : state.slots = ∅)
    (aligned : address % kPageSize4M = 0) (unused : state.frameUsed (pageIndex4M address) = false)
    (empty : state.pageDirs .kernel (pageIndex4M address) = 0) :
    ∃ after, addPage .kernel address address flags false state = .ok after ∧
      Installed state after {.kernel} (pageIndex4M address) (pageEntry address flags)
        (pageIndex4M address) := by
  have only : state.targets .kernel address = {.kernel} := by
    rw [Paging.targets, live, clones, noSlots]
    split <;> rfl
  rw [← only]
  refine addPage_succeeds flags aligned aligned (fun _ => unused) ?_
  intro other member
  rw [only, Finset.mem_singleton] at member
  rw [member, empty]
  exact present_zero

theorem initializePaging_spec (highMemKB : UInt32) (slots : Nat → PageDirectory) :
    Returns (initializePaging highMemKB slots)
      (fun fault => fault = .notEnoughMemory ∧ ¬32 ≤ highMemKB * 1024 / kPageSize4M + 1)
      Initialized := by
  refine returns_require (fun tooFew => ⟨rfl, tooFew⟩) fun _ => ?_
  obtain ⟨bitmap, reservation, reservedFrames⟩ := reservePhysical_eq
  rw [reservation, ok_bind]
  dsimp only
  generalize start : Paging.mk _ bitmap BitArray.clear = base
  have noSlots : base.slots = ∅ := by
    ext slot
    rw [mem_slots, ← start]
    simp
  have empty : ∀ index, base.pageDirs .kernel index = 0 := by
    intro index
    rw [← start]
  have counts : ∀ frame < 1024, base.count frame = reserved frame := by
    intro frame bound
    rw [← start]
    exact (reservedFrames frame bound).1
  have bits : ∀ frame < 1024, base.frameUsed frame = true ↔ 0 < reserved frame := by
    intro frame bound
    rw [← start]
    exact (reservedFrames frame bound).2
  have unreserved : ∀ frame < 32, base.frameUsed frame = false := by
    intro frame bound
    rw [Bool.eq_false_iff, ne_eq, bits frame (by omega), reserved, kPhysicalPages, if_neg (by omega)]
    decide
  have flags : (pgPresent ||| pgWrite ||| pg4MB).toUInt8 = 131 := by decide
  have kernelIndex : pageIndex4M kernelStart = 1 := by decide
  have regionIndex : pageIndex4M pageDirectoryRegionStart = 2 := by decide
  obtain ⟨middle, firstOk, first⟩ := identityMap_eq 131 noSlots
    (show kernelStart % kPageSize4M = 0 by decide)
    (by rw [kernelIndex]; exact unreserved 1 (by decide)) (empty _)
  rw [kernelIndex] at first
  have middleUsed : middle.frameUsed 2 = false := by
    rw [Bool.eq_false_iff, ne_eq, first.used, unreserved 2 (by decide)]
    decide
  have middleEmpty : middle.pageDirs .kernel 2 = 0 := by
    rw [first.pageDirs, empty]
    simp
  obtain ⟨after, secondOk, second⟩ := identityMap_eq 131
    ((slots_congr first.region).trans noSlots)
    (show pageDirectoryRegionStart % kPageSize4M = 0 by decide)
    (by rw [regionIndex]; exact middleUsed) (by rw [regionIndex]; exact middleEmpty)
  rw [regionIndex] at second
  rw [flags, firstOk, ok_bind, secondOk]
  have afterCount : ∀ frame < 1024, after.count frame =
      reserved frame + if frame = 1 ∨ frame = 2 then 1 else 0 := by
    intro frame bound
    have small := reserved_le frame
    rw [second.count, first.count, counts frame bound, Finset.card_singleton]
    by_cases isFirst : frame = 1
    · simp only [isFirst, ↓reduceIte, OfNat.one_ne_ofNat, true_or]
      rw [isFirst] at small
      omega
    · by_cases isSecond : frame = 2
      · simp only [isSecond, ↓reduceIte, OfNat.ofNat_ne_one, or_true]
        rw [isSecond] at small
        omega
      · simp [isFirst, isSecond]
  refine returns_ok.mpr ⟨?_, ?_, afterCount, ?_⟩
  · rw [slots_congr second.region, slots_congr first.region, noSlots]
  · intro index
    rw [second.pageDirs, first.pageDirs, empty]
    by_cases isFirst : index = 1
    · simp [isFirst]
    · simp [isFirst]
  · intro frame bound
    rw [second.used, first.used, bits frame bound, afterCount frame bound]
    split <;> omega

theorem initializePaging_succeeds {highMemKB : UInt32} (slots : Nat → PageDirectory)
    (enough : 32 ≤ highMemKB * 1024 / kPageSize4M + 1) :
    ∃ after, initializePaging highMemKB slots = .ok after ∧ Initialized after := by
  have spec := initializePaging_spec highMemKB slots
  cases run : initializePaging highMemKB slots with
  | ok after => exact ⟨after, rfl, spec.of_ok run⟩
  | error fault => exact absurd enough (spec.of_error run).2

theorem Initialized.mappings (initialized : Initialized state) (frame : Nat) :
    state.mappings frame = if frame = 1 ∨ frame = 2 then 1 else 0 := by
  have entries : ∀ index, frameOf (state.pageDirs .kernel index) =
      if index = 1 ∨ index = 2 then some index else none := by
    intro index
    rw [initialized.kernel]
    by_cases isFirst : index = 1
    · simp only [isFirst, true_or, ↓reduceIte]
      decide
    · by_cases isSecond : index = 2
      · simp only [isSecond, OfNat.ofNat_ne_one, or_true, ↓reduceIte]
        decide
      · simp [isFirst, isSecond]
  rw [mappings_eq_sum, initialized.slots, Finset.sum_empty, Nat.add_zero, mapCount, occurrences]
  by_cases mapped : frame = 1 ∨ frame = 2
  · rw [if_pos mapped, Finset.card_eq_one]
    refine ⟨frame, ?_⟩
    ext index
    rw [Finset.mem_filter, mem_indices, entries, Finset.mem_singleton]
    constructor
    · rintro ⟨_, holds⟩
      split at holds
      · injection holds
      · cases holds
    · rintro rfl
      exact ⟨by omega, if_pos mapped⟩
  · rw [if_neg mapped, Finset.card_eq_zero, Finset.filter_eq_empty_iff]
    intro index _ holds
    rw [entries] at holds
    split at holds
    · injection holds with same
      exact mapped (same ▸ by assumption)
    · cases holds

theorem Initialized.counted (initialized : Initialized state) (bound : frame < 1024) :
    Counted state frame := by
  refine ⟨?_, initialized.used frame bound⟩
  rw [initialized.count frame bound, initialized.mappings, Nat.add_comm]

theorem Initialized.only_kernel (initialized : Initialized state) (isLive : pd ∈ state.live) : pd = .kernel := by
  cases pd with
  | kernel => rfl
  | region slot =>
      rw [region_mem_live, initialized.slots] at isLive
      simp at isLive

theorem Initialized.coherent (initialized : Initialized state) : Coherent state := by
  intro slot listed
  rw [initialized.slots] at listed
  simp at listed

end Paging

end ToyKernel
