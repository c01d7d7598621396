import ToyKernel.Paging.Runs

/-!
The 16-bit reference counts under any use of the page directories: any live directory, any address,
frames mapped any number of times. Two things go wrong with them. `RemovePage` gives up a frame also
where nothing is mapped, and nothing keeps a frame from being mapped more often than its count can hold.
-/

namespace ToyKernel

open Library

namespace Paging

structure RemovesOwnFrame (state : Paging) (pd : PageDirPtr) (vaddr : UInt32) : Prop where
  others : ∀ after, state.removePage pd vaddr = .ok after → ∀ frame,
    frameOf (state.pageDirs pd (pageIndex4M vaddr)) ≠ some frame → after.count frame = state.count frame
  absent : state.isVirtualMapped pd vaddr = false → ∃ after, state.removePage pd vaddr = .ok after ∧
    (∀ frame, after.count frame = state.count frame) ∧
    (∀ frame, after.frameUsed frame = state.frameUsed frame) ∧ after.pageDirs = state.pageDirs

/-- A removal that passes its assertions always takes references away from some frame. -/
theorem removePage_unrefs {state after : Paging} {pd : PageDirPtr} {vaddr : UInt32}
    (run : state.removePage pd vaddr = .ok after) :
    after.count (pageIndex4M (state.pageDirs pd (pageIndex4M vaddr))) <
      state.count (pageIndex4M (state.pageDirs pd (pageIndex4M vaddr))) := by
  obtain ⟨_, cleared, _⟩ := (removePage_spec state pd vaddr).of_ok run
  have enough := cleared.enough
  have positive := Finset.card_pos.mpr ⟨pd, self_mem_targets state pd vaddr⟩
  rw [cleared.count, if_pos rfl]
  omega

theorem removePage_others {state after : Paging} {pd : PageDirPtr} {vaddr : UInt32} {frame : Nat}
    (run : state.removePage pd vaddr = .ok after) (mapped : state.isVirtualMapped pd vaddr = true)
    (other : frameOf (state.pageDirs pd (pageIndex4M vaddr)) ≠ some frame) :
    after.count frame = state.count frame := by
  obtain ⟨_, cleared, _⟩ := (removePage_spec state pd vaddr).of_ok run
  rw [cleared.count, if_neg]
  rintro rfl
  exact other (frameOf_eq_some.mpr ⟨mapped, rfl⟩)

theorem removesOwnFrame_iff (state : Paging) (pd : PageDirPtr) (vaddr : UInt32) :
    RemovesOwnFrame state pd vaddr ↔ state.isVirtualMapped pd vaddr = true := by
  constructor
  · intro removes
    by_contra unmapped
    obtain ⟨after, run, same, _⟩ := removes.absent (by simpa using unmapped)
    have fewer := removePage_unrefs run
    rw [same] at fewer
    omega
  · intro mapped
    refine ⟨?_, ?_⟩
    · intro after run frame other
      exact removePage_others run mapped other
    · intro unmapped
      rw [mapped] at unmapped
      cases unmapped

end Paging

namespace PagingSession

/-- With its first page mapped to frame 0, removing another page that is not mapped takes that frame
away from it. -/
theorem unmapped_removal_unrefs : ∃ session after, (runs FitsRefs).Reachable session ∧
    session.paging.isVirtualMapped .kernel userStart = false ∧
    session.paging.removePage .kernel userStart = .ok after ∧
    frameOf (after.pageDirs .kernel 0) = some 0 ∧ session.paging.count 0 = 1 ∧ after.count 0 = 0 ∧
    after.frameUsed 0 = false ∧ ¬session.paging.RemovesOwnFrame .kernel userStart := by
  obtain ⟨paging, run, initialized⟩ := Paging.initializePaging_succeeds (fun _ _ => 0)
    (show 32 ≤ (131072 : UInt32) * 1024 / kPageSize4M + 1 by decide)
  have start : (runs FitsRefs).Reachable ⟨paging, []⟩ := .start ⟨rfl, _, _, run⟩
  have first : pageIndex4M 0 = 0 := by decide
  obtain ⟨mapped, added, installed⟩ := Paging.addPage_own_succeeds 0
    (show PageDirPtr.kernel = .kernel → isReplicated 0 = false by decide)
    (show (0 : UInt32) % kPageSize4M = 0 by decide) (show (0 : UInt32) % kPageSize4M = 0 by decide)
    (show true = false → paging.frameUsed (pageIndex4M 0) = false by simp)
    (by rw [initialized.kernel, first]; decide)
  rw [first] at installed
  have performed : (PagingSession.mk paging []).perform (.addPage .kernel 0 0 0 true) = .ok ⟨mapped, []⟩ := by
    rw [perform, added]
    rfl
  have slots : ∀ slot, slot ∈ (PagingSession.mk mapped []).clones ↔ slot ∈ mapped.slots := by
    intro slot
    rw [Paging.slots_congr installed.region, initialized.slots]
    simp
  have fits : FitsRefs ⟨mapped, []⟩ := by
    intro frame _
    have small := Paging.reserved_le frame
    rw [mappings_eq List.nodup_nil slots, installed.mappings (by simp) (by decide) (frameOf_pageEntry _ _),
      initialized.mappings, Finset.card_singleton]
    split <;> split <;> omega
  have stepped : (runs FitsRefs).step ⟨paging, []⟩ (.addPage .kernel 0 0 0 true) ⟨mapped, []⟩ :=
    ⟨⟨by simp [pageDirectories], by simp⟩, performed, fits⟩
  have index : pageIndex4M userStart = 256 := by decide
  have empty : mapped.pageDirs .kernel 256 = 0 := by
    rw [installed.pageDirs, initialized.kernel]
    simp
  have count : mapped.count 0 = 1 := by
    rw [installed.count, initialized.count 0 (by decide)]
    decide
  have own : mapped.targets .kernel userStart = {.kernel} := Paging.targets_own (by decide)
  obtain ⟨after, removed, cleared⟩ : ∃ after, mapped.removePage .kernel userStart = .ok after ∧
      Paging.Cleared mapped after {.kernel} 256 0 := by
    have succeeds := Paging.removePage_succeeds (show userStart % kPageSize4M = 0 by decide)
      (by rw [own, index, empty, first, count, Finset.card_singleton])
      (by rw [own]; intro other listed different; exact absurd (Finset.mem_singleton.mp listed) different)
    rwa [own, index, empty, first] at succeeds
  have unmapped : mapped.isVirtualMapped .kernel userStart = false := by
    rw [Paging.isVirtualMapped, index, empty]
    decide
  refine ⟨⟨mapped, []⟩, after, start.next stepped, unmapped, removed, ?_, count, ?_, ?_, ?_⟩
  · rw [cleared.pageDirs, if_neg (by decide), installed.pageDirs, if_pos (by simp), frameOf_pageEntry, first]
  · rw [cleared.count, if_pos rfl, count, Finset.card_singleton]
  · rw [Bool.eq_false_iff, ne_eq, cleared.used, Finset.card_singleton]
    simp [count]
  · intro removes
    obtain ⟨other, again, same, _⟩ := removes.absent unmapped
    cases removed.symm.trans again
    have fewer := same 0
    rw [cleared.count, if_pos rfl, count, Finset.card_singleton] at fewer
    cases fewer

end PagingSession

namespace Paging

inductive DirectoryCall
  | addPage (pd : PageDirPtr) (vaddr paddr : UInt32) (flags : UInt8) (allowPhysicalReuse : Bool)
  | removePage (pd : PageDirPtr) (vaddr : UInt32)
  | clone (pd : PageDirPtr)
  | reclaim (slot : Nat)

def call (state : Paging) : DirectoryCall → Except Fault Paging
  | .addPage pd vaddr paddr flags allowPhysicalReuse => state.addPage pd vaddr paddr flags allowPhysicalReuse
  | .removePage pd vaddr => state.removePage pd vaddr
  | .clone pd => return (← state.clone pd).1
  | .reclaim slot => state.reclaimPageDirRegion (.region slot)

def Callable (state : Paging) : DirectoryCall → Prop
  | .addPage pd _ _ _ _ => pd ∈ state.live
  | .removePage pd vaddr => pd ∈ state.live ∧ state.isVirtualMapped pd vaddr = true
  | .clone pd => pd ∈ state.live
  | .reclaim slot => slot ∈ state.slots

def directoryRuns (Condition : Paging → DirectoryCall → Prop) : System Paging DirectoryCall where
  initial state := ∃ highMemKB slots, initializePaging highMemKB slots = .ok state
  step state call after := state.Callable call ∧ Condition state call ∧ state.call call = .ok after

/-- The new entries still fit the count of their frame, with its reservation, and a page of the kernel
is removed where all page directories map it to one frame. -/
def FitsCount (state : Paging) : DirectoryCall → Prop
  | .addPage pd vaddr paddr _ _ => state.mappings (pageIndex4M paddr) + (state.targets pd vaddr).card +
      reserved (pageIndex4M paddr) < 65536
  | .removePage pd vaddr => ∀ query ∈ state.targets pd vaddr,
      frameOf (state.pageDirs query (pageIndex4M vaddr)) = frameOf (state.pageDirs pd (pageIndex4M vaddr))
  | .clone pd => ∀ frame < 1024, state.mappings frame + state.mapCount pd frame + reserved frame < 65536
  | .reclaim _ => True

structure Referenced (state : Paging) : Prop where
  counted : ∀ frame < 1024, Counted state frame
  fits : ∀ frame < 1024, state.mappings frame + reserved frame < 65536

variable {state after : Paging} {pd : PageDirPtr} {vaddr paddr : UInt32} {flags : UInt8}
  {allowPhysicalReuse : Bool} {slot : Nat}

theorem addPage_referenced (referenced : Referenced state) (isLive : pd ∈ state.live)
    (room : FitsCount state (.addPage pd vaddr paddr flags allowPhysicalReuse))
    (run : state.addPage pd vaddr paddr flags allowPhysicalReuse = .ok after) : Referenced after := by
  obtain ⟨_, _, _, installed⟩ := (addPage_spec state pd vaddr paddr flags allowPhysicalReuse).of_ok run
  have listed : state.targets pd vaddr ⊆ state.live := targets_subset_live isLive
  have fits : ∀ frame < 1024, after.mappings frame + reserved frame < 65536 := by
    intro frame bound
    rw [installed.mappings listed (pageIndex4M_lt vaddr) (frameOf_pageEntry paddr flags)]
    by_cases same : frame = pageIndex4M paddr
    · rw [if_pos same, same]
      exact room
    · rw [if_neg same]
      exact referenced.fits frame bound
  refine ⟨?_, fits⟩
  intro frame bound
  exact installed.counted (referenced.counted frame bound) listed ⟨pd, self_mem_targets _ _ _⟩
    (pageIndex4M_lt vaddr) (frameOf_pageEntry paddr flags) (fits frame bound)

theorem removePage_referenced (referenced : Referenced state) (isLive : pd ∈ state.live)
    (mapped : state.isVirtualMapped pd vaddr = true) (agreed : FitsCount state (.removePage pd vaddr))
    (run : state.removePage pd vaddr = .ok after) : Referenced after := by
  obtain ⟨_, cleared, _⟩ := (removePage_spec state pd vaddr).of_ok run
  have listed : state.targets pd vaddr ⊆ state.live := targets_subset_live isLive
  have maps : ∀ query ∈ state.targets pd vaddr, frameOf (state.pageDirs query (pageIndex4M vaddr)) =
      some (pageIndex4M (state.pageDirs pd (pageIndex4M vaddr))) := by
    intro query member
    rw [agreed query member]
    exact frameOf_eq_some.mpr ⟨mapped, rfl⟩
  refine ⟨?_, ?_⟩
  · intro frame bound
    exact cleared.counted (referenced.counted frame bound) listed (pageIndex4M_lt vaddr) maps
  · intro frame bound
    have fewer := cleared.mappings listed (pageIndex4M_lt vaddr) maps frame
    have fits := referenced.fits frame bound
    omega

theorem clone_referenced (referenced : Referenced state) (isLive : pd ∈ state.live)
    (room : FitsCount state (.clone pd)) (run : state.clone pd = .ok (after, slot)) : Referenced after := by
  have cloned := (clone_spec state pd).of_ok run
  have fits : ∀ frame < 1024, after.mappings frame + reserved frame < 65536 := by
    intro frame bound
    rw [cloned.mappings]
    exact room frame bound
  refine ⟨?_, fits⟩
  intro frame bound
  exact cloned.counted (referenced.counted frame bound) isLive (fits frame bound)

theorem reclaim_referenced (referenced : Referenced state) (listed : slot ∈ state.slots)
    (run : state.reclaimPageDirRegion (.region slot) = .ok after) : Referenced after := by
  have reclaimed := (reclaimPageDirRegion_spec state (mem_slots.mp listed).1).of_ok run
  refine ⟨?_, ?_⟩
  · intro frame bound
    exact reclaimed.counted (referenced.counted frame bound) listed
  · intro frame bound
    have fewer := reclaimed.mappings listed frame
    have fits := referenced.fits frame bound
    omega

theorem step_referenced (referenced : Referenced state) {call : DirectoryCall}
    (stepped : (directoryRuns FitsCount).step state call after) : Referenced after := by
  obtain ⟨callable, fits, run⟩ := stepped
  cases call with
  | addPage pd vaddr paddr flags allowPhysicalReuse => exact addPage_referenced referenced callable fits run
  | removePage pd vaddr => exact removePage_referenced referenced callable.1 callable.2 fits run
  | clone pd =>
      obtain ⟨⟨copy, slot⟩, copied, done⟩ := bind_eq_ok.mp run
      obtain rfl := pure_eq_ok.mp done
      exact clone_referenced referenced callable fits copied
  | reclaim slot => exact reclaim_referenced referenced callable run

theorem reachable_referenced (reachable : (directoryRuns FitsCount).Reachable state) : Referenced state := by
  refine reachable.invariant Referenced ?_ ?_
  · rintro start ⟨highMemKB, slots, run⟩
    have initialized := (initializePaging_spec highMemKB slots).of_ok run
    refine ⟨fun frame bound => initialized.counted bound, ?_⟩
    intro frame _
    have small := reserved_le frame
    rw [initialized.mappings]
    split <;> omega
  · intro before call next referenced stepped
    exact step_referenced referenced stepped

/-- As many entries in each of the 1025 page directories as the count can hold for certain. -/
theorem mappings_few {frame : Nat} (few : ∀ pd ∈ state.live, state.mapCount pd frame ≤ 63) :
    state.mappings frame ≤ 64575 := by
  have kernel := few .kernel (kernel_mem_live state)
  have clones : ∑ slot ∈ state.slots, state.mapCount (.region slot) frame ≤ state.slots.card * 63 := by
    rw [← smul_eq_mul]
    apply Finset.sum_le_card_nsmul
    intro slot listed
    exact few (.region slot) (region_mem_live.mpr listed)
  have directories := state.slots_card_le
  rw [mappings_eq_sum]
  omega

theorem references_bounded :
    (∀ state, (directoryRuns FitsCount).Reachable state → ∀ frame < 1024,
      state.mappings frame ≤ 65535 ∧ state.count frame = state.mappings frame + reserved frame ∧
        (0 < state.mappings frame → state.frameUsed frame = true)) ∧
    ∀ state : Paging, ∀ frame, (∀ pd ∈ state.live, state.mapCount pd frame ≤ 63) →
      state.mappings frame + reserved frame < 65536 := by
  constructor
  · intro state reachable frame bound
    have referenced := reachable_referenced reachable
    have fits := referenced.fits frame bound
    have counted := referenced.counted frame bound
    refine ⟨by omega, counted.count, ?_⟩
    intro mapped
    have sum := counted.count
    rw [counted.used]
    omega
  · intro state frame few
    have bound := mappings_few few
    have small := reserved_le frame
    omega

end Paging

namespace PagingSession

theorem reachable_directoryRuns {session : PagingSession} (reachable : (runs FitsRefs).Reachable session) :
    (Paging.directoryRuns fun _ _ => True).Reachable session.paging := by
  induction reachable with
  | start isInitial => exact .start isInitial.2
  | @next before operation after reached stepped ih =>
      obtain ⟨permitted, performed, _⟩ := stepped
      have tracked := reachable_tracked reached
      have step : ∃ call, (Paging.directoryRuns fun _ _ => True).step before.paging call after.paging := by
        cases operation with
        | addPage pd vaddr paddr flags allowPhysicalReuse =>
            obtain ⟨paging, run, done⟩ := bind_eq_ok.mp performed
            obtain rfl := pure_eq_ok.mp done
            exact ⟨.addPage pd vaddr paddr flags allowPhysicalReuse, tracked.mem_live.mp permitted.1,
              True.intro, run⟩
        | removePage pd vaddr =>
            obtain ⟨paging, run, done⟩ := bind_eq_ok.mp performed
            obtain rfl := pure_eq_ok.mp done
            exact ⟨.removePage pd vaddr, ⟨tracked.mem_live.mp permitted.1, permitted.2.2⟩, True.intro, run⟩
        | clone =>
            obtain ⟨⟨paging, slot⟩, run, done⟩ := bind_eq_ok.mp performed
            obtain rfl := pure_eq_ok.mp done
            refine ⟨.clone .kernel, Paging.kernel_mem_live _, True.intro, ?_⟩
            rw [Paging.call, run]
            rfl
        | reclaim slot =>
            obtain ⟨paging, run, done⟩ := bind_eq_ok.mp performed
            obtain rfl := pure_eq_ok.mp done
            exact ⟨.reclaim slot, (tracked.slots slot).mp permitted, True.intro, run⟩
      obtain ⟨call, stepped⟩ := step
      exact ih.next stepped

/-- Frame 32 mapped at 257 addresses of the kernel page directory and of 255 clones. -/
theorem mappings_exceed_count :
    ¬∀ state, (Paging.directoryRuns fun _ _ => True).Reachable state → ∀ frame < 1024,
      state.mappings frame ≤ 65535 := by
  intro claim
  obtain ⟨session, reachable, copied, counts⟩ := reserved_cloned 253 (by decide)
  have base := reachable_directoryRuns reachable
  obtain ⟨first, slot, run, cloned⟩ := Paging.clone_succeeds session.paging .kernel (by
    rw [copied]
    decide)
  have firstCopied : first.slots.card = 254 := by
    rw [cloned.slots, Finset.card_insert_of_notMem cloned.fresh, copied]
  obtain ⟨second, other, again, twice⟩ := Paging.clone_succeeds first .kernel (by
    rw [firstCopied]
    decide)
  have firstStep : (Paging.directoryRuns fun _ _ => True).step session.paging (.clone .kernel) first := by
    refine ⟨Paging.kernel_mem_live _, True.intro, ?_⟩
    rw [Paging.call, run]
    rfl
  have secondStep : (Paging.directoryRuns fun _ _ => True).step first (.clone .kernel) second := by
    refine ⟨Paging.kernel_mem_live _, True.intro, ?_⟩
    rw [Paging.call, again]
    rfl
  have few := claim second ((base.next firstStep).next secondStep) 32 (by decide)
  obtain ⟨kernel, total⟩ := counts 32
  rw [twice.mappings, cloned.mappings, cloned.mapCount_kernel, total, kernel] at few
  norm_num at few

end PagingSession

end ToyKernel
