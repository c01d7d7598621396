import ToyKernel.Library.Run
import ToyKernel.Paging.Invariants

/-!
Runs of the paging code from `InitializePaging` on, by a client that edits the kernel
page directory, edits its clones outside the replicated regions, and creates and
reclaims clones. The session records which clones are live.
-/

namespace ToyKernel

open Library

structure PagingSession where
  paging : Paging
  clones : List Nat

inductive PagingOperation
  | addPage (pd : PageDirPtr) (vaddr paddr : UInt32) (flags : UInt8) (allowPhysicalReuse : Bool)
  | removePage (pd : PageDirPtr) (vaddr : UInt32)
  | clone
  | reclaim (slot : Nat)

namespace PagingSession

def pageDirectories (session : PagingSession) : List PageDirPtr :=
  .kernel :: session.clones.map .region

def mappings (session : PagingSession) (frame : Nat) : Nat :=
  (session.pageDirectories.map fun pd => session.paging.mapCount pd frame).sum

def perform (session : PagingSession) : PagingOperation → Except Fault PagingSession
  | .addPage pd vaddr paddr flags allowPhysicalReuse => do
      let paging ← session.paging.addPage pd vaddr paddr flags allowPhysicalReuse
      return { session with paging }
  | .removePage pd vaddr => do
      let paging ← session.paging.removePage pd vaddr
      return { session with paging }
  | .clone => do
      let (paging, slot) ← session.paging.clone .kernel
      return ⟨paging, slot :: session.clones⟩
  | .reclaim slot => do
      let paging ← session.paging.reclaimPageDirRegion (.region slot)
      return ⟨paging, session.clones.erase slot⟩

/-- Clones are only edited outside the replicated regions and only present entries are removed. -/
def Permitted (session : PagingSession) : PagingOperation → Prop
  | .addPage pd vaddr _ _ _ =>
      pd ∈ session.pageDirectories ∧ (pd ≠ .kernel → isReplicated vaddr = false)
  | .removePage pd vaddr =>
      pd ∈ session.pageDirectories ∧ (pd ≠ .kernel → isReplicated vaddr = false) ∧
        session.paging.isVirtualMapped pd vaddr = true
  | .clone => True
  | .reclaim slot => slot ∈ session.clones

def runs (Bounded : PagingSession → Prop) : System PagingSession PagingOperation where
  initial session := session.clones = [] ∧
    ∃ highMemKB slots, Paging.initializePaging highMemKB slots = .ok session.paging
  step session operation after :=
    session.Permitted operation ∧ session.perform operation = .ok after ∧ Bounded after

/-- The mappings of every frame, with its reservation, fit the 16-bit reference count. -/
def FitsRefs (session : PagingSession) : Prop :=
  ∀ frame < 1024, session.mappings frame + Paging.reserved frame < 65536

structure Tracked (session : PagingSession) : Prop where
  distinct : session.clones.Nodup
  slots : ∀ slot, slot ∈ session.clones ↔ slot ∈ session.paging.slots
  counted : ∀ frame < 1024, session.paging.Counted frame
  coherent : session.paging.Coherent

variable {session after : PagingSession} {slot : Nat}

theorem mappings_eq (distinct : session.clones.Nodup)
    (slots : ∀ slot, slot ∈ session.clones ↔ slot ∈ session.paging.slots) (frame : Nat) :
    session.mappings frame = session.paging.mappings frame := by
  have listed : session.clones.toFinset = session.paging.slots := by
    ext slot
    rw [List.mem_toFinset]
    exact slots slot
  rw [Paging.mappings_eq_sum, ← listed, List.sum_toFinset _ distinct, mappings, pageDirectories,
    List.map_cons, List.sum_cons, List.map_map]
  rfl

theorem Tracked.mem_live (tracked : session.Tracked) {pd : PageDirPtr} :
    pd ∈ session.pageDirectories ↔ pd ∈ session.paging.live := by
  cases pd with
  | kernel => simp [pageDirectories]
  | region slot => simp [pageDirectories, tracked.slots]

theorem addPage_tracked (tracked : session.Tracked) {pd : PageDirPtr} {vaddr paddr : UInt32}
    {flags : UInt8} {allowPhysicalReuse : Bool}
    (permitted : session.Permitted (.addPage pd vaddr paddr flags allowPhysicalReuse))
    (performed : session.perform (.addPage pd vaddr paddr flags allowPhysicalReuse) = .ok after)
    (fits : after.FitsRefs) : after.Tracked := by
  obtain ⟨paging, run, done⟩ := bind_eq_ok.mp performed
  obtain rfl := pure_eq_ok.mp done
  obtain ⟨_, aligned, _, installed⟩ :=
    (Paging.addPage_spec session.paging pd vaddr paddr flags allowPhysicalReuse).of_ok run
  have isLive := tracked.mem_live.mp permitted.1
  have same := Paging.slots_congr installed.region
  have slots : ∀ slot, slot ∈ session.clones ↔ slot ∈ paging.slots := by
    rw [same]
    exact tracked.slots
  refine ⟨tracked.distinct, slots, ?_, ?_⟩
  · intro frame bound
    have limit := fits frame bound
    rw [mappings_eq (show (PagingSession.mk paging session.clones).clones.Nodup from tracked.distinct)
      slots] at limit
    exact installed.counted (tracked.counted frame bound) (Paging.targets_subset_live isLive)
      ⟨pd, Paging.self_mem_targets _ _ _⟩ (pageIndex4M_lt vaddr) (frameOf_pageEntry paddr flags) limit
  · exact installed.coherent tracked.coherent (Paging.targets_everywhere aligned permitted.2)

theorem removePage_tracked (tracked : session.Tracked) {pd : PageDirPtr} {vaddr : UInt32}
    (permitted : session.Permitted (.removePage pd vaddr))
    (performed : session.perform (.removePage pd vaddr) = .ok after) : after.Tracked := by
  obtain ⟨paging, run, done⟩ := bind_eq_ok.mp performed
  obtain rfl := pure_eq_ok.mp done
  obtain ⟨aligned, cleared, others⟩ := (Paging.removePage_spec session.paging pd vaddr).of_ok run
  have isLive := tracked.mem_live.mp permitted.1
  have same := Paging.slots_congr cleared.region
  have slots : ∀ slot, slot ∈ session.clones ↔ slot ∈ paging.slots := by
    rw [same]
    exact tracked.slots
  have maps : ∀ query ∈ session.paging.targets pd vaddr,
      frameOf (session.paging.pageDirs query (pageIndex4M vaddr)) =
        some (pageIndex4M (session.paging.pageDirs pd (pageIndex4M vaddr))) := by
    intro query member
    rw [tracked.coherent.target_entry aligned member]
    exact frameOf_eq_some.mpr ⟨permitted.2.2, rfl⟩
  refine ⟨tracked.distinct, slots, ?_, ?_⟩
  · intro frame bound
    exact cleared.counted (tracked.counted frame bound) (Paging.targets_subset_live isLive)
      (pageIndex4M_lt vaddr) maps
  · exact cleared.coherent tracked.coherent (Paging.targets_everywhere aligned permitted.2.1)

theorem Tracked.cloned_slots (tracked : session.Tracked) {paging : Paging}
    (cloned : Paging.Cloned session.paging paging .kernel slot) :
    (slot :: session.clones).Nodup ∧
      ∀ other, other ∈ slot :: session.clones ↔ other ∈ paging.slots := by
  have fresh : slot ∉ session.clones := by
    rw [tracked.slots]
    exact cloned.fresh
  refine ⟨List.nodup_cons.mpr ⟨fresh, tracked.distinct⟩, ?_⟩
  intro other
  rw [List.mem_cons, tracked.slots, cloned.slots, Finset.mem_insert]

theorem clone_tracked (tracked : session.Tracked) (performed : session.perform .clone = .ok after)
    (fits : after.FitsRefs) : after.Tracked := by
  obtain ⟨⟨paging, slot⟩, run, done⟩ := bind_eq_ok.mp performed
  obtain rfl := pure_eq_ok.mp done
  have cloned := (Paging.clone_spec session.paging .kernel).of_ok run
  obtain ⟨distinct, slots⟩ := tracked.cloned_slots cloned
  refine ⟨distinct, slots, ?_, cloned.coherent tracked.coherent⟩
  intro frame bound
  have limit := fits frame bound
  rw [mappings_eq distinct slots] at limit
  exact cloned.counted (tracked.counted frame bound) (Paging.kernel_mem_live _) limit

theorem reclaim_tracked (tracked : session.Tracked) (permitted : session.Permitted (.reclaim slot))
    (performed : session.perform (.reclaim slot) = .ok after) : after.Tracked := by
  obtain ⟨paging, run, done⟩ := bind_eq_ok.mp performed
  obtain rfl := pure_eq_ok.mp done
  have listed := (tracked.slots slot).mp permitted
  have reclaimed :=
    (Paging.reclaimPageDirRegion_spec session.paging (Paging.mem_slots.mp listed).1).of_ok run
  refine ⟨tracked.distinct.erase slot, ?_, ?_, reclaimed.coherent tracked.coherent⟩
  · intro other
    rw [tracked.distinct.mem_erase_iff, reclaimed.slots, Finset.mem_erase, tracked.slots]
  · intro frame bound
    exact reclaimed.counted (tracked.counted frame bound) listed

theorem step_tracked (tracked : session.Tracked) {operation : PagingOperation}
    (stepped : (runs FitsRefs).step session operation after) : after.Tracked := by
  obtain ⟨permitted, performed, fits⟩ := stepped
  cases operation with
  | addPage pd vaddr paddr flags allowPhysicalReuse =>
      exact addPage_tracked tracked permitted performed fits
  | removePage pd vaddr => exact removePage_tracked tracked permitted performed
  | clone => exact clone_tracked tracked performed fits
  | reclaim slot => exact reclaim_tracked tracked permitted performed

theorem reachable_tracked (reachable : (runs FitsRefs).Reachable session) : session.Tracked := by
  refine reachable.invariant Tracked ?_ ?_
  · rintro state ⟨noClones, highMemKB, slots, run⟩
    have initialized := (Paging.initializePaging_spec highMemKB slots).of_ok run
    refine ⟨?_, ?_, fun frame bound => initialized.counted bound, initialized.coherent⟩
    · rw [noClones]
      exact List.nodup_nil
    · intro slot
      rw [noClones, initialized.slots]
      simp
  · intro state operation next tracked stepped
    exact step_tracked tracked stepped

theorem Tracked.addPage_kernel (tracked : session.Tracked) (vaddr paddr : UInt32) (flags : UInt8)
    (allowPhysicalReuse : Bool) :
    session.paging.addPage .kernel vaddr paddr flags allowPhysicalReuse ≠
      .error .otherEntryUsed := by
  intro failed
  obtain ⟨aligned, empty, other, member, _, holds⟩ :=
    (Paging.addPage_spec session.paging .kernel vaddr paddr flags allowPhysicalReuse).of_error failed
  rw [tracked.coherent.target_entry aligned member, empty] at holds
  cases holds

theorem Tracked.removePage_kernel (tracked : session.Tracked) {vaddr : UInt32}
    (isPresent : session.paging.isVirtualMapped .kernel vaddr = true) :
    session.paging.removePage .kernel vaddr ≠ .error .otherEntryMissing := by
  intro failed
  obtain ⟨aligned, other, member, _, missing⟩ :=
    (Paging.removePage_spec session.paging .kernel vaddr).of_error failed
  rw [tracked.coherent.target_entry aligned member] at missing
  rw [Paging.isVirtualMapped, missing] at isPresent
  cases isPresent

/-- Reference counts, bitmap, replicated entries and slots agree in every reachable
state, and the assertions of the propagation loops never fail. -/
theorem paging_consistent (reachable : (runs FitsRefs).Reachable session) :
    (∀ frame < 1024, session.paging.count frame =
      session.mappings frame + Paging.reserved frame) ∧
    (∀ frame < 1024, session.paging.frameUsed frame = true ↔ 0 < session.paging.count frame) ∧
    (∀ slot ∈ session.clones, ∀ index < 1024, isReplicated (pageAddr4M index) = true →
      session.paging.pageDirs (.region slot) index = session.paging.pageDirs .kernel index) ∧
    (∀ vaddr paddr flags allowPhysicalReuse,
      session.paging.addPage .kernel vaddr paddr flags allowPhysicalReuse ≠
        .error .otherEntryUsed) ∧
    (∀ vaddr, session.paging.isVirtualMapped .kernel vaddr = true →
      session.paging.removePage .kernel vaddr ≠ .error .otherEntryMissing) ∧
    session.clones.Nodup ∧
    ∀ slot, slot ∈ session.clones ↔
      slot < kNumPageDirs ∧ session.paging.pageDirRegion.isSet slot = true := by
  have tracked := reachable_tracked reachable
  refine ⟨?_, fun frame bound => (tracked.counted frame bound).used, ?_, tracked.addPage_kernel,
    fun vaddr => tracked.removePage_kernel, tracked.distinct, ?_⟩
  · intro frame bound
    rw [mappings_eq tracked.distinct tracked.slots]
    exact (tracked.counted frame bound).count
  · intro slot listed index bound replicated
    exact tracked.coherent slot ((tracked.slots slot).mp listed) index bound replicated
  · intro slot
    rw [tracked.slots, Paging.mem_slots]
    rfl

def reservedAddress : UInt32 := pageAddr4M 32

/-- A reserved frame can be mapped at any number of kernel addresses, since
`AddPage` may be told to reuse a frame. -/
theorem reserved_mapped (pages : Nat) (few : pages ≤ 257) :
    ∃ session, (runs FitsRefs).Reachable session ∧ session.clones = [] ∧
      (∀ frame, session.paging.mappings frame =
        (if frame = 32 then pages else 0) + if frame = 1 ∨ frame = 2 then 1 else 0) ∧
      ∀ index, 256 + pages ≤ index → present (session.paging.pageDirs .kernel index) = false := by
  induction pages with
  | zero =>
      obtain ⟨paging, run, initialized⟩ :=
        Paging.initializePaging_succeeds (fun _ _ => 0) (show 32 ≤ (131072 : UInt32) * 1024 / kPageSize4M + 1 by decide)
      refine ⟨⟨paging, []⟩, .start ⟨rfl, _, _, run⟩, rfl, ?_, ?_⟩
      · intro frame
        rw [initialized.mappings]
        simp
      · intro index above
        rw [initialized.kernel, if_neg (by omega), if_neg (by omega)]
        exact present_zero
  | succ pages ih =>
      obtain ⟨session, reachable, noClones, mapped, empty⟩ := ih (by omega)
      have tracked := reachable_tracked reachable
      have bound : 256 + pages < 1024 := by omega
      have index := pageIndex4M_pageAddr4M bound
      obtain ⟨paging, run, installed⟩ := Paging.addPage_own_succeeds 0
        (fun _ => isReplicated_user (by omega) bound)
        (show reservedAddress % kPageSize4M = 0 by decide) (pageAddr4M_aligned bound)
        (show true = false → session.paging.frameUsed (pageIndex4M reservedAddress) = false by simp)
        (by rw [index]; exact empty _ (by omega))
      rw [index] at installed
      have maps : ∀ frame, paging.mappings frame =
          (if frame = 32 then pages + 1 else 0) + if frame = 1 ∨ frame = 2 then 1 else 0 := by
        intro frame
        rw [installed.mappings (by simp) bound (frameOf_pageEntry _ _), mapped,
          show pageIndex4M reservedAddress = 32 by decide, Finset.card_singleton]
        split <;> omega
      have slots : ∀ slot, slot ∈ session.clones ↔ slot ∈ paging.slots := by
        rw [Paging.slots_congr installed.region]
        exact tracked.slots
      have performed : session.perform (.addPage .kernel (pageAddr4M (256 + pages)) reservedAddress 0
          true) = .ok ⟨paging, session.clones⟩ := by
        rw [perform, run]
        rfl
      have fits : FitsRefs ⟨paging, session.clones⟩ := by
        intro frame _
        have small := Paging.reserved_le frame
        rw [mappings_eq (show (PagingSession.mk paging session.clones).clones.Nodup from
          tracked.distinct) slots, maps]
        split <;> split <;> omega
      refine ⟨⟨paging, session.clones⟩, reachable.next ⟨?_, performed, fits⟩, noClones, maps, ?_⟩
      · exact ⟨by simp [pageDirectories], by simp⟩
      · intro other above
        rw [installed.pageDirs, if_neg (by omega)]
        exact empty other (by omega)

/-- Cloning multiplies the mappings of the kernel page directory. -/
theorem reserved_cloned (copies : Nat) (few : copies ≤ 253) :
    ∃ session, (runs FitsRefs).Reachable session ∧ session.paging.slots.card = copies ∧
      ∀ frame, session.paging.mapCount .kernel frame =
          (if frame = 32 then 257 else 0) + (if frame = 1 ∨ frame = 2 then 1 else 0) ∧
        session.paging.mappings frame = (copies + 1) * session.paging.mapCount .kernel frame := by
  induction copies with
  | zero =>
      obtain ⟨session, reachable, noClones, mapped, _⟩ := reserved_mapped 257 (by decide)
      have noSlots : session.paging.slots = ∅ := by
        ext slot
        rw [← (reachable_tracked reachable).slots, noClones]
        simp
      refine ⟨session, reachable, by rw [noSlots, Finset.card_empty], ?_⟩
      intro frame
      have sum := session.paging.mappings_eq_sum frame
      rw [noSlots, Finset.sum_empty] at sum
      exact ⟨by rw [← mapped]; omega, by omega⟩
  | succ copies ih =>
      obtain ⟨session, reachable, copied, counts⟩ := ih (by omega)
      have tracked := reachable_tracked reachable
      obtain ⟨paging, slot, run, cloned⟩ := Paging.clone_succeeds session.paging .kernel (by
        rw [copied, kNumPageDirs]
        omega)
      obtain ⟨distinct, slots⟩ := tracked.cloned_slots cloned
      have performed : session.perform .clone = .ok ⟨paging, slot :: session.clones⟩ := by
        rw [perform, run]
        rfl
      have grown : ∀ frame, paging.mapCount .kernel frame =
            (if frame = 32 then 257 else 0) + (if frame = 1 ∨ frame = 2 then 1 else 0) ∧
          paging.mappings frame = (copies + 1 + 1) * paging.mapCount .kernel frame := by
        intro frame
        obtain ⟨kernel, total⟩ := counts frame
        rw [cloned.mapCount_kernel, cloned.mappings, total]
        exact ⟨kernel, (Nat.succ_mul _ _).symm⟩
      have fits : FitsRefs ⟨paging, slot :: session.clones⟩ := by
        intro frame _
        have small := Paging.reserved_le frame
        obtain ⟨kernel, total⟩ := grown frame
        rw [mappings_eq distinct slots, total, kernel]
        split <;> split <;> omega
      refine ⟨⟨paging, slot :: session.clones⟩, reachable.next ⟨?_, performed, fits⟩, ?_, grown⟩
      · exact True.intro
      · rw [cloned.slots, Finset.card_insert_of_notMem cloned.fresh, copied]

theorem paging_consistent_clones :
    ∃ session, (runs FitsRefs).Reachable session ∧ session.paging.count 32 = 772 := by
  obtain ⟨session, reachable, _, counts⟩ := reserved_cloned 2 (by decide)
  have consistent := paging_consistent reachable
  have tracked := reachable_tracked reachable
  refine ⟨session, reachable, ?_⟩
  rw [consistent.1 32 (by decide), mappings_eq tracked.distinct tracked.slots, (counts 32).2,
    (counts 32).1]
  decide

def FewMappings (session : PagingSession) : Prop :=
  ∀ frame < 1024, session.mappings frame < 65536

theorem reachable_fewMappings (reachable : (runs FitsRefs).Reachable session) :
    (runs FewMappings).Reachable session := by
  induction reachable with
  | start isInitial => exact .start isInitial
  | next _ stepped ih =>
      obtain ⟨permitted, performed, fits⟩ := stepped
      refine ih.next ⟨permitted, performed, ?_⟩
      intro frame bound
      have fit := fits frame bound
      omega

/-- With exactly 65535 mappings the count of a reserved frame wraps to zero. -/
theorem reserved_count_wraps :
    ¬∀ session, (runs FewMappings).Reachable session → ∀ frame < 1024,
      session.paging.count frame = session.mappings frame + Paging.reserved frame := by
  intro claim
  obtain ⟨session, reachable, copied, counts⟩ := reserved_cloned 253 (by decide)
  have tracked := reachable_tracked reachable
  obtain ⟨paging, slot, run, cloned⟩ := Paging.clone_succeeds session.paging .kernel (by
    rw [copied]
    decide)
  obtain ⟨distinct, slots⟩ := tracked.cloned_slots cloned
  have total : ∀ frame, paging.mappings frame =
      255 * ((if frame = 32 then 257 else 0) + if frame = 1 ∨ frame = 2 then 1 else 0) := by
    intro frame
    obtain ⟨kernel, total⟩ := counts frame
    rw [cloned.mappings, total, kernel]
    omega
  have performed : session.perform .clone = .ok ⟨paging, slot :: session.clones⟩ := by
    rw [perform, run]
    rfl
  have few : FewMappings ⟨paging, slot :: session.clones⟩ := by
    intro frame _
    rw [mappings_eq distinct slots, total]
    split <;> split <;> omega
  have stepped : (runs FewMappings).step session .clone ⟨paging, slot :: session.clones⟩ :=
    ⟨True.intro, performed, few⟩
  have exact_ := claim _ ((reachable_fewMappings reachable).next stepped) 32 (by decide)
  rw [mappings_eq distinct slots, total, if_pos rfl, if_neg (by decide)] at exact_
  have small := paging.physicalBitmap.count_lt 32
  have reservation : Paging.reserved 32 = 1 := by decide
  rw [reservation] at exact_
  change paging.physicalBitmap.count 32 = _ at exact_
  omega

end PagingSession

end ToyKernel
