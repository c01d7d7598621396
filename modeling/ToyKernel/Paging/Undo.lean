import ToyKernel.Paging.References

/-!
Taking back a mapping. The entries that are not present in a live page directory are zero in every
run, so a page that is added and removed again leaves no trace, not even in the bits of the bitmap.
-/

namespace ToyKernel

open Library

namespace BitArray

variable {numBits : Nat}

theorem ext_isSet {first second : BitArray numBits} (same : ∀ bit, first.isSet bit = second.isSet bit) :
    first = second := by
  cases first with
  | mk bytes =>
      cases second with
      | mk others =>
          congr 1
          funext index
          rw [← UInt8.toBitVec_inj]
          apply BitVec.eq_of_getLsbD_eq
          intro shift bound
          have bit := same (8 * index + shift)
          rw [isSet_eq, isSet_eq] at bit
          have place : (8 * index + shift) / 8 = index := by omega
          have rest : (8 * index + shift) % 8 = shift := by omega
          rw [place, rest] at bit
          exact bit

end BitArray

namespace Paging

def Tidy (state : Paging) : Prop :=
  ∀ pd ∈ state.live, ∀ index, present (state.pageDirs pd index) = false → state.pageDirs pd index = 0

variable {state old new middle after : Paging} {targets : Finset PageDirPtr} {pd : PageDirPtr}
  {index page slot : Nat} {entry : UInt32} {vaddr paddr : UInt32} {flags : UInt8} {allowPhysicalReuse : Bool}

/-- Nothing distinguishes two states with the same entries, counts and bits. -/
theorem ext_counts (pageDirs : ∀ pd index, new.pageDirs pd index = old.pageDirs pd index)
    (count : ∀ frame, new.count frame = old.count frame)
    (used : ∀ frame, new.frameUsed frame = old.frameUsed frame)
    (region : new.pageDirRegion = old.pageDirRegion) : new = old := by
  cases new with
  | mk newDirs newBitmap newRegion =>
      cases old with
      | mk oldDirs oldBitmap oldRegion =>
          have sameDirs : newDirs = oldDirs := by
            funext pd index
            exact pageDirs pd index
          have sameRefs : newBitmap.refs = oldBitmap.refs := by
            funext frame
            exact UInt16.toNat_inj.mp (count frame)
          have sameBits : newBitmap.bits = oldBitmap.bits := BitArray.ext_isSet used
          have sameRegion : newRegion = oldRegion := region
          cases newBitmap
          cases oldBitmap
          cases sameDirs
          cases sameRefs
          cases sameBits
          cases sameRegion
          rfl

theorem Installed.tidy (installed : Installed old new targets index entry page) (tidy : Tidy old)
    (isPresent : present entry = true) : Tidy new := by
  intro pd isLive i absent
  rw [live_congr (slots_congr installed.region)] at isLive
  rw [installed.pageDirs] at absent ⊢
  split at absent
  · rw [isPresent] at absent
    cases absent
  · rename_i elsewhere
    rw [if_neg elsewhere]
    exact tidy pd isLive i absent

theorem Cleared.tidy (cleared : Cleared old new targets index page) (tidy : Tidy old) : Tidy new := by
  intro pd isLive i absent
  rw [live_congr (slots_congr cleared.region)] at isLive
  rw [cleared.pageDirs] at absent ⊢
  split
  · rfl
  · rename_i elsewhere
    rw [if_neg elsewhere] at absent
    exact tidy pd isLive i absent

theorem Cloned.tidy (cloned : Cloned old new pd slot) (tidy : Tidy old) (isLive : pd ∈ old.live) : Tidy new := by
  intro query queryLive i absent
  rw [cloned.pageDirs] at absent ⊢
  split
  · rename_i isNew
    rw [if_pos isNew] at absent
    exact tidy pd isLive i absent
  · rename_i other
    rw [if_neg other] at absent
    exact tidy query ((cloned.mem_live.mp queryLive).resolve_left other) i absent

theorem Reclaimed.tidy (reclaimed : Reclaimed old new slot) (tidy : Tidy old) : Tidy new := by
  intro query isLive i absent
  rw [reclaimed.pageDirs] at absent ⊢
  exact tidy query (reclaimed.mem_live.mp isLive).1 i absent

theorem Initialized.tidy (initialized : Initialized state) : Tidy state := by
  intro pd isLive i absent
  cases pd with
  | region slot =>
      rw [region_mem_live, initialized.slots] at isLive
      simp at isLive
  | kernel =>
      rw [initialized.kernel] at absent ⊢
      by_cases first : i = 1
      · rw [if_pos first, present_pageEntry] at absent
        cases absent
      by_cases second : i = 2
      · rw [if_neg first, if_pos second, present_pageEntry] at absent
        cases absent
      rw [if_neg first, if_neg second]

/-- A page that was just added is removed without a trace. -/
theorem removePage_undoes (tidy : Tidy state) (isLive : pd ∈ state.live)
    (counted : state.frameUsed (pageIndex4M paddr) = true ↔ 0 < state.count (pageIndex4M paddr))
    (added : state.addPage pd vaddr paddr flags allowPhysicalReuse = .ok middle)
    (fits : state.count (pageIndex4M paddr) + (state.targets pd vaddr).card < 65536) :
    middle.removePage pd vaddr = .ok state := by
  obtain ⟨_, aligned, _, installed⟩ := (addPage_spec state pd vaddr paddr flags allowPhysicalReuse).of_ok added
  have sameTargets : middle.targets pd vaddr = state.targets pd vaddr := by
    rw [Paging.targets, Paging.targets, live_congr (slots_congr installed.region)]
  have mapped : ∀ query ∈ state.targets pd vaddr,
      middle.pageDirs query (pageIndex4M vaddr) = pageEntry paddr flags := by
    intro query member
    rw [installed.pageDirs, if_pos ⟨member, rfl⟩]
  have own := mapped pd (self_mem_targets state pd vaddr)
  have counts : middle.count (pageIndex4M paddr) =
      state.count (pageIndex4M paddr) + (state.targets pd vaddr).card := by
    rw [installed.count, if_pos rfl, Nat.mod_eq_of_lt fits]
  obtain ⟨after, removed, cleared⟩ : ∃ after, middle.removePage pd vaddr = .ok after ∧
      Cleared middle after (state.targets pd vaddr) (pageIndex4M vaddr) (pageIndex4M paddr) := by
    have succeeds := @removePage_succeeds middle pd vaddr aligned
      (by rw [sameTargets, own, pageIndex4M_pageEntry, counts]; omega)
      (by
        intro other member _
        rw [mapped other (sameTargets ▸ member)]
        exact present_pageEntry paddr flags)
    rwa [sameTargets, own, pageIndex4M_pageEntry] at succeeds
  have same : after = state := by
    refine ext_counts ?_ ?_ ?_ (cleared.region.trans installed.region)
    · intro query i
      rw [cleared.pageDirs, installed.pageDirs]
      by_cases here : query ∈ state.targets pd vaddr ∧ i = pageIndex4M vaddr
      · rw [if_pos here, here.2]
        exact (tidy query (targets_subset_live isLive here.1) _ (installed.empty query here.1)).symm
      · rw [if_neg here, if_neg here]
    · intro frame
      rw [cleared.count, installed.count]
      by_cases isPage : frame = pageIndex4M paddr
      · rw [if_pos isPage, if_pos isPage, isPage, Nat.mod_eq_of_lt fits, Nat.add_sub_cancel]
      · rw [if_neg isPage, if_neg isPage]
    · intro frame
      rw [Bool.eq_iff_iff, cleared.used, installed.used]
      by_cases isPage : frame = pageIndex4M paddr
      · rw [isPage, counted, counts]
        simp only [true_or, true_and, Nat.add_eq_right]
        omega
      · simp [isPage]
  rw [removed, same]

def OnLive (state : Paging) : DirectoryCall → Prop
  | .addPage pd _ _ _ _ => pd ∈ state.live
  | .removePage pd _ => pd ∈ state.live
  | .clone pd => pd ∈ state.live
  | .reclaim slot => slot ∈ state.slots

def anyRuns : System Paging DirectoryCall where
  initial state := ∃ highMemKB slots, initializePaging highMemKB slots = .ok state
  step state call after := state.OnLive call ∧ state.call call = .ok after

theorem anyRuns_tidy (reachable : anyRuns.Reachable state) : Tidy state := by
  refine reachable.invariant Tidy ?_ ?_
  · rintro start ⟨highMemKB, slots, run⟩
    exact ((initializePaging_spec highMemKB slots).of_ok run).tidy
  · rintro before call next tidy ⟨onLive, run⟩
    cases call with
    | addPage pd vaddr paddr flags allowPhysicalReuse =>
        obtain ⟨_, _, _, installed⟩ := (addPage_spec before pd vaddr paddr flags allowPhysicalReuse).of_ok run
        exact installed.tidy tidy (present_pageEntry paddr flags)
    | removePage pd vaddr =>
        obtain ⟨_, cleared, _⟩ := (removePage_spec before pd vaddr).of_ok run
        exact cleared.tidy tidy
    | clone pd =>
        obtain ⟨⟨copy, slot⟩, copied, done⟩ := bind_eq_ok.mp run
        obtain rfl := pure_eq_ok.mp done
        exact Cloned.tidy ((clone_spec before pd).of_ok copied) tidy onLive
    | reclaim slot =>
        exact ((reclaimPageDirRegion_spec before (mem_slots.mp onLive).1).of_ok run).tidy tidy

end Paging

end ToyKernel
