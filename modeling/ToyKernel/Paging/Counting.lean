import ToyKernel.Paging.Effects

/-!
The true number of mappings of a frame over all live page directories, and how each
paging operation moves it. The reference counts of the code are compared with it.
-/

namespace ToyKernel

open Library

namespace Paging

def table (state : Paging) (key : PageDirPtr × Nat) : Option Nat :=
  frameOf (state.pageDirs key.1 key.2)

def keys (state : Paging) : Finset (PageDirPtr × Nat) :=
  state.live ×ˢ indices

def mappings (state : Paging) (frame : Nat) : Nat := occurrences state.keys state.table frame

variable {old new state : Paging} {targets : Finset PageDirPtr} {index page : Nat} {entry : UInt32}
  {pd : PageDirPtr} {slot : Nat}

theorem mem_keys {key : PageDirPtr × Nat} :
    key ∈ state.keys ↔ key.1 ∈ state.live ∧ key.2 < 1024 := by
  rw [keys, Finset.mem_product, mem_indices]

theorem live_congr (same : new.slots = old.slots) : new.live = old.live := by
  rw [live, live, clones, clones, same]

theorem keys_congr (same : new.pageDirRegion = old.pageDirRegion) : new.keys = old.keys := by
  rw [keys, keys, live_congr (slots_congr same)]

theorem targets_subset_live {vaddr : UInt32} (isLive : pd ∈ state.live) :
    state.targets pd vaddr ⊆ state.live := by
  unfold Paging.targets
  split
  · exact Finset.Subset.refl _
  · simpa using isLive

theorem mappings_pos (isLive : pd ∈ state.live) (bound : index < 1024)
    (maps : frameOf (state.pageDirs pd index) = some page) : 0 < state.mappings page :=
  occurrences_pos (mem_keys.mpr ⟨isLive, bound⟩ : (pd, index) ∈ state.keys) maps

theorem row_subset (isLive : pd ∈ state.live) :
    ({pd} ×ˢ indices) ⊆ state.keys := by
  intro key member
  rw [Finset.mem_product, Finset.mem_singleton] at member
  rw [keys, Finset.mem_product, member.1]
  exact ⟨isLive, member.2⟩

theorem mapCount_eq (state : Paging) (pd : PageDirPtr) (frame : Nat) :
    state.mapCount pd frame =
      occurrences ({pd} ×ˢ indices) state.table frame :=
  (occurrences_row pd _ state.table frame).symm

theorem mapCount_le_mappings (isLive : pd ∈ state.live) (frame : Nat) :
    state.mapCount pd frame ≤ state.mappings frame := by
  rw [mapCount_eq, mappings, occurrences_split (row_subset isLive)]
  omega

theorem keys_insert (slots : new.slots = insert slot old.slots) :
    new.keys = old.keys ∪ ({.region slot} ×ˢ indices) := by
  ext key
  simp only [keys, live, clones, slots, Finset.mem_union, Finset.mem_product, Finset.mem_insert,
    Finset.image_insert, Finset.mem_singleton]
  tauto

theorem row_disjoint (fresh : slot ∉ state.slots) :
    Disjoint state.keys ({.region slot} ×ˢ indices) := by
  rw [Finset.disjoint_left]
  rintro ⟨query, i⟩ listed row
  rw [Finset.mem_product, Finset.mem_singleton] at row
  obtain ⟨rfl, _⟩ := row
  exact fresh (region_mem_live.mp (mem_keys.mp listed).1)

theorem mappings_insert (slots : new.slots = insert slot old.slots) (fresh : slot ∉ old.slots)
    (same : ∀ query ∈ old.live, new.pageDirs query = old.pageDirs query) (frame : Nat) :
    new.mappings frame = old.mappings frame + new.mapCount (.region slot) frame := by
  rw [mappings, keys_insert slots, occurrences_union (row_disjoint fresh), mapCount_eq, mappings]
  congr 1
  refine occurrences_congr ?_
  intro key listed
  rw [table, table, same key.1 (mem_keys.mp listed).1]

theorem mappings_eq_sum (state : Paging) (frame : Nat) :
    state.mappings frame = state.mapCount .kernel frame +
      ∑ slot ∈ state.slots, state.mapCount (.region slot) frame := by
  have split : ∀ slots : Finset Nat,
      occurrences ((insert .kernel (slots.image .region)) ×ˢ indices)
        state.table frame =
      state.mapCount .kernel frame + ∑ slot ∈ slots, state.mapCount (.region slot) frame := by
    intro slots
    induction slots using Finset.induction_on with
    | empty =>
        rw [mapCount_eq]
        rfl
    | insert slot rest fresh ih =>
        have apart : Disjoint ((insert .kernel (rest.image .region)) ×ˢ indices)
            (({.region slot} : Finset PageDirPtr) ×ˢ indices) := by
          rw [Finset.disjoint_product, Finset.disjoint_singleton_right]
          exact Or.inl (by simp [fresh])
        rw [Finset.sum_insert fresh, Finset.image_insert, Finset.insert_comm,
          Finset.insert_eq (PageDirPtr.region slot), Finset.union_comm, Finset.union_product,
          occurrences_union apart, ih, mapCount_eq _ (PageDirPtr.region slot)]
        omega
  exact split state.slots

namespace Installed

theorem mappings (installed : Installed old new targets index entry page)
    (listed : targets ⊆ old.live) (bound : index < 1024) (maps : frameOf entry = some page)
    (frame : Nat) : new.mappings frame =
      old.mappings frame + if frame = page then targets.card else 0 := by
  have cells : (targets ×ˢ {index}) ⊆ old.keys := by
    intro key member
    rw [Finset.mem_product, Finset.mem_singleton] at member
    exact mem_keys.mpr ⟨listed member.1, member.2 ▸ bound⟩
  rw [Paging.mappings, keys_congr installed.region, Paging.mappings,
    occurrences_fill cells ?_ ?_ ?_, Finset.card_product, Finset.card_singleton, Nat.mul_one]
  · rintro ⟨query, i⟩ member
    rw [Finset.mem_product, Finset.mem_singleton] at member
    obtain ⟨isTarget, rfl⟩ := member
    exact frameOf_eq_none.mpr (installed.empty query isTarget)
  · rintro ⟨query, i⟩ member
    rw [Finset.mem_product, Finset.mem_singleton] at member
    rw [table, installed.pageDirs, if_pos ⟨member.1, member.2⟩, maps]
  · rintro ⟨query, i⟩ _ outside
    rw [Finset.mem_product, Finset.mem_singleton] at outside
    rw [table, installed.pageDirs, if_neg outside]
    rfl

theorem live (installed : Installed old new targets index entry page) : new.live = old.live :=
  live_congr (slots_congr installed.region)

end Installed

namespace Cleared

theorem live (cleared : Cleared old new targets index page) : new.live = old.live :=
  live_congr (slots_congr cleared.region)

theorem mappings (cleared : Cleared old new targets index page) (listed : targets ⊆ old.live)
    (bound : index < 1024) (maps : ∀ query ∈ targets, frameOf (old.pageDirs query index) = some page)
    (frame : Nat) : old.mappings frame =
      new.mappings frame + if frame = page then targets.card else 0 := by
  have cells : (targets ×ˢ {index}) ⊆ old.keys := by
    intro key member
    rw [Finset.mem_product, Finset.mem_singleton] at member
    exact mem_keys.mpr ⟨listed member.1, member.2 ▸ bound⟩
  rw [Paging.mappings, Paging.mappings, keys_congr cleared.region,
    occurrences_fill cells ?_ ?_ ?_, Finset.card_product, Finset.card_singleton, Nat.mul_one]
  · rintro ⟨query, i⟩ member
    rw [Finset.mem_product, Finset.mem_singleton] at member
    rw [table, cleared.pageDirs, if_pos ⟨member.1, member.2⟩, frameOf_zero]
  · rintro ⟨query, i⟩ member
    rw [Finset.mem_product, Finset.mem_singleton] at member
    obtain ⟨isTarget, rfl⟩ := member
    exact maps query isTarget
  · rintro ⟨query, i⟩ _ outside
    rw [Finset.mem_product, Finset.mem_singleton] at outside
    rw [table, table, cleared.pageDirs, if_neg outside]

end Cleared

theorem Cloned.mappings (cloned : Cloned old new pd slot) (frame : Nat) :
    new.mappings frame = old.mappings frame + old.mapCount pd frame := by
  rw [mappings_insert cloned.slots cloned.fresh ?_]
  · rw [mapCount, mapCount, cloned.pageDirs, if_pos rfl]
  · intro query isLive
    rw [cloned.pageDirs, if_neg]
    rintro rfl
    exact cloned.fresh (region_mem_live.mp isLive)

theorem Cloned.mapCount_kernel (cloned : Cloned old new pd slot) (frame : Nat) :
    new.mapCount .kernel frame = old.mapCount .kernel frame := by
  rw [mapCount, mapCount, cloned.pageDirs, if_neg (by simp)]

theorem Cloned.mem_live (cloned : Cloned old new pd slot) {query : PageDirPtr} :
    query ∈ new.live ↔ query = .region slot ∨ query ∈ old.live := by
  rw [live, clones, cloned.slots, live, clones, Finset.image_insert]
  simp only [Finset.mem_insert]
  tauto

theorem Reclaimed.mappings (reclaimed : Reclaimed old new slot) (listed : slot ∈ old.slots)
    (frame : Nat) : old.mappings frame = new.mappings frame + old.mapCount (.region slot) frame := by
  refine mappings_insert ?_ ?_ ?_ frame
  · rw [reclaimed.slots, Finset.insert_erase listed]
  · rw [reclaimed.slots]
    exact Finset.notMem_erase slot old.slots
  · intro query _
    rw [reclaimed.pageDirs]

theorem Reclaimed.mem_live (reclaimed : Reclaimed old new slot) {query : PageDirPtr} :
    query ∈ new.live ↔ query ∈ old.live ∧ query ≠ .region slot := by
  cases query with
  | kernel => simp
  | region other =>
      rw [region_mem_live, region_mem_live, reclaimed.slots, Finset.mem_erase]
      simp [and_comm]

theorem slots_card_le (state : Paging) : state.slots.card ≤ 1024 := by
  have within : state.slots ⊆ Finset.range 1024 := by
    intro slot listed
    rw [Finset.mem_range]
    exact (mem_slots.mp listed).1
  simpa using Finset.card_le_card within

theorem mappings_le {frame : Nat} (single : ∀ pd ∈ state.live, state.mapCount pd frame ≤ 1) :
    state.mappings frame ≤ 1025 := by
  have kernel := single .kernel (kernel_mem_live state)
  have clones : ∑ slot ∈ state.slots, state.mapCount (.region slot) frame ≤ state.slots.card := by
    rw [Finset.card_eq_sum_ones]
    apply Finset.sum_le_sum
    intro slot listed
    exact single (.region slot) (region_mem_live.mpr listed)
  have few := state.slots_card_le
  rw [mappings_eq_sum]
  omega

theorem live_card_le (state : Paging) : state.live.card ≤ 1025 := by
  have few := state.slots_card_le
  have images : state.clones.card ≤ state.slots.card := Finset.card_image_le
  have inserted := Finset.card_insert_le PageDirPtr.kernel state.clones
  rw [live]
  omega

theorem Installed.mapCount_other (installed : Installed old new targets index entry page)
    (maps : frameOf entry = some page) (pd : PageDirPtr) {frame : Nat} (other : frame ≠ page) :
    new.mapCount pd frame ≤ old.mapCount pd frame := by
  apply occurrences_mono
  intro i _ holds
  rw [installed.pageDirs] at holds
  split at holds
  · rw [maps] at holds
    exact absurd (Option.some.inj holds).symm other
  · exact holds

theorem Installed.mapCount_kernel (installed : Installed old new targets index entry page)
    (outside : .kernel ∉ targets) (frame : Nat) :
    new.mapCount .kernel frame = old.mapCount .kernel frame := by
  apply occurrences_congr
  intro i _
  rw [installed.pageDirs, if_neg (by simp [outside])]

theorem Installed.mapCount_fresh (installed : Installed old new targets index entry page)
    (free : old.mappings page = 0) {pd : PageDirPtr} (isLive : pd ∈ old.live) :
    new.mapCount pd page ≤ 1 := by
  apply occurrences_le_one
  have here : ∀ i ∈ indices, frameOf (new.pageDirs pd i) = some page → i = index := by
    intro i member holds
    rw [installed.pageDirs] at holds
    split at holds
    · rename_i target
      exact target.2
    · have positive := mappings_pos isLive (mem_indices.mp member) holds
      omega
  intro left leftMember right rightMember leftMaps rightMaps
  rw [here left leftMember leftMaps, here right rightMember rightMaps]

theorem unmapped_of_mapCount {frame i : Nat} (zero : state.mapCount pd frame = 0) (bound : i < 1024) :
    frameOf (state.pageDirs pd i) ≠ some frame :=
  ne_of_occurrences_zero zero (mem_indices.mpr bound)

theorem unmapped_of_mappings {frame i : Nat} (zero : state.mappings frame = 0)
    (isLive : pd ∈ state.live) (bound : i < 1024) : frameOf (state.pageDirs pd i) ≠ some frame := by
  intro holds
  have positive := mappings_pos isLive bound holds
  omega

end Paging

end ToyKernel
