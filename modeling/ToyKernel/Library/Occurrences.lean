import Mathlib.Tactic

/-!
How often a value occurs in a finite table whose slots may be empty, and how the
number changes when slots are filled, emptied or added.
-/

namespace ToyKernel.Library

variable {ι φ : Type} [DecidableEq φ]

def occurrences (keys : Finset ι) (table : ι → Option φ) (value : φ) : Nat :=
  (keys.filter fun key => table key = some value).card

section
variable {keys more targets : Finset ι} {table table' : ι → Option φ} {value other : φ}

theorem occurrences_congr (same : ∀ key ∈ keys, table' key = table key) :
    occurrences keys table' value = occurrences keys table value := by
  unfold occurrences
  congr 1
  refine Finset.filter_congr ?_
  intro key member
  rw [same key member]

theorem occurrences_pos {key : ι} (member : key ∈ keys) (holds : table key = some value) :
    0 < occurrences keys table value :=
  Finset.card_pos.mpr ⟨key, Finset.mem_filter.mpr ⟨member, holds⟩⟩

theorem ne_of_occurrences_zero (none : occurrences keys table value = 0) {key : ι}
    (member : key ∈ keys) : table key ≠ some value := by
  intro holds
  have positive := occurrences_pos member holds
  omega

theorem occurrences_zero (absent : ∀ key ∈ keys, table key ≠ some value) :
    occurrences keys table value = 0 := by
  rw [occurrences, Finset.card_eq_zero, Finset.filter_eq_empty_iff]
  exact absent

theorem exists_of_occurrences_pos (positive : 0 < occurrences keys table value) :
    ∃ key ∈ keys, table key = some value := by
  obtain ⟨key, member⟩ := Finset.card_pos.mp positive
  exact ⟨key, (Finset.mem_filter.mp member).1, (Finset.mem_filter.mp member).2⟩

theorem occurrences_mono (fewer : ∀ key ∈ keys, table' key = some value → table key = some value) :
    occurrences keys table' value ≤ occurrences keys table value := by
  refine Finset.card_le_card ?_
  intro key member
  obtain ⟨listed, holds⟩ := Finset.mem_filter.mp member
  exact Finset.mem_filter.mpr ⟨listed, fewer key listed holds⟩

theorem occurrences_le_one (unique : ∀ left ∈ keys, ∀ right ∈ keys, table left = some value →
    table right = some value → left = right) : occurrences keys table value ≤ 1 := by
  refine Finset.card_le_one.mpr ?_
  intro left leftMember right rightMember
  rw [Finset.mem_filter] at leftMember rightMember
  exact unique left leftMember.1 right rightMember.1 leftMember.2 rightMember.2

theorem eq_of_occurrences_le_one (atMost : occurrences keys table value ≤ 1) {left right : ι}
    (leftMember : left ∈ keys) (rightMember : right ∈ keys) (leftHolds : table left = some value)
    (rightHolds : table right = some value) : left = right :=
  Finset.card_le_one.mp atMost left (Finset.mem_filter.mpr ⟨leftMember, leftHolds⟩) right
    (Finset.mem_filter.mpr ⟨rightMember, rightHolds⟩)

/-- The restriction of a two-level table to one row. -/
theorem occurrences_row {κ : Type} (row : ι) (columns : Finset κ)
    (table : ι × κ → Option φ) (value : φ) :
    occurrences ({row} ×ˢ columns) table value =
      occurrences columns (fun column => table (row, column)) value := by
  have image : (({row} ×ˢ columns).filter fun key => table key = some value) =
      (columns.filter fun column => table (row, column) = some value).map
        ⟨Prod.mk row, Prod.mk_right_injective row⟩ := by
    ext ⟨left, column⟩
    simp only [Finset.mem_filter, Finset.mem_product, Finset.mem_singleton, Finset.mem_map,
      Function.Embedding.coeFn_mk, Prod.mk.injEq]
    constructor
    · rintro ⟨⟨rfl, member⟩, holds⟩
      exact ⟨column, ⟨member, holds⟩, rfl, rfl⟩
    · rintro ⟨column, ⟨member, holds⟩, rfl, rfl⟩
      exact ⟨⟨rfl, member⟩, holds⟩
  rw [occurrences, image, Finset.card_map]
  rfl

variable [DecidableEq ι]

theorem occurrences_union (apart : Disjoint keys more) :
    occurrences (keys ∪ more) table value =
      occurrences keys table value + occurrences more table value := by
  rw [occurrences, Finset.filter_union]
  exact Finset.card_union_of_disjoint (Finset.disjoint_filter_filter apart)

theorem occurrences_split (listed : targets ⊆ keys) :
    occurrences keys table value =
      occurrences (keys \ targets) table value + occurrences targets table value := by
  rw [← occurrences_union Finset.sdiff_disjoint, Finset.sdiff_union_of_subset listed]

theorem occurrences_fill (listed : targets ⊆ keys) (empty : ∀ key ∈ targets, table key = none)
    (filled : ∀ key ∈ targets, table' key = some value)
    (kept : ∀ key ∈ keys, key ∉ targets → table' key = table key) :
    occurrences keys table' other =
      occurrences keys table other + if other = value then targets.card else 0 := by
  have outside : occurrences (keys \ targets) table' other =
      occurrences (keys \ targets) table other := by
    refine occurrences_congr ?_
    intro key member
    obtain ⟨inKeys, notTarget⟩ := Finset.mem_sdiff.mp member
    exact kept key inKeys notTarget
  have before : occurrences targets table other = 0 := by
    refine occurrences_zero ?_
    intro key member
    simp [empty key member]
  have after : occurrences targets table' other = if other = value then targets.card else 0 := by
    by_cases same : other = value
    · rw [if_pos same, occurrences, Finset.filter_true_of_mem]
      intro key member
      rw [filled key member, same]
    · rw [if_neg same]
      refine occurrences_zero ?_
      intro key member
      rw [filled key member]
      simp [Ne.symm same]
  rw [occurrences_split listed, outside, after, occurrences_split listed, before, Nat.add_zero]

end

end ToyKernel.Library
