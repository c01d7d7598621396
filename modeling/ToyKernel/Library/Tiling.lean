import Mathlib.Tactic

/-!
Tilings of an address interval by consecutive nonempty segments. A walk that
advances by each segment's size visits exactly the segments of the tiling.
-/

namespace ToyKernel.Library

structure Segment (τ : Type) where
  start : Nat
  size : Nat
  tag : τ
deriving DecidableEq, Repr

def Segment.stop {τ : Type} (segment : Segment τ) : Nat := segment.start + segment.size

def Tiles {τ : Type} : Nat → List (Segment τ) → Nat → Prop
  | low, [], high => low = high
  | low, segment :: rest, high =>
      segment.start = low ∧ 0 < segment.size ∧ Tiles segment.stop rest high

section
variable {τ : Type} {low high : Nat} {segments first second : List (Segment τ)}

theorem tiles_append :
    Tiles low (first ++ second) high ↔ ∃ middle, Tiles low first middle ∧ Tiles middle second high := by
  induction first generalizing low with
  | nil => simp [Tiles]
  | cons segment rest ih =>
      simp only [List.cons_append, Tiles, ih]
      constructor
      · rintro ⟨start, positive, middle, left, right⟩
        exact ⟨middle, ⟨start, positive, left⟩, right⟩
      · rintro ⟨middle, ⟨start, positive, left⟩, right⟩
        exact ⟨start, positive, middle, left, right⟩

theorem tiles_singleton {segment : Segment τ} :
    Tiles low [segment] high ↔ segment.start = low ∧ 0 < segment.size ∧ segment.stop = high := by
  simp [Tiles]

theorem Tiles.length_le (tiles : Tiles low segments high) : low + segments.length ≤ high := by
  induction segments generalizing low with
  | nil => simp only [Tiles] at tiles; simp [tiles]
  | cons segment rest ih =>
      obtain ⟨start, positive, tail⟩ := tiles
      have bound := ih tail
      simp only [Segment.stop, List.length_cons] at bound ⊢
      omega

theorem Tiles.le (tiles : Tiles low segments high) : low ≤ high := by
  have bound := tiles.length_le
  omega

theorem Tiles.bounds (tiles : Tiles low segments high) {segment : Segment τ}
    (member : segment ∈ segments) :
    low ≤ segment.start ∧ 0 < segment.size ∧ segment.stop ≤ high := by
  induction segments generalizing low with
  | nil => simp at member
  | cons head rest ih =>
      obtain ⟨start, positive, tail⟩ := tiles
      rcases List.mem_cons.mp member with same | later
      · subst segment
        exact ⟨by omega, positive, tail.le⟩
      · obtain ⟨lower, size, upper⟩ := ih tail later
        simp only [Segment.stop] at lower
        exact ⟨by omega, size, upper⟩

theorem Tiles.ordered (tiles : Tiles low segments high) :
    segments.Pairwise fun left right => left.stop ≤ right.start := by
  induction segments generalizing low with
  | nil => exact List.Pairwise.nil
  | cons head rest ih =>
      obtain ⟨start, positive, tail⟩ := tiles
      refine List.Pairwise.cons ?_ (ih tail)
      intro segment member
      exact (tail.bounds member).1

theorem Tiles.start_dvd (tiles : Tiles low segments high) {divisor : Nat} (aligned : divisor ∣ low)
    (multiples : ∀ segment ∈ segments, divisor ∣ segment.size) :
    ∀ segment ∈ segments, divisor ∣ segment.start := by
  induction segments generalizing low with
  | nil => simp
  | cons head rest ih =>
      obtain ⟨start, positive, tail⟩ := tiles
      have headSize := multiples head (by simp)
      have restStarts := ih tail
        (by rw [Segment.stop, start]; exact Nat.dvd_add aligned headSize)
        (fun segment member => multiples segment (by simp [member]))
      intro segment member
      rcases List.mem_cons.mp member with same | later
      · rw [same, start]
        exact aligned
      · exact restStarts segment later

theorem Tiles.eq_of_overlap (tiles : Tiles low segments high) {left right : Segment τ}
    (leftMember : left ∈ segments) (rightMember : right ∈ segments) (address : Nat)
    (inLeft : left.start ≤ address ∧ address < left.stop)
    (inRight : right.start ≤ address ∧ address < right.stop) : left = right := by
  induction segments generalizing low with
  | nil => simp at leftMember
  | cons head rest ih =>
      obtain ⟨start, positive, tail⟩ := tiles
      rcases List.mem_cons.mp leftMember with leftHead | leftRest <;>
        rcases List.mem_cons.mp rightMember with rightHead | rightRest
      · rw [leftHead, rightHead]
      · have after := (tail.bounds rightRest).1
        subst left
        omega
      · have after := (tail.bounds leftRest).1
        subst right
        omega
      · exact ih tail leftRest rightRest

theorem Tiles.apart (tiles : Tiles low segments high) {left right : Segment τ}
    (leftMember : left ∈ segments) (rightMember : right ∈ segments) (different : left ≠ right) :
    left.stop ≤ right.start ∨ right.stop ≤ left.start := by
  by_contra overlap
  have leftPositive := (tiles.bounds leftMember).2.1
  have rightPositive := (tiles.bounds rightMember).2.1
  refine different (tiles.eq_of_overlap leftMember rightMember
    (max left.start right.start) ?_ ?_)
  · simp only [Segment.stop] at overlap ⊢
    omega
  · simp only [Segment.stop] at overlap ⊢
    omega

theorem Tiles.nodup (tiles : Tiles low segments high) : segments.Nodup := by
  have separated := tiles.ordered
  refine separated.imp_of_mem ?_
  intro left right leftMember _ apart same
  subst right
  have positive := (tiles.bounds leftMember).2.1
  simp only [Segment.stop] at apart
  omega

theorem Tiles.lower_iff {before after : List (Segment τ)} {segment other : Segment τ}
    (tiles : Tiles low (before ++ segment :: after) high)
    (listed : other ∈ before ++ segment :: after) :
    other.start < segment.start ↔ other ∈ before := by
  obtain ⟨middle, front, start, positive, back⟩ := tiles_append.mp tiles
  constructor
  · intro lower
    rcases List.mem_append.mp listed with inFront | inBack
    · exact inFront
    · rcases List.mem_cons.mp inBack with rfl | later
      · omega
      · have above := (back.bounds later).1
        simp only [Segment.stop] at above
        omega
  · intro inFront
    obtain ⟨_, size, upper⟩ := front.bounds inFront
    simp only [Segment.stop] at upper
    omega

theorem Tiles.refine {before after pieces : List (Segment τ)} {segment : Segment τ}
    (tiles : Tiles low (before ++ segment :: after) high)
    (inner : Tiles segment.start pieces segment.stop) :
    Tiles low (before ++ (pieces ++ after)) high := by
  obtain ⟨middle, left, start, _, right⟩ := tiles_append.mp tiles
  refine tiles_append.mpr ⟨middle, left, tiles_append.mpr ⟨segment.stop, ?_, right⟩⟩
  rw [← start]
  exact inner

theorem Tiles.merge {before after : List (Segment τ)} {left right merged : Segment τ}
    (tiles : Tiles low (before ++ left :: right :: after) high)
    (start : merged.start = left.start) (size : merged.size = left.size + right.size) :
    Tiles low (before ++ merged :: after) high := by
  obtain ⟨middle, front, leftStart, positive, rightStart, _, rest⟩ := tiles_append.mp tiles
  refine tiles_append.mpr ⟨middle, front, by omega, by omega, ?_⟩
  have stop : merged.stop = right.stop := by
    simp only [Segment.stop] at rightStart ⊢
    omega
  rw [stop]
  exact rest

end

end ToyKernel.Library
