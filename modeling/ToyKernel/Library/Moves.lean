import Mathlib.Tactic

/-!
Moves of single cells, one after the other: what a sequence of moves leaves behind, and what a
sequence that is right for every content must look like.
-/

namespace ToyKernel.Library

variable {Place Value : Type} {source target wanted : Nat → Place} {count : Nat}

structure Ordered (source target : Nat → Place) (count : Nat) : Prop where
  forward : ∀ i j, i < j → j < count → target i ≠ source j
  consistent : ∀ i j, i < count → j < count → target i = target j → source i = source j

theorem Ordered.fewer (ordered : Ordered source target (count + 1)) : Ordered source target count := by
  refine ⟨?_, ?_⟩
  · intro i j before below
    exact ordered.forward i j before (by omega)
  · intro i j first second
    exact ordered.consistent i j (by omega) (by omega)

variable [DecidableEq Place]

def moves (source target : Nat → Place) : Nat → (Place → Value) → Place → Value
  | 0, cells => cells
  | count + 1, cells =>
      Function.update (moves source target count cells) (target count)
        (moves source target count cells (source count))

theorem moves_first (source target : Nat → Place) (count : Nat) (cells : Place → Value) :
    moves (fun i => source (i + 1)) (fun i => target (i + 1)) count
        (Function.update cells (target 0) (cells (source 0))) =
      moves source target (count + 1) cells := by
  induction count with
  | zero => rfl
  | succ count ih =>
      rw [moves, ih]
      rfl

theorem moves_same {otherSource otherTarget : Nat → Place} (sources : ∀ i < count, otherSource i = source i)
    (targets : ∀ i < count, otherTarget i = target i) (cells : Place → Value) :
    moves otherSource otherTarget count cells = moves source target count cells := by
  induction count with
  | zero => rfl
  | succ count ih =>
      rw [moves, moves, sources count (by omega), targets count (by omega),
        ih (fun i below => sources i (by omega)) fun i below => targets i (by omega)]

theorem moves_other (cells : Place → Value) {place : Place} (spared : ∀ i < count, target i ≠ place) :
    moves source target count cells place = cells place := by
  induction count with
  | zero => rfl
  | succ count ih =>
      rw [moves, Function.update_of_ne (spared count (by omega)).symm]
      exact ih fun i below => spared i (by omega)

theorem moves_target (ordered : Ordered source target count) (cells : Place → Value) {i : Nat}
    (below : i < count) : moves source target count cells (target i) = cells (source i) := by
  induction count with
  | zero => omega
  | succ count ih =>
      have last : moves source target count cells (source count) = cells (source count) :=
        moves_other cells fun j earlier => ordered.forward j count earlier (by omega)
      by_cases same : target i = target count
      · rw [moves, same, Function.update_self, last,
          ordered.consistent i count below (by omega) same]
      · rw [moves, Function.update_of_ne same]
        refine ih ordered.fewer (Nat.lt_of_le_of_ne (by omega) ?_)
        rintro rfl
        exact same rfl

theorem moves_congr {cells others : Place → Value} (agree : ∀ i < count, cells (source i) = others (source i))
    {place : Place} (known : (∃ i < count, target i = place) ∨ cells place = others place) :
    moves source target count cells place = moves source target count others place := by
  induction count generalizing place with
  | zero =>
      rcases known with ⟨i, below, _⟩ | same
      · omega
      · exact same
  | succ count ih =>
      have earlier : ∀ i < count, cells (source i) = others (source i) := fun i below => agree i (by omega)
      rw [moves, moves]
      by_cases here : place = target count
      · rw [here, Function.update_self, Function.update_self]
        exact ih earlier (Or.inr (agree count (by omega)))
      · rw [Function.update_of_ne here, Function.update_of_ne here]
        refine ih earlier (known.imp_left ?_)
        rintro ⟨i, below, same⟩
        refine ⟨i, Nat.lt_of_le_of_ne (by omega) ?_, same⟩
        rintro rfl
        exact here same.symm

/-- A source that is overwritten before its move is lost. -/
theorem moves_lost {cells others : Place → Value} {i j : Nat} (before : i < j) (overwritten : target i = source j)
    (unread : ∀ k < j, source k ≠ source j)
    (agree : ∀ place, place ≠ source j → cells place = others place) (later : i < count) :
    moves source target count cells = moves source target count others := by
  have apart : ∀ k ≤ i, ∀ place, place ≠ source j →
      moves source target k cells place = moves source target k others place := by
    intro k early place different
    refine moves_congr ?_ (Or.inr (agree place different))
    intro m below
    exact agree _ (unread m (by omega))
  induction count with
  | zero => omega
  | succ count ih =>
      by_cases isLast : i = count
      · subst isLast
        funext place
        rw [moves, moves, apart i (by omega) _ (unread i before)]
        by_cases here : place = target i
        · rw [here, Function.update_self, Function.update_self]
        · rw [Function.update_of_ne here, Function.update_of_ne here]
          exact apart i (by omega) place (overwritten ▸ here)
      · rw [moves, moves, ih (by omega)]

section Correct

variable [Nontrivial Value]

variable (Value) in
theorem exists_differ (place : Place) : ∃ cells others : Place → Value,
    cells place ≠ others place ∧ ∀ query, query ≠ place → cells query = others query := by
  obtain ⟨first, second, different⟩ := exists_pair_ne Value
  refine ⟨fun _ => first, Function.update (fun _ => first) place second, ?_, ?_⟩
  · rwa [Function.update_self]
  · intro query other
    rw [Function.update_of_ne other]

variable (Value) in
theorem places_eq {first second : Place} (same : ∀ cells : Place → Value, cells first = cells second) :
    first = second := by
  by_contra different
  obtain ⟨cells, others, differ, agree⟩ := exists_differ Value first
  apply differ
  rw [same cells, same others]
  exact agree second (Ne.symm different)

/-- Moves that bring every source to its place never overwrite a source that is still to be read. -/
theorem forward_of_correct (injective : ∀ i j, i < count → j < count → source i = source j → i = j)
    (correct : ∀ cells : Place → Value, ∀ i < count,
      moves source target count cells (wanted i) = cells (source i))
    {i j : Nat} (before : i < j) (below : j < count) : target i ≠ source j := by
  intro overwritten
  obtain ⟨cells, others, differ, agree⟩ := exists_differ Value (source j)
  apply differ
  rw [← correct cells j below, ← correct others j below]
  refine congrFun (moves_lost before overwritten ?_ agree (by omega)) _
  intro k earlier same
  have := injective k j (by omega) below same
  omega

/-- A cell that ends up at a target is one of the cells read. -/
theorem source_of_correct
    (correct : ∀ cells : Place → Value, ∀ i < count,
      moves source target count cells (target i) = cells (wanted i))
    {i : Nat} (below : i < count) : ∃ k < count, source k = wanted i := by
  by_contra missing
  push Not at missing
  obtain ⟨cells, others, differ, agree⟩ := exists_differ Value (wanted i)
  apply differ
  rw [← correct cells i below, ← correct others i below]
  refine moves_congr ?_ (Or.inl ⟨i, below, rfl⟩)
  intro k inside
  exact agree _ (missing k inside)

/-- A move to a place that is not wanted shows, unless another one goes to the wanted place. -/
theorem target_of_correct (injective : ∀ i j, i < count → j < count → source i = source j → i = j)
    (single : ∀ i j, i < count → j < count → target i = target j → i = j)
    (correct : ∀ cells : Place → Value, ∀ i < count,
      moves source target count cells (wanted i) = cells (source i))
    {k : Nat} (below : k < count)
    (kept : ∀ cells : Place → Value, moves source target count cells (target k) = cells (target k)) :
    ∃ i < count, target i = wanted k := by
  by_contra missing
  push Not at missing
  have ordered : Ordered source target count := by
    refine ⟨?_, ?_⟩
    · intro i j before inside
      exact forward_of_correct injective correct before inside
    · intro i j first second same
      rw [single i j first second same]
  have unmoved : wanted k = source k := by
    apply places_eq Value
    intro cells
    rw [← correct cells k below, moves_other cells missing]
  have same : source k = target k := by
    apply places_eq Value
    intro cells
    rw [← kept cells, moves_target ordered cells below]
  exact missing k below (same.symm.trans unmoved.symm)

end Correct

end ToyKernel.Library
