import Mathlib.Tactic

/-!
Refinement of an abstract object by an implementation, over sequences of operations. The
abstract operation says which calls are valid, the implementation may fail, and a condition on
the states before a call singles out the calls that keep the two together.
-/

namespace ToyKernel.Library

variable {Op State Abstract ε : Type}

def performAll (perform : State → Op → Except ε State) (state : State) (ops : List Op) : Except ε State :=
  ops.foldlM perform state

def applyAll (apply : Abstract → Op → Option Abstract) (abstract : Abstract) (ops : List Op) :
    Option Abstract :=
  ops.foldlM apply abstract

section Sequences

variable (perform : State → Op → Except ε State) (apply : Abstract → Op → Option Abstract)

theorem performAll_concat (state : State) (ops : List Op) (op : Op) :
    performAll perform state (ops ++ [op]) = (performAll perform state ops).bind (perform · op) := by
  unfold performAll
  rw [List.foldlM_append]
  cases ops.foldlM perform state with
  | error fault => rfl
  | ok middle => exact bind_pure (perform middle op)

theorem applyAll_concat (abstract : Abstract) (ops : List Op) (op : Op) :
    applyAll apply abstract (ops ++ [op]) = (applyAll apply abstract ops).bind (apply · op) := by
  unfold applyAll
  rw [List.foldlM_append]
  cases ops.foldlM apply abstract with
  | none => rfl
  | some middle => exact bind_pure (apply middle op)

theorem performAll_cons {state after : State} {op : Op} {ops : List Op} :
    performAll perform state (op :: ops) = .ok after ↔
      ∃ next, perform state op = .ok next ∧ performAll perform next ops = .ok after := by
  rw [performAll, List.foldlM_cons]
  cases perform state op with
  | error fault =>
      constructor
      · intro failed
        cases failed
      · rintro ⟨_, failed, _⟩
        cases failed
  | ok next =>
      constructor
      · intro done
        exact ⟨next, rfl, done⟩
      · rintro ⟨_, same, done⟩
        cases same
        exact done

/-- Where each call changes what is seen of the state as the abstract operation says, and fails where it
has no result, a sequence does. -/
theorem performAll_commutes {see : State → Abstract}
    (commutes : ∀ state op, (perform state op).toOption.map see = apply (see state) op) (state : State)
    (ops : List Op) : (performAll perform state ops).toOption.map see = applyAll apply (see state) ops := by
  induction ops using List.reverseRecOn with
  | nil => rfl
  | append_singleton ops op ih =>
      rw [performAll_concat, applyAll_concat, ← ih]
      cases performAll perform state ops with
      | error fault => rfl
      | ok middle => exact commutes middle op

end Sequences

/-- Clean calls keep the implementation related to the abstract object, and related states show
it. -/
structure Simulation (perform : State → Op → Except ε State) (apply : Abstract → Op → Option Abstract)
    (Rel Shows : State → Abstract → Prop) (Clean : State → Abstract → Op → Prop) : Prop where
  shows_of_rel : ∀ {state abstract}, Rel state abstract → Shows state abstract
  clean : ∀ {state abstract op after}, Rel state abstract → apply abstract op = some after →
    Clean state abstract op → ∃ next, perform state op = .ok next ∧ Rel next after

/-- Other calls fail or end in a state that does not show the abstract object. -/
structure Refinement (perform : State → Op → Except ε State) (apply : Abstract → Op → Option Abstract)
    (Rel Shows : State → Abstract → Prop) (Clean : State → Abstract → Op → Prop) : Prop
    extends Simulation perform apply Rel Shows Clean where
  dirty : ∀ {state abstract op after next}, Rel state abstract → apply abstract op = some after →
    ¬Clean state abstract op → perform state op = .ok next → ¬Shows next after

section Along

variable (perform : State → Op → Except ε State) (apply : Abstract → Op → Option Abstract)

def AllClean (Clean : State → Abstract → Op → Prop) (state : State) (abstract : Abstract) (ops : List Op) :
    Prop :=
  ∀ before op reached middle, before ++ [op] <+: ops → performAll perform state before = .ok reached →
    applyAll apply abstract before = some middle → Clean reached middle op

def ShowsAll (Shows : State → Abstract → Prop) (state : State) (abstract : Abstract) (ops : List Op) :
    Prop :=
  ∀ before middle, before <+: ops → applyAll apply abstract before = some middle →
    ∃ next, performAll perform state before = .ok next ∧ Shows next middle

end Along

section Runs

variable {perform : State → Op → Except ε State} {apply : Abstract → Op → Option Abstract}
  {Rel Shows : State → Abstract → Prop} {Clean : State → Abstract → Op → Prop} {state : State}
  {abstract : Abstract}

theorem allClean_nil : AllClean perform apply Clean state abstract [] := by
  intro before op reached middle inside
  have empty := List.prefix_nil.mp inside
  simp at empty

/-- A sequence is clean if its first call is, and the rest is clean after it. -/
theorem AllClean.cons {op : Op} {ops : List Op} (first : Clean state abstract op)
    (rest : ∀ next after, perform state op = .ok next → apply abstract op = some after →
      AllClean perform apply Clean next after ops) :
    AllClean perform apply Clean state abstract (op :: ops) := by
  intro before other reached middle inside done at_
  cases before with
  | nil =>
      obtain ⟨rfl, _⟩ := List.cons_prefix_cons.mp inside
      cases done
      cases at_
      exact first
  | cons head before =>
      obtain ⟨rfl, later⟩ := List.cons_prefix_cons.mp inside
      obtain ⟨next, made, onwards⟩ := (performAll_cons perform).mp done
      rw [applyAll, List.foldlM_cons] at at_
      obtain ⟨after, stepped, onward⟩ := Option.bind_eq_some_iff.mp at_
      exact rest next after made stepped before other reached middle later onwards onward

theorem AllClean.front {front ops : List Op} (isFront : front <+: ops)
    (holds : AllClean perform apply Clean state abstract ops) :
    AllClean perform apply Clean state abstract front :=
  fun before op reached middle inside => holds before op reached middle (inside.trans isFront)

theorem Simulation.run_rel (simulation : Simulation perform apply Rel Shows Clean)
    (related : Rel state abstract) {ops : List Op} {after : Abstract}
    (valid : applyAll apply abstract ops = some after)
    (holds : AllClean perform apply Clean state abstract ops) :
    ∃ next, performAll perform state ops = .ok next ∧ Rel next after := by
  induction ops using List.reverseRecOn generalizing after with
  | nil =>
      cases valid
      exact ⟨state, rfl, related⟩
  | append_singleton ops op ih =>
      rw [applyAll_concat] at valid
      obtain ⟨middle, reached, stepped⟩ := Option.bind_eq_some_iff.mp valid
      obtain ⟨next, done, still⟩ := ih reached (holds.front ⟨[op], rfl⟩)
      obtain ⟨last, made, related⟩ :=
        simulation.clean still stepped (holds ops op next middle (List.prefix_refl _) done reached)
      refine ⟨last, ?_, related⟩
      rw [performAll_concat, done]
      exact made

theorem Simulation.showsAll (simulation : Simulation perform apply Rel Shows Clean)
    (related : Rel state abstract) {ops : List Op}
    (holds : AllClean perform apply Clean state abstract ops) :
    ShowsAll perform apply Shows state abstract ops := by
  intro before middle inside reached
  obtain ⟨next, done, still⟩ := simulation.run_rel related reached (holds.front inside)
  exact ⟨next, done, simulation.shows_of_rel still⟩

/-- The implementation shows the abstract object along a valid sequence exactly if every call is
clean. -/
theorem Refinement.showsAll_iff (refinement : Refinement perform apply Rel Shows Clean)
    (related : Rel state abstract) {ops : List Op} (valid : (applyAll apply abstract ops).isSome = true) :
    ShowsAll perform apply Shows state abstract ops ↔ AllClean perform apply Clean state abstract ops := by
  refine ⟨fun shown => ?_, refinement.showsAll related⟩
  induction ops using List.reverseRecOn with
  | nil => exact allClean_nil
  | append_singleton ops op ih =>
      obtain ⟨after, reachedAfter⟩ := Option.isSome_iff_exists.mp valid
      rw [applyAll_concat] at reachedAfter
      obtain ⟨middle, reached, stepped⟩ := Option.bind_eq_some_iff.mp reachedAfter
      have earlier := ih (by rw [reached]; rfl)
        fun before middle inside => shown before middle (inside.trans ⟨[op], rfl⟩)
      obtain ⟨state₁, done, still⟩ := refinement.run_rel related reached earlier
      obtain ⟨next, made, shows_⟩ := shown (ops ++ [op]) after (List.prefix_refl _)
        (by rw [applyAll_concat, reached]; exact stepped)
      rw [performAll_concat, done] at made
      intro before last place between inside ran at_
      rcases List.prefix_concat_iff.mp inside with whole | shorter
      · obtain ⟨rfl, same⟩ := List.append_inj' whole rfl
        cases same
        rw [reached] at at_
        cases at_
        rw [done] at ran
        cases ran
        by_contra unclean
        exact refinement.dirty still stepped unclean made shows_
      · exact earlier before last place between shorter ran at_

end Runs

end ToyKernel.Library
