import Mathlib.Tactic

/-!
Partial computations that either finish or stop at the first failed assertion.
A run that fails an assertion has no later state, so specifications are stated
about the `ok` results and about which faults can occur.
-/

namespace ToyKernel.Library

/-- Continue only when the condition holds, as a source-level `assert` does. -/
def require {ε : Type} (condition : Prop) [Decidable condition] (fault : ε) : Except ε Unit :=
  if condition then .ok () else .error fault

@[simp] theorem require_eq_ok {ε : Type} {condition : Prop} [Decidable condition] {fault : ε}
    {done : Unit} : require condition fault = .ok done ↔ condition := by
  unfold require
  split <;> simp_all

theorem require_of {ε : Type} {condition : Prop} [Decidable condition] {fault : ε}
    (holds : condition) : require condition fault = .ok () := by
  simp [require, holds]

@[simp] theorem bind_eq_ok {ε α β : Type} {first : Except ε α} {next : α → Except ε β} {result : β} :
    (first >>= next) = .ok result ↔ ∃ value, first = .ok value ∧ next value = .ok result := by
  cases first <;> simp [Bind.bind, Except.bind]

theorem map_eq_ok {ε α β : Type} {first : Except ε α} {change : α → β} {result : β} :
    first.map change = .ok result ↔ ∃ value, first = .ok value ∧ change value = result := by
  cases first <;> simp [Except.map]

@[simp] theorem pure_eq_ok {ε α : Type} {value result : α} :
    (pure value : Except ε α) = .ok result ↔ value = result := by
  simp [pure, Except.pure]

@[simp] theorem ok_bind {ε α β : Type} (value : α) (next : α → Except ε β) :
    (Except.ok value >>= next) = next value := rfl

theorem error_bind {ε α β : Type} (fault : ε) (next : α → Except ε β) :
    (Except.error fault >>= next) = .error fault := rfl

theorem toOption_eq_some {ε α : Type} {result : Except ε α} {value : α} :
    result.toOption = some value ↔ result = .ok value := by
  cases result <;> simp [Except.toOption]

theorem toOption_any {ε α : Type} {result : Except ε α} {test : α → Bool} :
    result.toOption.any test = true ↔ ∃ value, result = .ok value ∧ test value = true := by
  cases result <;> simp [Except.toOption]

def failsWith {ε α : Type} [DecidableEq ε] (result : Except ε α) (fault : ε) : Bool :=
  match result with
  | .ok _ => false
  | .error found => decide (found = fault)

theorem failsWith_iff {ε α : Type} [DecidableEq ε] {result : Except ε α} {fault : ε} :
    failsWith result fault = true ↔ result = .error fault := by
  cases result <;> simp [failsWith]

theorem bind_eq_some {α β : Type} {first : Option α} {next : α → Option β} {result : β} :
    (first >>= next) = some result ↔ ∃ value, first = some value ∧ next value = some result :=
  Option.bind_eq_some_iff

/-- Every result satisfies the postcondition and every fault is an allowed one. -/
def Returns {ε α : Type} (result : Except ε α) (allowed : ε → Prop) (post : α → Prop) : Prop :=
  match result with
  | .ok value => post value
  | .error fault => allowed fault

section
variable {ε α β : Type} {allowed : ε → Prop} {post : α → Prop}

@[simp] theorem returns_ok {value : α} : Returns (.ok value) allowed post ↔ post value := Iff.rfl

@[simp] theorem returns_pure {value : α} : Returns (pure value) allowed post ↔ post value := Iff.rfl

@[simp] theorem returns_error {fault : ε} : Returns (.error fault) allowed post ↔ allowed fault :=
  Iff.rfl

theorem Returns.of_ok {result : Except ε α} {value : α} (returns : Returns result allowed post)
    (found : result = .ok value) : post value := by
  rw [found] at returns
  exact returns

theorem Returns.of_error {result : Except ε α} {fault : ε} (returns : Returns result allowed post)
    (found : result = .error fault) : allowed fault := by
  rw [found] at returns
  exact returns

theorem Returns.exists_ok {result : Except ε α} (returns : Returns result (fun _ => False) post) :
    ∃ value, result = .ok value ∧ post value := by
  cases result with
  | ok value => exact ⟨value, rfl, returns⟩
  | error fault => exact returns.elim

theorem Returns.mono {result : Except ε α} {weaker : α → Prop}
    (returns : Returns result allowed post) (imp : ∀ value, post value → weaker value) :
    Returns result allowed weaker := by
  cases result with
  | ok value => exact imp value returns
  | error fault => exact returns

theorem Returns.weaken {result : Except ε α} {permitted : ε → Prop}
    (returns : Returns result allowed post) (imp : ∀ fault, allowed fault → permitted fault) :
    Returns result permitted post := by
  cases result with
  | ok value => exact returns
  | error fault => exact imp fault returns

theorem Returns.bind {first : Except ε α} {next : α → Except ε β} {goal : β → Prop}
    (returns : Returns first allowed post)
    (continues : ∀ value, post value → Returns (next value) allowed goal) :
    Returns (first >>= next) allowed goal := by
  cases first with
  | ok value => exact continues value returns
  | error fault => exact returns

/-- The rule for sequencing when only the faults matter. -/
theorem Returns.then {first : Except ε α} {next : α → Except ε β} {goal : β → Prop}
    (returns : Returns first allowed fun _ => True)
    (continues : ∀ value, first = .ok value → Returns (next value) allowed goal) :
    Returns (first >>= next) allowed goal := by
  cases first with
  | ok value => exact continues value rfl
  | error fault => exact returns

theorem returns_any (result : Except ε α) : Returns result (fun _ => True) fun _ => True := by
  cases result <;> trivial

theorem returns_require_bind {condition : Prop} [Decidable condition] {fault : ε}
    {next : Unit → Except ε β} {goal : β → Prop} (holds : condition)
    (continues : Returns (next ()) allowed goal) :
    Returns (require condition fault >>= next) allowed goal := by
  rw [require_of holds]
  exact continues

theorem returns_require {condition : Prop} [Decidable condition] {fault : ε}
    {next : Unit → Except ε β} {goal : β → Prop} (otherwise : ¬condition → allowed fault)
    (continues : condition → Returns (next ()) allowed goal) :
    Returns (require condition fault >>= next) allowed goal := by
  by_cases holds : condition
  · exact returns_require_bind holds (continues holds)
  · simpa [require, holds, Bind.bind, Except.bind] using otherwise holds

theorem returns_require_or {condition : Prop} [Decidable condition] {fault : ε}
    {next : Unit → Except ε β} {goal : β → Prop} (permitted : allowed fault)
    (continues : condition → Returns (next ()) allowed goal) :
    Returns (require condition fault >>= next) allowed goal :=
  returns_require (fun _ => permitted) continues

end

attribute [irreducible] Returns

end ToyKernel.Library
