import Mathlib.Tactic

/-!
Runs of a labelled transition system: the states reachable from the initial ones,
the segments between two states, and the induction rules for both.
-/

namespace ToyKernel.Library

structure System (State Label : Type) where
  initial : State → Prop
  step : State → Label → State → Prop

namespace System

variable {State Label : Type}

inductive Reachable (system : System State Label) : State → Prop
  | start {state} : system.initial state → Reachable system state
  | next {state label after} : Reachable system state → system.step state label after →
      Reachable system after

inductive Run (system : System State Label) : State → List Label → State → Prop
  | done (state) : Run system state [] state
  | step {state label middle labels after} : system.step state label middle →
      Run system middle labels after → Run system state (label :: labels) after

variable {system : System State Label}

theorem Reachable.invariant (Inv : State → Prop) (base : ∀ state, system.initial state → Inv state)
    (preserved : ∀ state label after, Inv state → system.step state label after → Inv after)
    {state : State} (reachable : Reachable system state) : Inv state := by
  induction reachable with
  | start isInitial => exact base _ isInitial
  | next _ step ih => exact preserved _ _ _ ih step

theorem Reachable.mono {system more : System State Label} {state : State} (reachable : Reachable system state)
    (initial : ∀ state, system.initial state → more.initial state)
    (step : ∀ state label after, system.step state label after → more.step state label after) :
    Reachable more state := by
  induction reachable with
  | start isInitial => exact .start (initial _ isInitial)
  | next _ stepped ih => exact ih.next (step _ _ _ stepped)

theorem Run.reachable {state after : State} {labels : List Label}
    (run : Run system state labels after) (reachable : Reachable system state) :
    Reachable system after := by
  induction run with
  | done _ => exact reachable
  | step first _ ih => exact ih (reachable.next first)

/-- A property of the current state, relative to the labels still to come, that
every step hands on holds at the end of the run. -/
theorem Run.induction (Rel : State → Prop) (Allowed : Label → Prop)
    (preserved : ∀ state label after, Allowed label → Rel state →
      system.step state label after → Rel after)
    {state after : State} {labels : List Label} (run : Run system state labels after)
    (allowed : ∀ label ∈ labels, Allowed label) (holds : Rel state) : Rel after := by
  induction run with
  | done _ => exact holds
  | step first _ ih =>
      exact ih (fun label member => allowed label (by simp [member]))
        (preserved _ _ _ (allowed _ (by simp)) holds first)

theorem Run.append {state middle after : State} {labels more : List Label}
    (first : Run system state labels middle) (second : Run system middle more after) :
    Run system state (labels ++ more) after := by
  induction first with
  | done _ => exact second
  | step one _ ih => exact .step one (ih second)

def Within (system : System State Label) (Allowed : Label → Prop) (state after : State) : Prop :=
  ∃ labels, Run system state labels after ∧ ∀ label ∈ labels, Allowed label

section
variable {Allowed More : Label → Prop} {state middle after : State}

theorem Within.refl (state : State) : Within system Allowed state state :=
  ⟨[], .done state, by simp⟩

theorem Within.single {label : Label} (allowed : Allowed label)
    (stepped : system.step state label after) : Within system Allowed state after :=
  ⟨[label], .step stepped (.done after), by simpa using allowed⟩

theorem Within.trans (first : Within system Allowed state middle)
    (second : Within system Allowed middle after) : Within system Allowed state after := by
  obtain ⟨labels, run, allowed⟩ := first
  obtain ⟨more, rest, others⟩ := second
  refine ⟨labels ++ more, run.append rest, ?_⟩
  intro label member
  rcases List.mem_append.mp member with early | late
  · exact allowed label early
  · exact others label late

theorem Within.mono (within : Within system Allowed state after)
    (weaker : ∀ label, Allowed label → More label) : Within system More state after := by
  obtain ⟨labels, run, allowed⟩ := within
  exact ⟨labels, run, fun label member => weaker label (allowed label member)⟩

theorem Within.preserves (Rel : State → Prop) (within : Within system Allowed state after)
    (preserved : ∀ state label after, Allowed label → Rel state →
      system.step state label after → Rel after) (holds : Rel state) : Rel after := by
  obtain ⟨labels, run, allowed⟩ := within
  exact run.induction Rel Allowed preserved allowed holds

end

section Replays

variable (next : State → Label → Option State)

def replay : State → List Label → Option State
  | state, [] => some state
  | state, label :: rest => (next state label).bind fun middle => replay middle rest

def replayTest (start : Option State) (labels : List Label) (test : State → Bool) : Bool :=
  (start.bind fun state => replay next state labels).any test

variable {next}

theorem replay_run (taken : ∀ state label after, next state label = some after → system.step state label after)
    {state after : State} {labels : List Label} (replayed : replay next state labels = some after) :
    Run system state labels after := by
  induction labels generalizing state with
  | nil =>
      obtain rfl := Option.some.inj replayed
      exact .done state
  | cons label rest ih =>
      obtain ⟨middle, first, later⟩ := Option.bind_eq_some_iff.mp replayed
      exact .step (taken _ _ _ first) (ih later)

theorem replayTest_reachable {start : Option State} {labels : List Label} {test : State → Bool}
    (initial : ∀ state, start = some state → system.initial state)
    (taken : ∀ state label after, next state label = some after → system.step state label after)
    (passed : replayTest next start labels test = true) : ∃ state, system.Reachable state ∧ test state = true := by
  obtain ⟨after, replayed, tested⟩ := (Option.any_eq_true _ _).mp passed
  obtain ⟨state, isStart, run⟩ := Option.bind_eq_some_iff.mp replayed
  exact ⟨after, (replay_run taken run).reachable (.start (initial state isStart)), tested⟩

end Replays

end System

end ToyKernel.Library
