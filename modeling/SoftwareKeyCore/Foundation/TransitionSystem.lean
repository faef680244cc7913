import Mathlib

/-!
# Transition systems

A state machine with several initial states whose steps are labelled by events; an event that is
not enabled has no step. `ReachableBy allowed` are the states of the runs all of whose steps are
allowed, `Reachable` the states of all runs.

`ReachableBy.invariant` is the induction over runs, `measure_le_of_run` its form for quantities
that no step lets decrease, and `Refinement.reachable` carries reachability along a map under
which every step is a step of another system or none.
-/

set_option autoImplicit false
set_option relaxedAutoImplicit false

namespace SoftwareKeyCore

/-- States, the initial ones among them, and the steps that events make. -/
structure TransitionSystem (State Event : Type) where
  Initial : State → Prop
  step : State → Event → Option State

namespace TransitionSystem

variable {State Event : Type} (system : TransitionSystem State Event)

/-- The states of runs whose steps are all allowed. -/
inductive ReachableBy (allowed : State → Event → Prop) : State → Prop
  | start {state : State} (hinitial : system.Initial state) : ReachableBy allowed state
  | next {state state' : State} {event : Event} (hreachable : ReachableBy allowed state)
      (hallowed : allowed state event) (hstep : system.step state event = some state') :
      ReachableBy allowed state'

/-- The states of all runs. -/
abbrev Reachable : State → Prop := system.ReachableBy fun _ _ ↦ True

/-- A run from a state, when each of its events is enabled in its turn. -/
def run (state : State) : List Event → Option State
  | [] => some state
  | event :: events => (system.step state event).bind fun state' ↦ run state' events

/-- The runs from one state. -/
def startingAt (state : State) : TransitionSystem State Event :=
  { system with Initial := fun initial ↦ initial = state }

variable {system} {allowed : State → Event → Prop}

/-- What holds initially and is kept by each allowed step holds in every state reached by allowed
steps. -/
theorem ReachableBy.invariant (property : State → Prop)
    (hinitial : ∀ state, system.Initial state → property state)
    (hkept : ∀ state event state', system.ReachableBy allowed state → allowed state event →
      property state → system.step state event = some state' → property state')
    {state : State} (hreachable : system.ReachableBy allowed state) : property state := by
  induction hreachable with
  | start hstart => exact hinitial _ hstart
  | next hreachable hallowed hstep ih => exact hkept _ _ _ hreachable hallowed ih hstep

/-- A run with a restriction is a run. -/
theorem ReachableBy.reachable {state : State} (hreachable : system.ReachableBy allowed state) :
    system.Reachable state :=
  hreachable.invariant _ (fun _ hinitial ↦ .start hinitial)
    fun _ _ _ _ _ ih hstep ↦ .next ih trivial hstep

theorem run_cons {state state' : State} {event : Event} {events : List Event} :
    system.run state (event :: events) = some state' ↔
      ∃ middle, system.step state event = some middle ∧ system.run middle events = some state' := by
  rw [run, Option.bind_eq_some_iff]

/-- A run that keeps a property under which its events are allowed extends a run of allowed
steps. -/
theorem ReachableBy.run_of_keeps (property : State → Prop) {state state' : State}
    {events : List Event} (hreachable : system.ReachableBy allowed state)
    (hproperty : property state)
    (hkept : ∀ event ∈ events, ∀ state state', property state →
      system.step state event = some state' → property state')
    (hallowed : ∀ event ∈ events, ∀ state, property state → allowed state event)
    (hrun : system.run state events = some state') : system.ReachableBy allowed state' := by
  induction events generalizing state with
  | nil =>
    obtain rfl := Option.some.inj hrun
    exact hreachable
  | cons event events ih =>
    obtain ⟨middle, hstep, hrest⟩ := run_cons.mp hrun
    rw [List.forall_mem_cons] at hkept hallowed
    exact ih (.next hreachable (hallowed.1 state hproperty) hstep)
      (hkept.1 state middle hproperty hstep) hkept.2 hallowed.2 hrest

/-- A run of events that are always allowed extends a run of allowed steps. -/
theorem ReachableBy.run {state state' : State} {events : List Event}
    (hreachable : system.ReachableBy allowed state)
    (hallowed : ∀ event ∈ events, ∀ state, allowed state event)
    (hrun : system.run state events = some state') : system.ReachableBy allowed state' :=
  hreachable.run_of_keeps (fun _ ↦ True) trivial (fun _ _ _ _ _ _ ↦ trivial)
    (fun event hmem state _ ↦ hallowed event hmem state) hrun

/-- What each step keeps holds at the end of a run. -/
theorem run_keeps (property : State → Prop)
    (hkept : ∀ state event state', property state → system.step state event = some state' →
      property state')
    {state state' : State} {events : List Event} (hstate : property state)
    (hrun : system.run state events = some state') : property state' := by
  induction events generalizing state with
  | nil =>
    obtain rfl := Option.some.inj hrun
    exact hstate
  | cons event events ih =>
    obtain ⟨middle, hstep, hrest⟩ := run_cons.mp hrun
    exact ih (hkept _ _ _ hstate hstep) hrest

/-- A run from a reachable state ends in a reachable state. -/
theorem Reachable.run {state state' : State} {events : List Event}
    (hreachable : system.Reachable state) (hrun : system.run state events = some state') :
    system.Reachable state' :=
  ReachableBy.run hreachable (fun _ _ _ ↦ trivial) hrun

/-- A quantity that no step from a reachable state lets decrease does not decrease in a run. -/
theorem Reachable.measure_le_of_run {α : Type} [Preorder α] (measure : State → α)
    (hstep : ∀ state event state', system.Reachable state →
      system.step state event = some state' → measure state ≤ measure state')
    {state state' : State} {events : List Event} (hreachable : system.Reachable state)
    (hrun : system.run state events = some state') : measure state ≤ measure state' := by
  induction events generalizing state with
  | nil =>
    obtain rfl := Option.some.inj hrun
    exact le_refl _
  | cons event events ih =>
    obtain ⟨middle, hmiddle, hrest⟩ := run_cons.mp hrun
    exact (hstep _ _ _ hreachable hmiddle).trans (ih (.next hreachable trivial hmiddle) hrest)

/-! ### Refinement -/

/-- A view of one system's states under which its initial states are initial states of another
system, and each of its steps from a reachable state is a step of the other system or changes
nothing. -/
structure Refinement {AbstractState AbstractEvent : Type} (system : TransitionSystem State Event)
    (abstract : TransitionSystem AbstractState AbstractEvent) where
  view : State → AbstractState
  initial : ∀ state, system.Initial state → abstract.Initial (view state)
  step : ∀ state event state', system.Reachable state → system.step state event = some state' →
    view state' = view state ∨ ∃ event', abstract.step (view state) event' = some (view state')

/-- The view of a reachable state is reachable. -/
theorem Refinement.reachable {AbstractState AbstractEvent : Type}
    {abstract : TransitionSystem AbstractState AbstractEvent}
    (refinement : Refinement system abstract) {state : State}
    (hreachable : system.Reachable state) : abstract.Reachable (refinement.view state) := by
  refine hreachable.invariant (fun state ↦ abstract.Reachable (refinement.view state))
    (fun state hinitial ↦ .start (refinement.initial state hinitial)) ?_
  intro state event state' hstate _ ih hstep
  rcases refinement.step state event state' hstate hstep with hsame | ⟨event', hstep'⟩
  · rw [hsame]
    exact ih
  · exact .next ih trivial hstep'

end TransitionSystem

end SoftwareKeyCore
