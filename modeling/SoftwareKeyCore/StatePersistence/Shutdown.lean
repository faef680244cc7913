import SoftwareKeyCore.StatePersistence.Durability

/-!
# Mutations at a shutdown

The persistence thread decides to exit when it was asked to stop and every mutation is persisted.
Handles outlive that decision, and `record_mutation` looks at the stored failure but not at
`stopping`: a mutation recorded after the decision is accepted and never written
(`not_dropsNothing`). It is the only way to lose one. As long as no mutation is recorded after
the decision (`RecordsBeforeExit`), a thread that has returned `Ok` leaves nothing behind, and
every late mutation is lost (`dropsNothing_of_recordsBeforeExit`).
-/

set_option autoImplicit false
set_option relaxedAutoImplicit false

namespace SoftwareKeyCore.StatePersistence

open TransitionSystem

variable {T ι : Type}

/-! ### Stored failures -/

/-- A failure is stored at the end of a thread that failed, and at no other time. -/
def FailureCoherent (world : World T ι) : Prop :=
  match world.worker with
  | .failureStored error => world.schedule.failure = some (.capture error)
  | .terminated (.finished (.error error)) => world.schedule.failure = some (.capture error)
  | .terminated .panicked => True
  | _ => world.schedule.failure = none

theorem FailureCoherent.of_same {world world' : World T ι} (hworld : FailureCoherent world)
    (hworker : world'.worker = world.worker)
    (hfailure : world'.schedule.failure = world.schedule.failure) : FailureCoherent world' := by
  unfold FailureCoherent at hworld ⊢
  rw [hworker, hfailure]
  exact hworld

section Steps

variable [DecidableEq ι] {mode : PersistenceMode} {encode : T → ByteString}

theorem FailureCoherent.client {world world' : World T ι} {client : ι} {action : ClientAction T}
    (hworld : FailureCoherent world)
    (htransition : ClientTransition mode world client action world') :
    FailureCoherent world' := by
  cases htransition with
  | recorded hholder hfailure hepochs =>
    exact hworld.of_same rfl (withMutation_failure _ _ _ _)
  | _ => exact hworld.of_same rfl rfl

omit [DecidableEq ι] in
theorem FailureCoherent.worker {world world' : World T ι} (hworld : FailureCoherent world)
    (htransition : WorkerTransition mode encode world world') : FailureCoherent world' := by
  have hfailure := hworld
  unfold FailureCoherent at hfailure
  cases htransition with
  | slept hphase => exact hworld
  | sleptUnarmed hphase hepochs => exact hworld.of_same rfl rfl
  | exited hphase hnone hepochs hstopping => exact hnone
  | cameDue hphase hnone hepochs => exact hnone
  | cycleFinished hphase =>
    rw [hphase] at hfailure
    exact (finishCycle_failure _ _ _ _).trans hfailure
  | failed error hphase =>
    rcases hphase with hphase | ⟨bytes, snapshotEpoch, hphase⟩
    · rw [hphase] at hfailure
      exact hfailure
    · rw [hphase] at hfailure
      exact hfailure
  | failureStored hphase => exact rfl
  | panicked hphase => trivial
  | encodePanicked hphase => trivial
  | cyclePanicked hphase hpanics => trivial
  | stateLocked hphase | snapshotTaken hphase | encoded hphase | encodeFailed hphase
  | written hphase | returned hphase | failureReturned hphase =>
    rw [hphase] at hfailure
    exact hfailure

/-- The stored failure is that of the thread in every reachable world. -/
theorem failureCoherent_of_reachable {world : World T ι}
    (hreachable : (persistence mode encode).Reachable world) : FailureCoherent world := by
  refine hreachable.invariant FailureCoherent ?_ ?_
  · rintro _ ⟨-, state, now, rfl⟩
    rfl
  · intro world event world' _ _ hworld hstep
    cases transition_of_step mode encode hstep with
    | tick elapsed => exact hworld
    | client client htransition => exact hworld.client htransition
    | owner htransition => cases htransition <;> exact hworld.of_same rfl rfl
    | worker htransition => exact hworld.worker htransition

end Steps

/-- A thread that has decided to return `Ok` stored no failure. -/
theorem FailureCoherent.failure_eq_none {world : World T ι} (hworld : FailureCoherent world)
    (hexited : world.worker.HasExited) : world.schedule.failure = none := by
  unfold FailureCoherent at hworld
  unfold WorkerPhase.HasExited at hexited
  split at hexited
  · next hphase =>
    rw [hphase] at hworld
    exact hworld
  · next hphase =>
    rw [hphase] at hworld
    exact hworld
  · exact hexited.elim

/-! ### Late mutations -/

/-- No mutation is recorded after the thread's decision to exit, unless it is refused because the
epochs are exhausted. -/
def RecordsBeforeExit (world : World T ι) (event : Event T ι) : Prop :=
  ∀ client, event = .client client .recordMutation → world.worker.HasExited →
    checkedSucc world.schedule.mutationEpoch = none

/-- The thread has returned `Ok`. -/
def HasReturnedOk (world : World T ι) : Prop :=
  world.worker = .terminated (.finished (.ok ()))

variable [DecidableEq ι] (mode : PersistenceMode) (encode : T → ByteString)

/-- A thread that has returned `Ok` leaves no mutation behind, in any run. -/
def DropsNothing (ι : Type) [DecidableEq ι] : Prop :=
  ∀ world : World T ι, (persistence mode encode).Reachable world → HasReturnedOk world →
    world.schedule.mutationEpoch = world.schedule.persistedEpoch

variable {mode encode}

/-- Nothing is pending after the decision to exit. -/
theorem epochs_eq_of_hasExited {world : World T ι}
    (hreachable : (persistence mode encode).ReachableBy RecordsBeforeExit world)
    (hexited : world.worker.HasExited) :
    world.schedule.mutationEpoch = world.schedule.persistedEpoch := by
  refine hreachable.invariant (fun world ↦ world.worker.HasExited →
    world.schedule.mutationEpoch = world.schedule.persistedEpoch) ?_ ?_ hexited
  · rintro _ ⟨-, state, now, rfl⟩ _
    rfl
  · intro world event world' hstate hallowed hworld hstep hexited'
    cases transition_of_step mode encode hstep with
    | tick elapsed => exact hworld hexited'
    | client client htransition =>
      cases htransition with
      | recorded hholder hfailure hepochs =>
        have hexhausted := hallowed client rfl hexited'
        rw [checkedSucc, if_pos hepochs] at hexhausted
        cases hexhausted
      | _ => exact hworld hexited'
    | owner htransition => cases htransition <;> exact hworld hexited'
    | worker htransition =>
      cases htransition with
      | exited hphase hfailure hepochs hstopping => exact hepochs
      | returned hphase =>
        apply hworld
        rw [hphase]
        trivial
      | slept hphase => exact hworld hexited'
      | sleptUnarmed hphase hepochs => exact hepochs
      | _ => exact hexited'.elim

/-- A mutation that is recorded after the decision to exit takes its epoch. -/
theorem late_mutation_accepted {world world' : World T ι} {event : Event T ι}
    (hreachable : (persistence mode encode).Reachable world)
    (hlate : ¬ RecordsBeforeExit world event)
    (hstep : step mode encode world event = some world') :
    world'.worker = world.worker ∧ world.worker.HasExited ∧
      world'.schedule.mutationEpoch = world.schedule.mutationEpoch + 1 ∧
      world'.schedule.persistedEpoch = world.schedule.persistedEpoch := by
  unfold RecordsBeforeExit at hlate
  push Not at hlate
  obtain ⟨client, rfl, hexited, hepochs⟩ := hlate
  have hfailure := (failureCoherent_of_reachable hreachable).failure_eq_none hexited
  have hepoch : world.schedule.mutationEpoch + 1 < 2 ^ 64 := by
    by_contra hexhausted
    exact hepochs (if_neg hexhausted)
  obtain rfl := recorded_of_step mode hfailure hepoch hstep
  exact ⟨rfl, hexited, withMutation_mutationEpoch _ _ _ _, withMutation_persistedEpoch _ _ _ _⟩

/-- A mutation that is recorded after the decision to exit is lost: the thread returns `Ok`
without it. -/
theorem late_mutation_dropped {world world' : World T ι} {event : Event T ι}
    (hreachable : (persistence mode encode).Reachable world)
    (hlate : ¬ RecordsBeforeExit world event)
    (hstep : step mode encode world event = some world') :
    ∃ events world'', (persistence mode encode).run world' events = some world'' ∧
      HasReturnedOk world'' ∧
      world''.schedule.mutationEpoch ≠ world''.schedule.persistedEpoch := by
  obtain ⟨hworker, hexited, hmutation, hpersisted⟩ := late_mutation_accepted hreachable hlate hstep
  have hpending : world'.schedule.mutationEpoch ≠ world'.schedule.persistedEpoch := by
    have hle := (coherent_of_reachable hreachable).persisted_le
    omega
  cases hphase : world.worker with
  | returning =>
    refine ⟨[.worker .succeeds],
      { world' with worker := .terminated (.finished (.ok ())) }, ?_, rfl, hpending⟩
    rw [run_cons]
    refine ⟨_, ?_, rfl⟩
    show workerStep mode encode world' .succeeds = _
    unfold workerStep
    rw [hworker, hphase]
  | terminated result =>
    rw [hphase] at hworker hexited
    refine ⟨[], world', rfl, ?_, hpending⟩
    unfold WorkerPhase.HasExited at hexited
    split at hexited
    · next hreturning => cases hreturning
    · next hterminated => exact hworker.trans hterminated
    · exact hexited.elim
  | _ =>
    rw [hphase] at hexited
    exact hexited.elim

/-- In every run that records no mutation after the decision to exit, a thread that has returned
`Ok` leaves no mutation behind, and the image contains all of them; every mutation that is
recorded later is lost in a run. -/
theorem dropsNothing_of_recordsBeforeExit :
    (∀ world : World T ι, (persistence mode encode).ReachableBy RecordsBeforeExit world →
      HasReturnedOk world →
        world.schedule.mutationEpoch = world.schedule.persistedEpoch ∧
          world.history.ImageCovers encode world.image world.schedule.mutationEpoch) ∧
    ∀ (world world' : World T ι) (event : Event T ι),
      (persistence mode encode).Reachable world → ¬ RecordsBeforeExit world event →
        step mode encode world event = some world' →
          ∃ events world'', (persistence mode encode).run world' events = some world'' ∧
            HasReturnedOk world'' ∧
            world''.schedule.mutationEpoch ≠ world''.schedule.persistedEpoch := by
  constructor
  · intro world hreachable hreturned
    have hexited : world.worker.HasExited := by
      rw [show world.worker = .terminated (.finished (.ok ())) from hreturned]
      trivial
    have hepochs := epochs_eq_of_hasExited hreachable hexited
    refine ⟨hepochs, ?_⟩
    rw [hepochs]
    exact (coherent_of_reachable hreachable.reachable).image
  · intro world world' event hreachable hlate hstep
    exact late_mutation_dropped hreachable hlate hstep

/-- The owner shuts the component down and is told `Ok`; then a client records a mutation through
its handle. -/
def lateRun : List (Event ℕ Bool) :=
  [.owner (.callStop .shutdown), .owner .requestStop, .worker .succeeds, .worker .succeeds,
    .owner .join, .client true .lockState, .client true (.editState (· + 5)),
    .client true .recordMutation]

/-- The mutation of the late run is accepted and lost. -/
theorem not_dropsNothing :
    ¬ DropsNothing (.batched 1) (fun state : ℕ ↦ [UInt8.ofNat state]) Bool := by
  intro hclaim
  have hsome : ((counter (.batched 1)).run (.start 0 0) lateRun).isSome := rfl
  obtain ⟨world, hrun⟩ := Option.isSome_iff_exists.mp hsome
  have hepochs : ((counter (.batched 1)).run (.start 0 0) lateRun).map (fun world ↦
    (world.worker, world.schedule.mutationEpoch, world.schedule.persistedEpoch)) =
      some (.terminated (.finished (.ok ())), 1, 0) := rfl
  rw [hrun] at hepochs
  obtain ⟨hworker, hmutation, hpersisted⟩ :=
    Prod.mk.inj (Option.some.inj hepochs) |>.imp_right Prod.mk.inj
  have hstart : (counter (.batched 1)).Reachable (.start 0 0) := .start ⟨rfl, 0, 0, rfl⟩
  have hequal := hclaim world (hstart.run hrun) hworker
  rw [hmutation, hpersisted] at hequal
  cases hequal

/-- The saved run records its mutation before the stop, and its shutdown leaves nothing behind; the
late run records one after the decision to exit. -/
theorem dropsNothing_savedRun :
    (∃ world, (counter .immediate).run (.start 0 0) savedRun = some world ∧
      HasReturnedOk world ∧ world.schedule.mutationEpoch = 1 ∧
      world.schedule.mutationEpoch = world.schedule.persistedEpoch) ∧
    ∃ (world world' : World ℕ Bool) (events : List (Event ℕ Bool)),
      (counter (.batched 1)).run (.start 0 0) (lateRun.take 7) = some world ∧
      (counter (.batched 1)).step world (.client true .recordMutation) = some world' ∧
      ∃ world'', (counter (.batched 1)).run world' events = some world'' ∧ HasReturnedOk world'' ∧
        world''.schedule.mutationEpoch ≠ world''.schedule.persistedEpoch := by
  constructor
  · have hsome : ((counter .immediate).run (.start 0 0) savedRun).isSome := rfl
    obtain ⟨world, hrun⟩ := Option.isSome_iff_exists.mp hsome
    have hepochs : ((counter .immediate).run (.start 0 0) savedRun).map (fun world ↦
      (world.worker, world.schedule.mutationEpoch)) =
        some (.terminated (.finished (.ok ())), 1) := rfl
    rw [hrun] at hepochs
    obtain ⟨hworker, hmutation⟩ := Prod.mk.inj (Option.some.inj hepochs)
    refine ⟨world, hrun, hworker, hmutation, ?_⟩
    have hrest := hrun
    rw [savedRun, run_cons] at hrest
    obtain ⟨locked, hlocked, hrest⟩ := hrest
    obtain rfl := Option.some.inj hlocked
    obtain ⟨edited, hedited, hrest⟩ := run_cons.mp hrest
    obtain rfl := Option.some.inj hedited
    obtain ⟨recorded, hrecorded, hrest⟩ := run_cons.mp hrest
    have hstart : (counter .immediate).ReachableBy RecordsBeforeExit (.start 0 0) :=
      .start ⟨rfl, 0, 0, rfl⟩
    have hreachable := ((hstart.next (fun _ hevent ↦ by cases hevent) hlocked).next
      (fun _ hevent ↦ by cases hevent) hedited).next (fun _ _ hexited ↦ hexited.elim) hrecorded
    refine (dropsNothing_of_recordsBeforeExit.1 world (hreachable.run ?_ hrest) hworker).1
    intro event hmem state client hevent
    subst hevent
    simp at hmem
  · have hsome : ((counter (.batched 1)).run (.start 0 0) (lateRun.take 7)).isSome := rfl
    obtain ⟨world, hrun⟩ := Option.isSome_iff_exists.mp hsome
    have hworld : ((counter (.batched 1)).run (.start 0 0) (lateRun.take 7)).map (fun world ↦
      (world.worker, world.schedule.mutationEpoch,
        ((counter (.batched 1)).step world (.client true .recordMutation)).isSome)) =
        some (.terminated (.finished (.ok ())), 0, true) := rfl
    rw [hrun] at hworld
    obtain ⟨hworker, hworld⟩ := Prod.mk.inj (Option.some.inj hworld)
    obtain ⟨hmutation, hrecorded⟩ := Prod.mk.inj hworld
    obtain ⟨world', hstep⟩ := Option.isSome_iff_exists.mp hrecorded
    have hlate : ¬ RecordsBeforeExit world (.client true .recordMutation) := by
      intro hbefore
      have hexited : world.worker.HasExited := by
        rw [show world.worker = _ from hworker]
        trivial
      have hexhausted := hbefore true rfl hexited
      rw [show world.schedule.mutationEpoch = 0 from hmutation] at hexhausted
      cases hexhausted
    have hstart : (counter (.batched 1)).Reachable (.start 0 0) := .start ⟨rfl, 0, 0, rfl⟩
    obtain ⟨events, world'', hdropped⟩ :=
      dropsNothing_of_recordsBeforeExit.2 world world' _ (hstart.run hrun) hlate hstep
    exact ⟨world, world', events, hrun, hstep, world'', hdropped⟩

end SoftwareKeyCore.StatePersistence
