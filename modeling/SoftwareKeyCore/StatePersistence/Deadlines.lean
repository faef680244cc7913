import SoftwareKeyCore.StatePersistence.Durability

/-!
# Deadlines of pending mutations

A mutation that no snapshot contains yet is scheduled (`PendingScheduled`): the persistence thread
is about to take a snapshot, or the flag of the immediate mode is set, or the deadline of the
batched mode is armed and no later than the mutation's own. The three places that clear the flag
and the deadline are safe because of what `ScheduleCoherent` says about the thread there: it has a
snapshot before it, or everything is persisted. An armed deadline is never moved
(`deadline_kept_or_served`).

A record of the batched mode panics when its deadline is no instant any more, after it has taken an
epoch; then nothing schedules its mutation (`not_schedulesPending`). `SchedulesRecord` is that no
step does this, and `pendingScheduled_of_schedulesRecord` that every mutation is scheduled then, and
that each such step leaves one that is not.
-/

set_option autoImplicit false
set_option relaxedAutoImplicit false

namespace SoftwareKeyCore.StatePersistence

variable {T ι : Type} (mode : PersistenceMode)

/-- The thread has returned `true` from `wait_until_due` and has not read its snapshot epoch. -/
def WorkerPhase.AwaitsSnapshot (phase : WorkerPhase) : Prop :=
  phase = .due ∨ phase = .stateLocked

/-- Something will make the thread take a snapshot, by the mutation's own deadline in the batched
mode. -/
def IsScheduled (world : World T ι) (mutation : RecordedMutation) : Prop :=
  world.worker.AwaitsSnapshot ∨
    (mode = .immediate ∧ world.schedule.force = true) ∨
    ∃ delay deadline, mode = .batched delay ∧ world.schedule.deadline = some deadline ∧
      deadline ≤ mutation.time + delay

/-- Every mutation that no snapshot contains is scheduled, while the thread has not ended and no
failure is stored. -/
def PendingScheduled (world : World T ι) : Prop :=
  (∀ result, world.worker ≠ .terminated result) → world.schedule.failure = none →
    ∀ mutation ∈ world.history.recorded, world.lastSnapshot < mutation.receipt.mutationEpoch →
      IsScheduled mode world mutation

/-- The step is no record that takes an epoch and panics while the thread has not ended and is not
about to take a snapshot. -/
def SchedulesRecord (world : World T ι) (event : Event T ι) : Prop :=
  ∀ client delay, event = .client client .recordMutation → mode = .batched delay →
    world.schedule.failure = none → (checkedSucc world.schedule.mutationEpoch).isSome →
      world.schedule.deadline = none → (∀ result, world.worker ≠ .terminated result) →
        ¬ world.worker.AwaitsSnapshot → (instantAdd world.now delay).isSome

/-- The last snapshot is the persisted one outside a persistence cycle, and the one in flight
within. -/
def SnapshotCoherent (world : World T ι) : Prop :=
  match world.worker with
  | .waiting | .due | .stateLocked | .returning =>
    world.lastSnapshot = world.schedule.persistedEpoch
  | .snapshotTaken snapshotEpoch | .encoded _ snapshotEpoch | .written snapshotEpoch =>
    world.lastSnapshot = snapshotEpoch
  | _ => True

/-- The invariant behind the deadlines: none is armed when nothing is pending, and none is beyond
one delay from now. -/
structure ScheduleCoherent (world : World T ι) : Prop where
  snapshot : SnapshotCoherent world
  unarmed : world.schedule.mutationEpoch = world.schedule.persistedEpoch →
    world.schedule.deadline = none
  deadline_le : ∀ delay deadline, mode = .batched delay →
    world.schedule.deadline = some deadline → deadline ≤ world.now + delay
  pending : (∀ result, world.worker ≠ .terminated result) →
    ∀ mutation ∈ world.history.recorded, world.lastSnapshot < mutation.receipt.mutationEpoch →
      IsScheduled mode world mutation

variable {mode} {encode : T → ByteString}

/-! ### Steps -/

/-- A mutation stays scheduled when neither the flag nor the deadline changes and the thread does
not give up a snapshot. -/
theorem IsScheduled.of_same {world world' : World T ι} {mutation : RecordedMutation}
    (hscheduled : IsScheduled mode world mutation)
    (hworker : world.worker.AwaitsSnapshot → world'.worker.AwaitsSnapshot)
    (hforce : world.schedule.force = true → world'.schedule.force = true)
    (hdeadline : world'.schedule.deadline = world.schedule.deadline) :
    IsScheduled mode world' mutation := by
  rcases hscheduled with hawaits | ⟨hmode, hset⟩ | ⟨delay, deadline, hmode, harmed, hle⟩
  · exact Or.inl (hworker hawaits)
  · exact Or.inr (Or.inl ⟨hmode, hforce hset⟩)
  · exact Or.inr (Or.inr ⟨delay, deadline, hmode, hdeadline.trans harmed, hle⟩)

/-- Nothing is pending when the last snapshot is of the present epoch. -/
theorem isScheduled_of_snapshot {world : World T ι}
    (hhistory : world.history.Wellformed world.schedule.mutationEpoch)
    (hsnapshot : world.schedule.mutationEpoch ≤ world.lastSnapshot) :
    ∀ mutation ∈ world.history.recorded, world.lastSnapshot < mutation.receipt.mutationEpoch →
      IsScheduled mode world mutation := by
  intro mutation hmem hlater
  have hle := (hhistory.epoch_bounds hmem).2
  omega

theorem not_awaitsSnapshot {phase : WorkerPhase} (hdue : phase ≠ .due)
    (hlocked : phase ≠ .stateLocked) : ¬ phase.AwaitsSnapshot := by
  rintro (hphase | hphase)
  · exact hdue hphase
  · exact hlocked hphase

theorem SnapshotCoherent.of_same {world world' : World T ι} (hworld : SnapshotCoherent world)
    (hworker : world'.worker = world.worker) (hlast : world'.lastSnapshot = world.lastSnapshot)
    (hpersisted : world'.schedule.persistedEpoch = world.schedule.persistedEpoch) :
    SnapshotCoherent world' := by
  unfold SnapshotCoherent at hworld ⊢
  rw [hworker, hlast, hpersisted]
  exact hworld

/-- With no deadline armed in the batched mode, the thread has a snapshot ahead of it when a mutation
is beyond the last one. -/
theorem ScheduleCoherent.awaitsSnapshot_of_unarmed {delay : ℕ} {world : World T ι}
    (hschedule : ScheduleCoherent (.batched delay) world)
    (hrunning : ∀ result, world.worker ≠ .terminated result)
    (hdeadline : world.schedule.deadline = none) {mutation : RecordedMutation}
    (hmem : mutation ∈ world.history.recorded)
    (hlater : world.lastSnapshot < mutation.receipt.mutationEpoch) :
    world.worker.AwaitsSnapshot := by
  rcases hschedule.pending hrunning mutation hmem hlater with
    hawaits | ⟨hmode, -⟩ | ⟨_, deadline, -, harmed, -⟩
  · exact hawaits
  · cases hmode
  · rw [hdeadline] at harmed
    cases harmed

/-- A new mutation is scheduled, and so are the older ones. -/
theorem ScheduleCoherent.recorded {world : World T ι} {client : ι}
    (hworld : Coherent encode world) (hschedule : ScheduleCoherent mode world)
    (hallowed : SchedulesRecord mode world (.client client .recordMutation))
    (hfailure : world.schedule.failure = none)
    (hepochs : world.schedule.mutationEpoch + 1 < 2 ^ 64) :
    ScheduleCoherent mode { world with
      schedule := (world.schedule.withMutation mode world.now
        (world.schedule.mutationEpoch + 1)).2
      history := world.history.withRecorded
        ⟨world.schedule.mutationEpoch + 1, mode = .immediate⟩ world.now
        (world.schedule.withMutation mode world.now
          (world.schedule.mutationEpoch + 1)).1.isSome } := by
  have hpersisted := withMutation_persistedEpoch mode world.now
    (world.schedule.mutationEpoch + 1) world.schedule
  constructor
  · exact hschedule.snapshot.of_same rfl rfl hpersisted
  · intro hequal
    rw [withMutation_mutationEpoch, hpersisted] at hequal
    have hle := hworld.persisted_le
    omega
  · intro delay deadline hmode hdeadline
    subst hmode
    dsimp only at hdeadline ⊢
    cases hbefore : world.schedule.deadline with
    | none =>
      rw [withMutation_batched_of_none _ _ _ hbefore] at hdeadline
      exact (instantAdd_eq_some_iff.mp hdeadline).2.le
    | some armed =>
      rw [withMutation_batched_of_some _ _ _ hbefore] at hdeadline
      exact hschedule.deadline_le delay deadline rfl hdeadline
  · intro hrunning mutation hmem hlater
    cases mode with
    | immediate => exact Or.inr (Or.inl ⟨rfl, rfl⟩)
    | batched delay =>
      cases hdeadline : world.schedule.deadline with
      | none =>
        by_cases hawaits : world.worker.AwaitsSnapshot
        · exact Or.inl hawaits
        rcases History.mem_withRecorded.mp hmem with hold | rfl
        · exact absurd (hschedule.awaitsSnapshot_of_unarmed hrunning hdeadline hold hlater) hawaits
        · have hleft : (checkedSucc world.schedule.mutationEpoch).isSome := by
            rw [checkedSucc, if_pos hepochs]
            rfl
          obtain ⟨deadline, hsum⟩ := Option.isSome_iff_exists.mp
            (hallowed client delay rfl rfl hfailure hleft hdeadline hrunning hawaits)
          refine Or.inr (Or.inr ⟨delay, deadline, rfl, ?_, (instantAdd_eq_some_iff.mp hsum).2.le⟩)
          dsimp only
          rw [withMutation_batched_of_none _ _ _ hdeadline]
          exact hsum
      | some deadline =>
        have hkept : (world.schedule.withMutation (.batched delay) world.now
            (world.schedule.mutationEpoch + 1)).2.deadline = world.schedule.deadline := by
          rw [withMutation_batched_of_some _ _ _ hdeadline]
        rcases History.mem_withRecorded.mp hmem with hold | rfl
        · refine (hschedule.pending hrunning mutation hold hlater).of_same id ?_ hkept
          rw [withMutation_batched_of_some _ _ _ hdeadline]
          exact id
        · exact Or.inr (Or.inr ⟨delay, deadline, rfl, hkept.trans hdeadline,
            hschedule.deadline_le delay deadline rfl hdeadline⟩)

theorem ScheduleCoherent.client [DecidableEq ι] {world world' : World T ι} {client : ι}
    {action : ClientAction T}
    (hworld : Coherent encode world) (hschedule : ScheduleCoherent mode world)
    (hallowed : SchedulesRecord mode world (.client client action))
    (htransition : ClientTransition mode world client action world') :
    ScheduleCoherent mode world' := by
  cases htransition with
  | recorded hholder hfailure hepochs =>
    exact hschedule.recorded hworld hallowed hfailure hepochs
  | flushForced hphase hfailure hpending =>
    exact { hschedule with
      pending := fun hrunning mutation hmem hlater ↦
        (hschedule.pending hrunning mutation hmem hlater).of_same id (fun _ ↦ rfl) rfl }
  | _ => exact { hschedule with }

/-- The end of a cycle disarms the deadline only when the written snapshot contains everything. -/
theorem ScheduleCoherent.cycleFinished {world : World T ι} {snapshotEpoch : ℕ}
    (hworld : Coherent encode world) (hschedule : ScheduleCoherent mode world)
    (hphase : world.worker = .written snapshotEpoch) :
    ScheduleCoherent mode { world with
      schedule := (finishCycle mode world.now snapshotEpoch world.schedule).2
      worker := .waiting } := by
  have hsnapshot := hschedule.snapshot
  unfold SnapshotCoherent at hsnapshot
  rw [hphase] at hsnapshot
  constructor
  · exact hsnapshot.trans (finishCycle_persistedEpoch _ _ _ _).symm
  · intro hequal
    rw [finishCycle_mutationEpoch, finishCycle_persistedEpoch] at hequal
    exact finishCycle_deadline_of_eq _ _ _ _ hequal
  · intro delay deadline hmode hdeadline
    rcases finishCycle_deadline_eq_some _ _ _ _ hdeadline with hold | ⟨delay', hmode', hnew⟩
    · exact hschedule.deadline_le delay deadline hmode hold
    · rw [hmode] at hmode'
      obtain rfl := PersistenceMode.batched.inj hmode'
      exact (instantAdd_eq_some_iff.mp hnew).2.le
  · intro _ mutation hmem hlater
    have hrunning : ∀ result, world.worker ≠ .terminated result := by
      rw [hphase]
      exact fun _ ↦ nofun
    have hepochs : world.schedule.mutationEpoch ≠ snapshotEpoch := by
      have hle := (hworld.wellformed.epoch_bounds hmem).2
      dsimp only at hlater
      omega
    rcases hschedule.pending hrunning mutation hmem hlater with
      hawaits | ⟨hmode, hforce⟩ | ⟨delay, deadline, hmode, harmed, hle⟩
    · rw [hphase] at hawaits
      exact absurd hawaits (not_awaitsSnapshot (fun h ↦ nomatch h) fun h ↦ nomatch h)
    · exact Or.inr (Or.inl ⟨hmode, finishCycle_force _ _ _ _ hforce⟩)
    · exact Or.inr (Or.inr ⟨delay, deadline, hmode,
        finishCycle_deadline_of_some _ _ _ _ hepochs harmed, hle⟩)

/-- A step of the thread that leaves the schedule and the last snapshot alone, and gives up no
snapshot. -/
theorem ScheduleCoherent.of_worker {world world' : World T ι}
    (hschedule : ScheduleCoherent mode world) (hsame : world'.schedule = world.schedule)
    (hnow : world'.now = world.now) (hhistory : world'.history = world.history)
    (hlast : world'.lastSnapshot = world.lastSnapshot)
    (hrunning : ∀ result, world.worker ≠ .terminated result)
    (hworker : world.worker.AwaitsSnapshot → world'.worker.AwaitsSnapshot)
    (hsnapshot : SnapshotCoherent world') : ScheduleCoherent mode world' := by
  refine ⟨hsnapshot, ?_, ?_, ?_⟩
  · rw [hsame]
    exact hschedule.unarmed
  · rw [hsame, hnow]
    exact hschedule.deadline_le
  · intro _ mutation hmem hlater
    rw [hhistory] at hmem
    rw [hlast] at hlater
    refine (hschedule.pending hrunning mutation hmem hlater).of_same hworker ?_ ?_
    · rw [hsame]
      exact id
    · rw [hsame]

theorem ScheduleCoherent.worker {world world' : World T ι} (hworld : Coherent encode world)
    (hschedule : ScheduleCoherent mode world)
    (htransition : WorkerTransition mode encode world world') : ScheduleCoherent mode world' := by
  have hrunning := htransition.not_terminated
  have hsnapshot := hschedule.snapshot
  unfold SnapshotCoherent at hsnapshot
  have hgivesUpNone : ∀ {phase : WorkerPhase}, world.worker = phase → phase ≠ .due →
      phase ≠ .stateLocked → world.worker.AwaitsSnapshot → world'.worker.AwaitsSnapshot := by
    intro phase hphase hdue hlocked hawaits
    rw [hphase] at hawaits
    exact absurd hawaits (not_awaitsSnapshot hdue hlocked)
  cases htransition with
  | slept hphase => exact hschedule
  | exited hphase hfailure hepochs hstopping =>
    rw [hphase] at hsnapshot
    exact hschedule.of_worker rfl rfl rfl rfl hrunning
      (hgivesUpNone hphase (fun h ↦ nomatch h) fun h ↦ nomatch h) hsnapshot
  | cameDue hphase hfailure hepochs =>
    rw [hphase] at hsnapshot
    exact ⟨hsnapshot, fun _ ↦ rfl, (fun _ _ _ hdeadline ↦ nomatch hdeadline),
      fun _ _ _ _ ↦ Or.inl (Or.inl rfl)⟩
  | sleptUnarmed hphase hepochs =>
    rw [hphase] at hsnapshot
    refine ⟨hschedule.snapshot.of_same rfl rfl rfl, fun _ ↦ rfl,
      (fun _ _ _ hdeadline ↦ nomatch hdeadline), ?_⟩
    exact fun _ ↦ isScheduled_of_snapshot hworld.wellformed (hepochs.le.trans hsnapshot.ge)
  | stateLocked hphase hfree =>
    rw [hphase] at hsnapshot
    exact hschedule.of_worker rfl rfl rfl rfl hrunning (fun _ ↦ Or.inr rfl) hsnapshot
  | snapshotTaken hphase =>
    exact ⟨rfl, hschedule.unarmed, hschedule.deadline_le,
      fun _ ↦ isScheduled_of_snapshot hworld.wellformed (le_refl _)⟩
  | encoded hphase =>
    rw [hphase] at hsnapshot
    exact hschedule.of_worker rfl rfl rfl rfl hrunning
      (hgivesUpNone hphase (fun h ↦ nomatch h) fun h ↦ nomatch h) hsnapshot
  | written hphase =>
    rw [hphase] at hsnapshot
    exact hschedule.of_worker rfl rfl rfl rfl hrunning
      (hgivesUpNone hphase (fun h ↦ nomatch h) fun h ↦ nomatch h) hsnapshot
  | cycleFinished hphase => exact hschedule.cycleFinished hworld hphase
  | @cyclePanicked snapshotEpoch hphase hpanics =>
    obtain ⟨-, delay, -, hnone, -, hcycle⟩ := finishCycle_eq_none _ _ _ _ hpanics
    have hdisarmed :
        (finishCycle mode world.now snapshotEpoch world.schedule).2.deadline = none := by
      rw [hcycle]
      exact hnone
    exact ⟨trivial, fun _ ↦ hdisarmed,
      (fun _ _ _ hdeadline ↦ nomatch hdisarmed.symm.trans hdeadline),
      fun hended ↦ absurd rfl (hended _)⟩
  | failed error hphase =>
    rcases hphase with hphase | ⟨bytes, snapshotEpoch, hphase⟩
    · exact hschedule.of_worker rfl rfl rfl rfl hrunning
        (hgivesUpNone hphase (fun h ↦ nomatch h) fun h ↦ nomatch h) trivial
    · exact hschedule.of_worker rfl rfl rfl rfl hrunning
        (hgivesUpNone hphase (fun h ↦ nomatch h) fun h ↦ nomatch h) trivial
  | failureStored hphase =>
    refine ⟨trivial, hschedule.unarmed, hschedule.deadline_le, fun _ mutation hmem hlater ↦ ?_⟩
    exact (hschedule.pending hrunning mutation hmem hlater).of_same
      (hgivesUpNone hphase (fun h ↦ nomatch h) fun h ↦ nomatch h) id rfl
  | panicked hphase =>
    rcases hphase with ⟨bytes, snapshotEpoch, hphase⟩ | ⟨error, hphase⟩
    · exact hschedule.of_worker rfl rfl rfl rfl hrunning
        (hgivesUpNone hphase (fun h ↦ nomatch h) fun h ↦ nomatch h) trivial
    · exact hschedule.of_worker rfl rfl rfl rfl hrunning
        (hgivesUpNone hphase (fun h ↦ nomatch h) fun h ↦ nomatch h) trivial
  | encodeFailed hphase | encodePanicked hphase | returned hphase | failureReturned hphase =>
    exact hschedule.of_worker rfl rfl rfl rfl hrunning
      (hgivesUpNone hphase (fun h ↦ nomatch h) fun h ↦ nomatch h) trivial

theorem scheduleCoherent_start (state : T) (now : ℕ) :
    ScheduleCoherent mode (.start state now : World T ι) where
  snapshot := rfl
  unarmed := fun _ ↦ rfl
  deadline_le := fun _ _ _ hdeadline ↦ nomatch hdeadline
  pending := fun _ _ hmem ↦ nomatch hmem

variable [DecidableEq ι]

/-- The invariant holds in every world that is reached without a record that panics. -/
theorem scheduleCoherent_of_reachableBy {world : World T ι}
    (hreachable : (persistence mode encode).ReachableBy (SchedulesRecord mode) world) :
    ScheduleCoherent mode world := by
  refine hreachable.invariant (ScheduleCoherent mode) ?_ ?_
  · rintro _ ⟨-, state, now, rfl⟩
    exact scheduleCoherent_start state now
  · intro world event world' hstate hallowed hschedule hstep
    have hworld := coherent_of_reachable hstate.reachable
    cases transition_of_step mode encode hstep with
    | tick elapsed =>
      refine { hschedule with deadline_le := fun delay deadline hmode hdeadline ↦ ?_ }
      have hle := hschedule.deadline_le delay deadline hmode hdeadline
      dsimp only
      omega
    | client client htransition => exact hschedule.client hworld hallowed htransition
    | owner htransition =>
      cases htransition with
      | stopRequested hphase =>
        exact { hschedule with
          pending := fun hrunning mutation hmem hlater ↦
            (hschedule.pending hrunning mutation hmem hlater).of_same id (fun _ ↦ rfl) rfl }
      | _ => exact { hschedule with }
    | worker htransition => exact hschedule.worker hworld htransition

/-! ### Deadlines -/

/-- An armed deadline is never moved: it stays until the thread is about to take a snapshot or
everything is persisted. -/
theorem deadline_kept_or_served {world world' : World T ι} {event : Event T ι} {deadline : ℕ}
    (hstep : step mode encode world event = some world')
    (hdeadline : world.schedule.deadline = some deadline) :
    world'.schedule.deadline = some deadline ∨
      (world'.schedule.deadline = none ∧ (world'.worker = .due ∨
        world'.schedule.mutationEpoch = world'.schedule.persistedEpoch)) := by
  cases transition_of_step mode encode hstep with
  | tick elapsed => exact Or.inl hdeadline
  | client client htransition =>
    cases htransition with
    | recorded hholder hfailure hepochs =>
      refine Or.inl ?_
      cases mode with
      | batched delay =>
        dsimp only
        rw [withMutation_batched_of_some _ _ _ hdeadline]
        exact hdeadline
      | immediate => exact hdeadline
    | _ => exact Or.inl hdeadline
  | owner htransition => cases htransition <;> exact Or.inl hdeadline
  | worker htransition =>
    cases htransition with
    | cameDue hphase hfailure hepochs => exact Or.inr ⟨rfl, Or.inl rfl⟩
    | sleptUnarmed hphase hepochs => exact Or.inr ⟨rfl, Or.inr hepochs⟩
    | @cycleFinished snapshotEpoch hphase =>
      by_cases hepochs : world.schedule.mutationEpoch = snapshotEpoch
      · refine Or.inr ⟨finishCycle_deadline_of_eq _ _ _ _ hepochs, Or.inr ?_⟩
        rw [finishCycle_mutationEpoch, finishCycle_persistedEpoch]
        exact hepochs
      · exact Or.inl (finishCycle_deadline_of_some _ _ _ _ hepochs hdeadline)
    | cyclePanicked hphase hpanics =>
      obtain ⟨-, delay, -, hnone, -⟩ := finishCycle_eq_none _ _ _ _ hpanics
      exact nomatch hnone.symm.trans hdeadline
    | _ => exact Or.inl hdeadline

/-- No snapshot is of an epoch that no record has taken. -/
theorem lastSnapshot_le_of_reachable {world : World T ι}
    (hreachable : (persistence mode encode).Reachable world) :
    world.lastSnapshot ≤ world.schedule.mutationEpoch := by
  refine hreachable.invariant (fun world ↦ world.lastSnapshot ≤ world.schedule.mutationEpoch) ?_ ?_
  · rintro _ ⟨-, state, now, rfl⟩
    exact le_refl _
  · intro world event world' _ _ hworld hstep
    cases transition_of_step mode encode hstep with
    | tick elapsed => exact hworld
    | client client htransition =>
      cases htransition with
      | recorded hholder hfailure hepochs =>
        rw [withMutation_mutationEpoch]
        exact hworld.trans (Nat.le_succ _)
      | _ => exact hworld
    | owner htransition => cases htransition <;> exact hworld
    | worker htransition =>
      cases htransition with
      | snapshotTaken hphase => exact le_refl _
      | cycleFinished hphase | cyclePanicked hphase hpanics =>
        rw [finishCycle_mutationEpoch]
        exact hworld
      | _ => exact hworld

/-- After a record that panics its mutation is pending, and nothing schedules it. -/
theorem not_pendingScheduled_of_step {world world' : World T ι} {event : Event T ι}
    (hreachable : (persistence mode encode).Reachable world)
    (hpanics : ¬ SchedulesRecord mode world event)
    (hstep : step mode encode world event = some world') : ¬ PendingScheduled mode world' := by
  unfold SchedulesRecord at hpanics
  push Not at hpanics
  obtain ⟨client, delay, rfl, rfl, hfailure, hleft, hdeadline, hrunning, hawaits, hsum⟩ := hpanics
  have hepochs : world.schedule.mutationEpoch + 1 < 2 ^ 64 := by
    by_contra hexhausted
    rw [checkedSucc, if_neg hexhausted] at hleft
    exact Bool.false_ne_true hleft
  obtain rfl := recorded_of_step (.batched delay) hfailure hepochs hstep
  have hnone : instantAdd world.now delay = none := Option.not_isSome_iff_eq_none.mp hsum
  intro hscheduled
  have hmutation := hscheduled hrunning ((withMutation_failure _ _ _ _).trans hfailure) _
    (History.mem_withRecorded.mpr (Or.inr rfl))
    (Nat.lt_succ_of_le (lastSnapshot_le_of_reachable hreachable))
  rcases hmutation with hawaiting | ⟨hmode, -⟩ | ⟨_, deadline, -, harmed, -⟩
  · exact hawaits hawaiting
  · cases hmode
  · dsimp only at harmed
    rw [withMutation_batched_of_none _ _ _ hdeadline, hnone] at harmed
    exact Option.some_ne_none _ harmed.symm

variable (mode encode) in
/-- In every reachable world each mutation beyond the last snapshot is scheduled, by its own
deadline in the batched mode, and no step pushes an armed deadline back. -/
def SchedulesPending (ι : Type) [DecidableEq ι] : Prop :=
  ∀ world : World T ι, (persistence mode encode).Reachable world →
    PendingScheduled mode world ∧
      ∀ event world' deadline, step mode encode world event = some world' →
        world.schedule.deadline = some deadline →
          world'.schedule.deadline = some deadline ∨
            (world'.schedule.deadline = none ∧ (world'.worker = .due ∨
              world'.schedule.mutationEpoch = world'.schedule.persistedEpoch))

/-- In every run without a record that panics for want of an instant, each mutation beyond the last
snapshot is scheduled in every world that is reached, by its own deadline in the batched mode, and
no step pushes an armed deadline back; and each record that panics while the thread goes on without
a snapshot ahead of it leaves a mutation that is not scheduled. -/
theorem pendingScheduled_of_schedulesRecord :
    (∀ world : World T ι, (persistence mode encode).ReachableBy (SchedulesRecord mode) world →
      PendingScheduled mode world ∧
        ∀ event world' deadline, step mode encode world event = some world' →
          world.schedule.deadline = some deadline →
            world'.schedule.deadline = some deadline ∨
              (world'.schedule.deadline = none ∧ (world'.worker = .due ∨
                world'.schedule.mutationEpoch = world'.schedule.persistedEpoch))) ∧
    ∀ (world world' : World T ι) (event : Event T ι),
      (persistence mode encode).Reachable world → ¬ SchedulesRecord mode world event →
        step mode encode world event = some world' → ¬ PendingScheduled mode world' := by
  constructor
  · intro world hreachable
    exact ⟨fun hrunning _ ↦ (scheduleCoherent_of_reachableBy hreachable).pending hrunning,
      fun _ _ _ hstep hdeadline ↦ deadline_kept_or_served hstep hdeadline⟩
  · intro world world' event hreachable hpanics hstep
    exact not_pendingScheduled_of_step hreachable hpanics hstep

omit [DecidableEq ι] in
/-- With instants left for the delay each record is scheduled. -/
theorem schedulesRecord_of_instantAdd {delay : ℕ} {world : World T ι} {event : Event T ι}
    (hsum : (instantAdd world.now delay).isSome) :
    SchedulesRecord (.batched delay) world event := by
  intro client delay' _ hmode _ _ _ _ _
  obtain rfl := PersistenceMode.batched.inj hmode
  exact hsum

/-- Only a tick moves the clock. -/
theorem now_of_step {world world' : World T ι} {event : Event T ι}
    (hstep : step mode encode world event = some world')
    (hevent : ∀ elapsed, event ≠ .tick elapsed) : world'.now = world.now := by
  cases transition_of_step mode encode hstep with
  | tick elapsed => exact absurd rfl (hevent elapsed)
  | client client htransition => cases htransition <;> rfl
  | owner htransition => cases htransition <;> rfl
  | worker htransition => cases htransition <;> rfl

/-- A client records a mutation and forces its write, and a second mutation is recorded while the
first one is being written. -/
def overlappingRun : List (Event ℕ Bool) :=
  [.client true .lockState, .client true (.editState (· + 5)), .client true .recordMutation,
    .client true .unlockState, .client true .callFlush, .client true .enterFlush,
    .worker .succeeds, .worker .succeeds, .worker .succeeds, .worker .succeeds,
    .client false .lockState, .client false (.editState (· + 1)), .client false .recordMutation,
    .client false .unlockState, .worker .succeeds, .worker .succeeds]

/-- A client records a mutation at time 3. -/
def recordRun : List (Event ℕ Bool) :=
  [.tick 3, .client true .lockState, .client true .recordMutation]

/-- The greatest delay, `Duration::MAX`, in nanoseconds. -/
def maxDelay : ℕ :=
  2 ^ 64 * 10 ^ 9 - 1

/-- The world after `recordRun` with the greatest delay: the epoch is taken and no receipt is handed
out. -/
def panickedWorld : World ℕ Bool :=
  { World.start 0 3 with
    holder := some (.client true)
    schedule := { ScheduleState.default with mutationEpoch := 1 }
    history := ⟨0, [], [⟨⟨1, false⟩, 0, 3, false⟩]⟩ }

/-- With the delay 10 the second mutation is pending after the write, with its own deadline. With
the greatest delay the record panics, and its mutation is not scheduled. -/
theorem pendingScheduled_of_schedulesRecord_overlappingRun :
    (∃ world, (counter (.batched 10)).run (.start 0 2) overlappingRun = some world ∧
      world.lastSnapshot = 1 ∧ world.schedule.deadline = some 12 ∧
      world.history.recorded = [⟨⟨1, false⟩, 1, 2, true⟩, ⟨⟨2, false⟩, 2, 2, true⟩] ∧
      PendingScheduled (.batched 10) world) ∧
    (counter (.batched maxDelay)).run (.start 0 0) recordRun = some panickedWorld ∧
      ¬ PendingScheduled (.batched maxDelay) panickedWorld := by
  constructor
  · have hsome : ((counter (.batched 10)).run (.start 0 2) overlappingRun).isSome := rfl
    obtain ⟨world, hrun⟩ := Option.isSome_iff_exists.mp hsome
    have hworld : ((counter (.batched 10)).run (.start 0 2) overlappingRun).map (fun world ↦
      (world.lastSnapshot, world.schedule.deadline, world.history.recorded)) =
        some (1, some 12, [⟨⟨1, false⟩, 1, 2, true⟩, ⟨⟨2, false⟩, 2, 2, true⟩]) := rfl
    rw [hrun] at hworld
    obtain ⟨hlast, hworld⟩ := Prod.mk.inj (Option.some.inj hworld)
    obtain ⟨hdeadline, hrecorded⟩ := Prod.mk.inj hworld
    have hstart : (counter (.batched 10)).ReachableBy (SchedulesRecord (.batched 10))
        (.start 0 2) := .start ⟨rfl, 0, 2, rfl⟩
    have hreachable :
        (counter (.batched 10)).ReachableBy (SchedulesRecord (.batched 10)) world := by
      refine hstart.run_of_keeps (fun world ↦ world.now = 2) rfl ?_ ?_ hrun
      · intro event hmem world world' hnow hstep
        refine (now_of_step hstep ?_).trans hnow
        rintro elapsed rfl
        simp [overlappingRun] at hmem
      · intro event _ world hnow
        exact schedulesRecord_of_instantAdd (by rw [hnow]; rfl)
    exact ⟨world, hrun, hlast, hdeadline, hrecorded,
      (pendingScheduled_of_schedulesRecord.1 world hreachable).1⟩
  · have hstart : (counter (.batched maxDelay)).Reachable (.start 0 0) := .start ⟨rfl, 0, 0, rfl⟩
    have hlocked : (counter (.batched maxDelay)).run (.start 0 0)
        [.tick 3, .client true .lockState] =
      some { World.start 0 3 with holder := some (.client true) } := rfl
    refine ⟨rfl, pendingScheduled_of_schedulesRecord.2 _ _ (.client true .recordMutation)
      (hstart.run hlocked) ?_ rfl⟩
    have hnone : instantAdd 3 maxDelay = none := by decide
    intro hallowed
    have hsum := hallowed true maxDelay rfl rfl rfl rfl rfl nofun (not_awaitsSnapshot nofun nofun)
    exact absurd hsum (Option.not_isSome_iff_eq_none.mpr hnone)

/-- With the greatest delay the first record panics, and its mutation is not scheduled. -/
theorem not_schedulesPending :
    ¬ SchedulesPending (.batched maxDelay) (fun state : ℕ ↦ [UInt8.ofNat state]) Bool := by
  intro hclaim
  have hstart : (counter (.batched maxDelay)).Reachable (.start 0 0) := .start ⟨rfl, 0, 0, rfl⟩
  have hrun : (counter (.batched maxDelay)).run (.start 0 0) recordRun = some panickedWorld := rfl
  have hmutation := (hclaim _ (hstart.run hrun)).1 nofun rfl ⟨⟨1, false⟩, 0, 3, false⟩
    (List.mem_singleton_self _) Nat.zero_lt_one
  rcases hmutation with (hawaits | hawaits) | ⟨hmode, -⟩ | ⟨_, _, -, harmed, -⟩
  · exact nomatch hawaits
  · exact nomatch hawaits
  · exact nomatch hmode
  · exact nomatch harmed

end SoftwareKeyCore.StatePersistence
