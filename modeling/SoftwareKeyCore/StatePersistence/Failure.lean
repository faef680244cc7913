import SoftwareKeyCore.StatePersistence.Shutdown

/-!
# Failures of the encoder and the writer

An error of the encoder or the writer ends `run_persistence`. The persistence thread stores it and
ends, and nothing after that takes a snapshot, writes an image, moves the persisted epoch or clears
the stored failure; the entry points of the handles return the failure before they touch the
schedule. Between the error and the moment it is stored clients may still record mutations and
begin to wait; no epoch beyond the persisted one is acknowledged for that (`failure_sticky`).

`InPlace` has the entry points as they assign to the schedule, one field after the other, so that
what a refused call leaves behind is not true by definition.
-/

set_option autoImplicit false
set_option relaxedAutoImplicit false

namespace SoftwareKeyCore.StatePersistence

open FallibleResult TransitionSystem

variable {T ι : Type}

/-! ### The entry points of a handle -/

namespace InPlace

/-- A critical section of the schedule mutex. What it has assigned stays when it returns an
error. -/
abbrev Section (α : Type) := ExceptT IoError (StateM ScheduleState) α

/-- A result that is found without an assignment. -/
def returning {α : Type} (result : Except IoError α) : Section α :=
  ExceptT.mk (pure result)

/-- `StatePersistenceHandle::record_mutation`. Without a receipt it has panicked, in the sum of an
instant and the delay. -/
def recordMutation (mode : PersistenceMode) (now : ℕ) : Section (Option MutationReceipt) := do
  returning (checkFailure (← get))
  let mutationEpoch ← returning (orError ⟨.other, "persistence mutation epoch exhausted"⟩
    (checkedSucc (← get).mutationEpoch))
  modify fun schedule ↦ { schedule with mutationEpoch := mutationEpoch }
  let waitForPersistence := mode = .immediate
  match mode with
  | .batched delay =>
    if (← get).deadline.isNone then
      match instantAdd now delay with
      | some deadline =>
        modify fun schedule ↦ { schedule with deadline := some deadline }
        pure (some ⟨mutationEpoch, waitForPersistence⟩)
      | none => pure none
    else pure (some ⟨mutationEpoch, waitForPersistence⟩)
  | .immediate =>
    modify fun schedule ↦ { schedule with force := true }
    pure (some ⟨mutationEpoch, waitForPersistence⟩)

/-- The first section of `StatePersistenceHandle::flush`. -/
def flush : Section (Option ℕ) := do
  returning (checkFailure (← get))
  let target := (← get).mutationEpoch
  if target ≤ (← get).persistedEpoch then pure none
  else
    modify fun schedule ↦ { schedule with force := true }
    pure (some target)

/-- `StatePersistenceHandle::check_health`. -/
def checkHealth : Section Unit := do
  returning (checkFailure (← get))

section Rules

variable {α β : Type} (schedule : ScheduleState)

theorem run_bind (first : Section α) (rest : α → Section β) :
    (first >>= rest).run schedule =
      match first.run schedule with
      | (.ok value, schedule') => (rest value).run schedule'
      | (.error error, schedule') => (.error error, schedule') := by
  show (match first.run schedule with
    | (result, schedule') => ExceptT.bindCont rest result schedule') = _
  cases first.run schedule with
  | mk result schedule' => cases result <;> rfl

theorem run_get : (get : Section ScheduleState).run schedule = (.ok schedule, schedule) := rfl

theorem run_returning (result : Except IoError α) :
    (returning result).run schedule = (result, schedule) := rfl

theorem run_pure (value : α) : (pure value : Section α).run schedule = (.ok value, schedule) := rfl

end Rules

/-- What a section leaves when its result and the schedule after it are found at once. -/
def commit {α : Type} (schedule : ScheduleState) :
    Except IoError (α × ScheduleState) → Except IoError α × ScheduleState
  | .ok (value, schedule') => (.ok value, schedule')
  | .error error => (.error error, schedule)

/-- `record_mutation` of the threads' model is that of the source. -/
theorem run_recordMutation (mode : PersistenceMode) (now : ℕ) (schedule : ScheduleState) :
    (recordMutation mode now).run schedule =
      commit schedule (StatePersistence.recordMutation mode now schedule) := by
  unfold recordMutation StatePersistence.recordMutation
  simp only [run_bind, run_get, run_returning]
  cases checkFailure schedule with
  | error error => rfl
  | ok _ =>
    simp only [ok_bind]
    cases checkedSucc schedule.mutationEpoch with
    | none => rfl
    | some mutationEpoch =>
      cases mode with
      | immediate => rfl
      | batched delay =>
        obtain ⟨epoch, persisted, deadline, force, stopping, failure⟩ := schedule
        simp only [orError, ok_bind, ScheduleState.withMutation, armDeadline]
        cases instantAdd now delay with
        | none => cases deadline <;> rfl
        | some sum => cases deadline <;> rfl

/-- `flush` of the threads' model is that of the source. -/
theorem run_flush (schedule : ScheduleState) :
    flush.run schedule = commit schedule (StatePersistence.flush schedule) := by
  unfold flush StatePersistence.flush
  simp only [run_bind, run_get, run_returning]
  cases checkFailure schedule with
  | error error => rfl
  | ok _ =>
    simp only [ok_bind]
    by_cases hpersisted : schedule.mutationEpoch ≤ schedule.persistedEpoch
    · rw [if_pos hpersisted, if_pos hpersisted]
      rfl
    · rw [if_neg hpersisted, if_neg hpersisted]
      rfl

end InPlace

/-! ### Calls that return `Ok` -/

/-- The step makes a flush, or the wait on a receipt of immediate mode, return `Ok` to its caller;
the epoch it was to wait for is the index. -/
inductive ReturnsOk (world : World T ι) : Event T ι → ℕ → Prop
  | flushed {client : ι} {recordedBefore : ℕ} {schedule : ScheduleState}
      (hphase : world.clients client = .flushCalled recordedBefore)
      (hflush : flush world.schedule = .ok (none, schedule)) :
    ReturnsOk world (.client client .enterFlush) world.schedule.mutationEpoch
  | flushWaited {client : ι} {recordedBefore target : ℕ}
      (hphase : world.clients client = .flushWaiting recordedBefore target)
      (hpass : waitForEpochPass target world.schedule = .ok true) :
    ReturnsOk world (.client client .pass) target
  | receiptWaited {client : ι} {receipt : MutationReceipt}
      (hphase : world.clients client = .receiptWaiting receipt)
      (himmediate : receipt.waitForPersistence = true)
      (hpass : receipt.waitPass world.schedule = .ok true) :
    ReturnsOk world (.client client .pass) receipt.mutationEpoch

/-- What returns `Ok` was persisted. -/
theorem ReturnsOk.target_le {world : World T ι} {event : Event T ι} {target : ℕ}
    (hreturns : ReturnsOk world event target) : target ≤ world.schedule.persistedEpoch := by
  cases hreturns with
  | flushed hphase hflush =>
    obtain ⟨-, ⟨hpersisted, -⟩ | ⟨-, habsurd, -⟩⟩ := flush_eq_ok_iff.mp hflush
    · exact hpersisted
    · exact nomatch habsurd
  | flushWaited hphase hpass => exact waitForEpochPass_eq_ok_true_iff.mp hpass
  | receiptWaited hphase himmediate hpass =>
    rw [MutationReceipt.waitPass, if_pos himmediate] at hpass
    exact waitForEpochPass_eq_ok_true_iff.mp hpass

/-! ### After an error -/

/-- The thread is past an error that the encoder or the writer returned. -/
def WorkerPhase.HasFailed (error : IoError) : WorkerPhase → Prop
  | .failing error' => error' = error
  | .failureStored error' => error' = error
  | .terminated (.finished (.error error')) => error' = error
  | .terminated .panicked => True
  | _ => False

/-- What holds from the error on; `failed` is the world right after it. -/
structure HasFailed (error : IoError) (failed world : World T ι) : Prop where
  worker : world.worker.HasFailed error
  persistedEpoch : world.schedule.persistedEpoch = failed.schedule.persistedEpoch
  image : world.image = failed.image
  lastSnapshot : world.lastSnapshot = failed.lastSnapshot
  failure : (world.worker = .failing error ∧ world.schedule.failure = none) ∨
    world.schedule.failure = some (.capture error)
  owner : ∀ call result, world.owner = .returned call result →
    ∃ error', result = .error error'

section Steps

variable {mode : PersistenceMode} {encode : T → ByteString} {error : IoError}
  {failed world world' : World T ι}

/-- A step that leaves the thread, the image and the owner alone keeps what holds from the error
on when it touches neither the persisted epoch nor the stored failure. -/
theorem HasFailed.of_same (hworld : HasFailed error failed world)
    (hworker : world'.worker = world.worker) (himage : world'.image = world.image)
    (hsnapshot : world'.lastSnapshot = world.lastSnapshot)
    (hpersisted : world'.schedule.persistedEpoch = world.schedule.persistedEpoch)
    (hfailure : world'.schedule.failure = world.schedule.failure)
    (howner : world'.owner = world.owner) : HasFailed error failed world' where
  worker := hworker ▸ hworld.worker
  persistedEpoch := hpersisted.trans hworld.persistedEpoch
  image := himage.trans hworld.image
  lastSnapshot := hsnapshot.trans hworld.lastSnapshot
  failure := by
    rw [hworker, hfailure]
    exact hworld.failure
  owner := howner ▸ hworld.owner

/-- The owner is told the result of the thread. -/
theorem ownerStep_returned {action : OwnerAction} {call : StopCall}
    {result : Except IoError Unit} (hstep : ownerStep world action = some world')
    (hreturned : world'.owner = .returned call result) :
    ∃ threadResult, world.worker = .terminated threadResult ∧
      result = joinResult threadResult := by
  unfold ownerStep at hstep
  split at hstep
  · obtain rfl := Option.some.inj hstep
    exact nomatch hreturned
  · obtain rfl := Option.some.inj hstep
    exact nomatch hreturned
  · split at hstep
    · next threadResult hworker =>
      refine ⟨threadResult, hworker, ?_⟩
      split at hstep
      · next hresult _ =>
        obtain rfl := Option.some.inj hstep
        rw [hresult]
        exact (OwnerPhase.returned.inj hreturned).2.symm
      · obtain rfl := Option.some.inj hstep
        exact (OwnerPhase.returned.inj hreturned).2.symm
    · exact nomatch hstep
  · exact nomatch hstep

/-- The result of a thread that failed is an error. -/
theorem joinResult_of_hasFailed {threadResult : ThreadResult}
    (hfailed : (WorkerPhase.terminated threadResult).HasFailed error) :
    ∃ error', joinResult threadResult = .error error' := by
  cases threadResult with
  | panicked => exact ⟨_, rfl⟩
  | finished result =>
    cases result with
    | ok value => exact hfailed.elim
    | error error' => exact ⟨error', rfl⟩

theorem HasFailed.ownerStep {action : OwnerAction} (hworld : HasFailed error failed world)
    (hstep : ownerStep world action = some world') : HasFailed error failed world' := by
  have howner : ∀ call result, world'.owner = .returned call result →
      ∃ error', result = .error error' := by
    intro call result hreturned
    obtain ⟨threadResult, hworker, rfl⟩ := ownerStep_returned hstep hreturned
    have hfailed := hworld.worker
    rw [hworker] at hfailed
    exact joinResult_of_hasFailed hfailed
  cases ownerTransition_of_step hstep with
  | stopCalled call hphase => exact { hworld with owner := howner }
  | stopRequested hphase => exact { hworld with owner := howner }
  | joined result hphase => exact { hworld with owner := howner }
  | shutDown hphase hworker => exact { hworld with owner := howner }

theorem HasFailed.workerTransition (hworld : HasFailed error failed world)
    (htransition : WorkerTransition mode encode world world') : HasFailed error failed world' := by
  have hworker := hworld.worker
  have hfailure := hworld.failure
  cases htransition with
  | failureStored hphase =>
    rw [hphase] at hworker
    obtain rfl := hworker
    exact { hworld with worker := rfl, failure := Or.inr rfl }
  | failureReturned hphase =>
    rw [hphase] at hworker hfailure
    exact { hworld with
      worker := hworker
      failure := Or.inr (hfailure.resolve_left fun hfailing ↦ nomatch hfailing.1) }
  | panicked hphase =>
    rcases hphase with ⟨bytes, snapshotEpoch, hphase⟩ | ⟨error', hphase⟩
    · rw [hphase] at hworker
      exact hworker.elim
    · rw [hphase] at hfailure
      exact { hworld with
        worker := trivial
        failure := Or.inr (hfailure.resolve_left fun hfailing ↦ nomatch hfailing.1) }
  | failed error' hphase =>
    rcases hphase with hphase | ⟨bytes, snapshotEpoch, hphase⟩
    · rw [hphase] at hworker
      exact hworker.elim
    · rw [hphase] at hworker
      exact hworker.elim
  | exited hphase | cameDue hphase | slept hphase | sleptUnarmed hphase | stateLocked hphase
  | snapshotTaken hphase | encoded hphase | encodeFailed hphase | encodePanicked hphase
  | written hphase | cycleFinished hphase | cyclePanicked hphase | returned hphase =>
    rw [hphase] at hworker
    exact hworker.elim

variable [DecidableEq ι]

theorem HasFailed.clientTransition {client : ι} {action : ClientAction T}
    (hworld : HasFailed error failed world)
    (htransition : ClientTransition mode world client action world') :
    HasFailed error failed world' := by
  cases htransition with
  | recorded hholder hfailure hepochs =>
    exact hworld.of_same rfl rfl rfl (withMutation_persistedEpoch _ _ _ _)
      (withMutation_failure _ _ _ _) rfl
  | _ => exact hworld.of_same rfl rfl rfl rfl rfl rfl

/-- Every step keeps what holds from the error on. -/
theorem HasFailed.step {event : Event T ι} (hworld : HasFailed error failed world)
    (hstep : step mode encode world event = some world') : HasFailed error failed world' := by
  cases event with
  | tick elapsed =>
    obtain rfl := Option.some.inj hstep
    exact hworld.of_same rfl rfl rfl rfl rfl rfl
  | client client action => exact hworld.clientTransition (clientTransition_of_step mode hstep)
  | owner action => exact hworld.ownerStep hstep
  | worker outcome => exact hworld.workerTransition (workerTransition_of_step mode encode hstep)

/-- No step clears or replaces a stored failure. -/
theorem HasFailed.failure_step {event : Event T ι} (hworld : HasFailed error failed world)
    (hstored : world.schedule.failure = some (.capture error))
    (hstep : StatePersistence.step mode encode world event = some world') :
    world'.schedule.failure = some (.capture error) := by
  cases transition_of_step mode encode hstep with
  | tick elapsed => exact hstored
  | client client htransition =>
    cases htransition with
    | recorded hholder hfailure hepochs => exact (withMutation_failure _ _ _ _).trans hstored
    | _ => exact hstored
  | owner htransition => cases htransition <;> exact hstored
  | worker htransition =>
    cases htransition with
    | failureStored hphase =>
      have hworker := hworld.worker
      rw [hphase] at hworker
      obtain rfl := hworker
      rfl
    | cycleFinished hphase | cyclePanicked hphase hpanics =>
      exact (finishCycle_failure _ _ _ _).trans hstored
    | _ => exact hstored

/-! ### From the error on -/

/-- The owner has been told a result only when the thread has ended. -/
theorem terminated_of_returned (hreachable : (persistence mode encode).Reachable world) :
    ∀ call result, world.owner = .returned call result →
      ∃ threadResult, world.worker = .terminated threadResult := by
  refine hreachable.invariant (fun world ↦ ∀ call result, world.owner = .returned call result →
    ∃ threadResult, world.worker = .terminated threadResult) ?_ ?_
  · rintro _ ⟨-, state, now, rfl⟩ call result hreturned
    exact nomatch hreturned
  · intro world event world' _ _ hworld hstep call result hreturned
    cases event with
    | tick elapsed =>
      obtain rfl := Option.some.inj hstep
      exact hworld call result hreturned
    | client client action =>
      cases clientTransition_of_step mode hstep <;> exact hworld call result hreturned
    | owner action =>
      obtain ⟨threadResult, hworker, -⟩ := ownerStep_returned hstep hreturned
      cases ownerTransition_of_step hstep <;> exact ⟨threadResult, hworker⟩
    | worker outcome =>
      have hkept : world'.owner = world.owner := by
        cases workerTransition_of_step mode encode hstep <;> rfl
      obtain ⟨threadResult, hworker⟩ := hworld call result (hkept ▸ hreturned)
      have habsurd : workerStep mode encode world outcome = some world' := hstep
      unfold workerStep at habsurd
      rw [hworker] at habsurd
      exact nomatch habsurd

/-- What holds right after the encoder or the writer has returned an error. -/
theorem hasFailed_of_step (hreachable : (persistence mode encode).Reachable world)
    (hstep : StatePersistence.step mode encode world (.worker (.fails error)) = some failed) :
    HasFailed error failed failed := by
  have hcoherent := failureCoherent_of_reachable hreachable
  have hrunning : (∀ threadResult, world.worker ≠ .terminated threadResult) →
      ∀ call result, world.owner = .returned call result → ∃ error', result = .error error' := by
    intro hworker call result howner
    obtain ⟨threadResult, hterminated⟩ := terminated_of_returned hreachable call result howner
    exact absurd hterminated (hworker threadResult)
  unfold FailureCoherent at hcoherent
  have hworker : workerStep mode encode world (.fails error) = some failed := hstep
  unfold workerStep at hworker
  cases hphase : world.worker with
  | snapshotTaken snapshotEpoch =>
    rw [hphase] at hworker hcoherent
    obtain rfl := Option.some.inj hworker
    exact ⟨rfl, rfl, rfl, rfl, Or.inl ⟨rfl, hcoherent⟩, hrunning (by rw [hphase]; simp)⟩
  | encoded bytes snapshotEpoch =>
    rw [hphase] at hworker hcoherent
    obtain rfl := Option.some.inj hworker
    exact ⟨rfl, rfl, rfl, rfl, Or.inl ⟨rfl, hcoherent⟩, hrunning (by rw [hphase]; simp)⟩
  | _ =>
    rw [hphase] at hworker
    exact nomatch hworker

/-- A step after the error promises nothing beyond the persisted epoch. -/
theorem HasFailed.acknowledged_step {event : Event T ι} (hworld : HasFailed error failed world)
    (hstep : StatePersistence.step mode encode world event = some world') :
    world'.acknowledged = world.acknowledged ∨ ∃ target, ReturnsOk world event target := by
  cases transition_of_step mode encode hstep with
  | tick elapsed => exact Or.inl rfl
  | client client htransition =>
    cases htransition with
    | flushUnneeded hphase hfailure hpersisted =>
      exact Or.inr ⟨_, .flushed hphase
        (flush_eq_ok_iff.mpr ⟨hfailure, Or.inl ⟨hpersisted, rfl, rfl⟩⟩)⟩
    | flushReached hphase hpersisted =>
      exact Or.inr ⟨_, .flushWaited hphase (waitForEpochPass_eq_ok_true_iff.mpr hpersisted)⟩
    | waitReached hphase hwaits hpersisted =>
      refine Or.inr ⟨_, .receiptWaited hphase hwaits ?_⟩
      rw [MutationReceipt.waitPass, if_pos hwaits]
      exact waitForEpochPass_eq_ok_true_iff.mpr hpersisted
    | _ => exact Or.inl rfl
  | owner htransition =>
    cases htransition with
    | shutDown hphase hended =>
      have hworker := hworld.worker
      rw [hended] at hworker
      exact hworker.elim
    | _ => exact Or.inl rfl
  | worker htransition => cases htransition <;> exact Or.inl rfl

/-- The owner that waits for a thread that has failed is told the error. -/
theorem run_join (mode : PersistenceMode) (encode : T → ByteString) (world : World T ι)
    {threadResult : ThreadResult} {call : StopCall} {recordedBefore : ℕ} {error' : IoError}
    (hworker : world.worker = .terminated threadResult)
    (hresult : joinResult threadResult = .error error')
    (hjoining : world.owner = .joining call recordedBefore) :
    ∃ world', (persistence mode encode).run world [.owner .join] = some world' ∧
      world'.owner = .returned call (.error error') := by
  refine ⟨{ world with owner := .returned call (.error error') }, run_cons.mpr ⟨_, ?_, rfl⟩, rfl⟩
  show ownerStep world .join = _
  unfold ownerStep
  rw [hjoining]
  dsimp only
  rw [hworker]
  dsimp only
  rw [hresult]
  cases call <;> rfl

/-- The thread ends, and the owner that waits for it is told an error. -/
theorem HasFailed.joins (hworld : HasFailed error failed world) {call : StopCall}
    {recordedBefore : ℕ} (hjoining : world.owner = .joining call recordedBefore) :
    ∃ steps ≤ 2, ∃ world' error',
      (persistence mode encode).run world
        (List.replicate steps (.worker .succeeds) ++ [.owner .join]) = some world' ∧
      world'.owner = .returned call (.error error') := by
  have hworker := hworld.worker
  cases hphase : world.worker with
  | failing error' =>
    have hstored : workerStep mode encode world .succeeds =
        some { world with
          schedule := storeFailure error' world.schedule
          worker := .failureStored error' } := by
      unfold workerStep
      rw [hphase]
    obtain ⟨world', hrun, howner⟩ := run_join mode encode
      { world with
        schedule := storeFailure error' world.schedule
        worker := .terminated (.finished (.error error')) } rfl rfl hjoining
    exact ⟨2, le_refl 2, world', error',
      run_cons.mpr ⟨_, hstored, run_cons.mpr ⟨_, rfl, hrun⟩⟩, howner⟩
  | failureStored error' =>
    have hended : workerStep mode encode world .succeeds =
        some { world with worker := .terminated (.finished (.error error')) } := by
      unfold workerStep
      rw [hphase]
    obtain ⟨world', hrun, howner⟩ := run_join mode encode
      { world with worker := .terminated (.finished (.error error')) } rfl rfl hjoining
    exact ⟨1, one_le_two, world', error', run_cons.mpr ⟨_, hended, hrun⟩, howner⟩
  | terminated result =>
    rw [hphase] at hworker
    obtain ⟨error', hresult⟩ := joinResult_of_hasFailed hworker
    obtain ⟨world', hrun, howner⟩ := run_join mode encode world hphase hresult hjoining
    exact ⟨0, zero_le_two, world', error', hrun, howner⟩
  | _ =>
    rw [hphase] at hworker
    exact hworker.elim

end Steps

/-- What an error of the encoder or the writer means for the runs that go on from `failed`, the
world right after it. -/
structure FailureSticks [DecidableEq ι] (mode : PersistenceMode) (encode : T → ByteString)
    (error : IoError) (failed world : World T ι) : Prop where
  /-- The thread is in no phase from which it reads the epoch and encodes the state. -/
  takesNoSnapshot : world.worker ≠ .stateLocked ∧
    ∀ snapshotEpoch, world.worker ≠ .snapshotTaken snapshotEpoch
  /-- It is in no phase from which it calls the writer. -/
  writesNothing : ∀ bytes snapshotEpoch, world.worker ≠ .encoded bytes snapshotEpoch
  lastSnapshot : world.lastSnapshot = failed.lastSnapshot
  image : world.image = failed.image
  persistedEpoch : world.schedule.persistedEpoch = failed.schedule.persistedEpoch
  /-- The stored failure is the error, once it is stored. -/
  failure : world.schedule.failure = none ∨ world.schedule.failure = some (.capture error)
  failureStays : ∀ stored events world', world.schedule.failure = some stored →
    (persistence mode encode).run world events = some world' →
      world'.schedule.failure = some stored
  /-- A receipt of immediate mode or a flush returns `Ok` only within the persisted epoch. -/
  returnsOk : ∀ event target, ReturnsOk world event target →
    target ≤ failed.schedule.persistedEpoch
  acknowledges : ∀ event world', step mode encode world event = some world' →
    world'.acknowledged = world.acknowledged ∨ ∃ target, ReturnsOk world event target
  /-- A shutdown that has returned has returned an error. -/
  shutdown : ∀ call result, world.owner = .returned call result → ∃ error', result = .error error'
  /-- A shutdown that waits returns, at most two steps of the thread later. -/
  joins : ∀ call recordedBefore, world.owner = .joining call recordedBefore →
    ∃ steps ≤ 2, ∃ world' error',
      (persistence mode encode).run world
        (List.replicate steps (.worker .succeeds) ++ [.owner .join]) = some world' ∧
      world'.owner = .returned call (.error error')
  /-- With the failure stored every entry point returns it and leaves the schedule as it is, and a
  wait beyond the persisted epoch ends with it. -/
  refuses : world.schedule.failure ≠ none →
    (∀ now, (InPlace.recordMutation mode now).run world.schedule =
        (.error error, world.schedule)) ∧
      InPlace.flush.run world.schedule = (.error error, world.schedule) ∧
      InPlace.checkHealth.run world.schedule = (.error error, world.schedule) ∧
      ∀ target, failed.schedule.persistedEpoch < target →
        waitForEpochPass target world.schedule = .error error

section

variable [DecidableEq ι] {mode : PersistenceMode} {encode : T → ByteString} {error : IoError}
  {failed world : World T ι}

omit [DecidableEq ι] in
theorem HasFailed.refuses (hworld : HasFailed error failed world)
    (hstored : world.schedule.failure ≠ none) :
    (∀ now, (InPlace.recordMutation mode now).run world.schedule =
        (.error error, world.schedule)) ∧
      InPlace.flush.run world.schedule = (.error error, world.schedule) ∧
      InPlace.checkHealth.run world.schedule = (.error error, world.schedule) ∧
      ∀ target, failed.schedule.persistedEpoch < target →
        waitForEpochPass target world.schedule = .error error := by
  have hfailure : world.schedule.failure = some (.capture error) :=
    hworld.failure.resolve_left fun hfailing ↦ hstored hfailing.2
  have hcheck : checkFailure world.schedule = .error error := by
    rw [checkFailure, hfailure]
    rfl
  refine ⟨fun now ↦ ?_, ?_, ?_, fun target htarget ↦ ?_⟩
  · rw [InPlace.run_recordMutation, recordMutation, hcheck]
    rfl
  · rw [InPlace.run_flush, flush, hcheck]
    rfl
  · rw [InPlace.checkHealth, InPlace.run_bind, InPlace.run_get]
    show (checkFailure world.schedule, world.schedule) = _
    rw [hcheck]
  · rw [waitForEpochPass, if_pos (hworld.persistedEpoch ▸ htarget), hcheck]
    rfl

theorem HasFailed.sticks (hworld : HasFailed error failed world) :
    FailureSticks mode encode error failed world where
  takesNoSnapshot := by
    have hworker := hworld.worker
    constructor
    · intro hphase
      rw [hphase] at hworker
      exact hworker
    · intro snapshotEpoch hphase
      rw [hphase] at hworker
      exact hworker
  writesNothing := by
    intro bytes snapshotEpoch hphase
    have hworker := hworld.worker
    rw [hphase] at hworker
    exact hworker
  lastSnapshot := hworld.lastSnapshot
  image := hworld.image
  persistedEpoch := hworld.persistedEpoch
  failure := hworld.failure.imp_left And.right
  failureStays := by
    intro stored events world' hstored hrun
    have hfailure : world.schedule.failure = some (.capture error) :=
      hworld.failure.resolve_left fun hfailing ↦ nomatch hfailing.2.symm.trans hstored
    rw [← hstored, hfailure]
    exact (run_keeps (fun world ↦ HasFailed error failed world ∧
      world.schedule.failure = some (.capture error))
      (fun _ _ _ hkept hstep ↦ ⟨hkept.1.step hstep, hkept.1.failure_step hkept.2 hstep⟩)
      ⟨hworld, hfailure⟩ hrun).2
  returnsOk := fun event target hreturns ↦ hworld.persistedEpoch ▸ hreturns.target_le
  acknowledges := fun event world' hstep ↦ hworld.acknowledged_step hstep
  shutdown := hworld.owner
  joins := fun call recordedBefore hjoining ↦ hworld.joins hjoining
  refuses := hworld.refuses

end

/-- From the moment the encoder or the writer has returned an error, in every run: no snapshot is
taken and nothing is written, the persisted epoch and the stored failure stay, no flush and no
receipt of immediate mode beyond the persisted epoch returns `Ok`, a shutdown returns an error, and
with the failure stored the entry points return it and change nothing. -/
theorem failure_sticky {T ι : Type} [DecidableEq ι] (mode : PersistenceMode)
    (encode : T → ByteString) (error : IoError) (world failed world' : World T ι)
    (events : List (Event T ι)) (hreachable : (persistence mode encode).Reachable world)
    (hfailed : step mode encode world (.worker (.fails error)) = some failed)
    (hrun : (persistence mode encode).run failed events = some world') :
    FailureSticks mode encode error failed world' :=
  (run_keeps (HasFailed error failed) (fun _ _ _ hkept hstep ↦ hkept.step hstep)
    (hasFailed_of_step hreachable hfailed) hrun).sticks

/-- A mutation is recorded in immediate mode; its write fails, and one more mutation is recorded
before the failure is stored. -/
def failedRun : List (Event ℕ Bool) :=
  [.client true .lockState, .client true (.editState (· + 5)), .client true .recordMutation,
    .client true .unlockState, .client true (.callWait ⟨1, true⟩), .worker .succeeds,
    .worker .succeeds, .worker .succeeds, .worker .succeeds]

/-- What follows the failed write. -/
def afterwardsRun : List (Event ℕ Bool) :=
  [.client false .lockState, .client false .recordMutation, .worker .succeeds,
    .client true .pass, .client false .recordMutation]

/-- The mutation recorded in between is in the epoch and is never persisted. -/
theorem failure_sticky_failedRun :
    ∃ world failed world' : World ℕ Bool,
      (counter .immediate).run (.start 0 0) failedRun = some world ∧
      (counter .immediate).step world (.worker (.fails ⟨.other, "disk full"⟩)) = some failed ∧
      (counter .immediate).run failed afterwardsRun = some world' ∧
      world'.schedule.mutationEpoch = 2 ∧ world'.schedule.persistedEpoch = 0 ∧
      world'.schedule.failure = some ⟨.other, "disk full"⟩ ∧
      FailureSticks .immediate (fun state ↦ [UInt8.ofNat state]) ⟨.other, "disk full"⟩ failed
        world' := by
  have hfinal : (((counter .immediate).run (.start 0 0) failedRun).bind fun world ↦
      ((counter .immediate).step world (.worker (.fails ⟨.other, "disk full"⟩))).bind fun failed ↦
        ((counter .immediate).run failed afterwardsRun).map fun world' ↦
          (world'.schedule.mutationEpoch, world'.schedule.persistedEpoch,
            world'.schedule.failure)) = some (2, 0, some ⟨.other, "disk full"⟩) := rfl
  obtain ⟨world, hrun, hafterwards⟩ := Option.bind_eq_some_iff.mp hfinal
  obtain ⟨failed, hfailed, hrest⟩ := Option.bind_eq_some_iff.mp hafterwards
  obtain ⟨world', hrun', hschedule⟩ := Option.map_eq_some_iff.mp hrest
  obtain ⟨hmutation, hrest⟩ := Prod.mk.inj hschedule
  obtain ⟨hpersisted, hfailure⟩ := Prod.mk.inj hrest
  have hstart : (counter .immediate).Reachable (.start 0 0) := .start ⟨rfl, 0, 0, rfl⟩
  exact ⟨world, failed, world', hrun, hfailed, hrun', hmutation, hpersisted, hfailure,
    failure_sticky .immediate (fun state ↦ [UInt8.ofNat state]) ⟨.other, "disk full"⟩ world failed
      world' afterwardsRun (hstart.run hrun) hfailed hrun'⟩

end SoftwareKeyCore.StatePersistence
