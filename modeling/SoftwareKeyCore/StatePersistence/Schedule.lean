import SoftwareKeyCore.Foundation.FallibleResult

/-!
# The schedule of durable mutations

`ScheduleState` of `state_persistence.rs` and the critical sections of its mutex, as functions of
the state they find and of the clock reading they make. A loop around a condition variable is
given by what one pass through its body decides: `waitForEpochPass` and `waitUntilDuePass` are
made under the lock after each wakeup, a spurious one included.

Each section has a lemma that says when it succeeds and what it changes then. A section that
returns an error changes nothing. A section that panics keeps what it has assigned by then, since
`lock` takes a poisoned mutex: it is given by that state and no result. The one operation that
panics is `Instant::now() + delay`, in `armDeadline`.
-/

set_option autoImplicit false
set_option relaxedAutoImplicit false

namespace SoftwareKeyCore.StatePersistence

open FallibleResult

/-- `io::ErrorKind`, as far as the code names its members. -/
inductive ErrorKind
  | invalidInput
  | other
  | unnamed (code : ℕ)
  deriving DecidableEq, Repr

/-- `io::Error`. -/
structure IoError where
  kind : ErrorKind
  message : String
  deriving DecidableEq, Repr

/-- `StoredError`. -/
structure StoredError where
  kind : ErrorKind
  message : String
  deriving DecidableEq, Repr

/-- `StoredError::capture`. -/
def StoredError.capture (error : IoError) : StoredError :=
  ⟨error.kind, error.message⟩

/-- `StoredError::to_io_error`. -/
def StoredError.toIoError (error : StoredError) : IoError :=
  ⟨error.kind, error.message⟩

@[simp] theorem StoredError.toIoError_capture (error : IoError) :
    (StoredError.capture error).toIoError = error := rfl

/-- `PersistenceMode`. A duration is a number of nanoseconds. -/
inductive PersistenceMode
  | batched (delay : ℕ)
  | immediate
  deriving DecidableEq, Repr

/-- `PersistenceMode::validate`. -/
def PersistenceMode.validate : PersistenceMode → Except IoError Unit
  | .batched delay =>
    if delay = 0 then .error ⟨.invalidInput, "persistence batching delay must be nonzero"⟩
    else .ok ()
  | .immediate => .ok ()

/-- `ScheduleState`. Epochs are `u64` values, instants are numbers of nanoseconds. -/
structure ScheduleState where
  mutationEpoch : ℕ
  persistedEpoch : ℕ
  deadline : Option ℕ
  force : Bool
  stopping : Bool
  failure : Option StoredError
  deriving DecidableEq, Repr

/-- `ScheduleState::default`. -/
def ScheduleState.default : ScheduleState :=
  ⟨0, 0, none, false, false, none⟩

/-- `MutationReceipt`. -/
structure MutationReceipt where
  mutationEpoch : ℕ
  waitForPersistence : Bool
  deriving DecidableEq, Repr

/-- `u64::checked_add(1)`. -/
def checkedSucc (epoch : ℕ) : Option ℕ :=
  if epoch + 1 < 2 ^ 64 then some (epoch + 1) else none

/-- `check_failure`. -/
def checkFailure (schedule : ScheduleState) : Except IoError Unit :=
  match schedule.failure with
  | some error => .error error.toIoError
  | none => .ok ()

theorem checkFailure_eq_ok_iff {schedule : ScheduleState} {value : Unit} :
    checkFailure schedule = .ok value ↔ schedule.failure = none := by
  rw [checkFailure]
  cases schedule.failure <;> simp

/-! ### Deadlines -/

/-- `Instant::checked_add`: the seconds of an instant are an `i64`. -/
def instantAdd (now delay : ℕ) : Option ℕ :=
  if now + delay < 2 ^ 63 * 10 ^ 9 then some (now + delay) else none

/-- `schedule.deadline = Some(Instant::now() + delay)`. The sum panics when it is no instant, and
then the deadline is not assigned. -/
def armDeadline (now delay : ℕ) (schedule : ScheduleState) : Option Unit × ScheduleState :=
  match instantAdd now delay with
  | some deadline => (some (), { schedule with deadline := some deadline })
  | none => (none, schedule)

theorem instantAdd_eq_some_iff {now delay deadline : ℕ} :
    instantAdd now delay = some deadline ↔
      now + delay < 2 ^ 63 * 10 ^ 9 ∧ deadline = now + delay := by
  rw [instantAdd, Option.ite_none_right_eq_some, Option.some.injEq, eq_comm (a := deadline)]

/-- A sum that is no instant stays none while the clock goes on. -/
theorem instantAdd_eq_none_mono {now now' delay : ℕ} (hnow : now ≤ now')
    (hnone : instantAdd now delay = none) : instantAdd now' delay = none := by
  unfold instantAdd at hnone ⊢
  rw [ite_eq_right_iff] at hnone ⊢
  exact fun hlt ↦ absurd (hnone ((Nat.add_le_add_right hnow delay).trans_lt hlt))
    (Option.some_ne_none _)

/-- Beside the deadline nothing is assigned. -/
theorem armDeadline_eq (now delay : ℕ) (schedule : ScheduleState) :
    armDeadline now delay schedule = ((instantAdd now delay).map fun _ ↦ (),
      { schedule with deadline := instantAdd now delay <|> schedule.deadline }) := by
  unfold armDeadline
  cases instantAdd now delay <;> rfl

/-! ### Sections of the clients -/

/-- The epoch of a new mutation and the deadline or the flag that schedules it. -/
def ScheduleState.withMutation (mode : PersistenceMode) (now epoch : ℕ)
    (schedule : ScheduleState) : Option Unit × ScheduleState :=
  let schedule := { schedule with mutationEpoch := epoch }
  match mode with
  | .batched delay =>
    if schedule.deadline.isNone then armDeadline now delay schedule else (some (), schedule)
  | .immediate => (some (), { schedule with force := true })

/-- `StatePersistenceHandle::record_mutation`. Without a receipt it has panicked. -/
def recordMutation (mode : PersistenceMode) (now : ℕ) (schedule : ScheduleState) :
    Except IoError (Option MutationReceipt × ScheduleState) := do
  checkFailure schedule
  let mutationEpoch ← orError ⟨.other, "persistence mutation epoch exhausted"⟩
    (checkedSucc schedule.mutationEpoch)
  let (scheduled, schedule) := schedule.withMutation mode now mutationEpoch
  pure (scheduled.map fun _ ↦ ⟨mutationEpoch, mode = .immediate⟩, schedule)

/-- A mutation takes its epoch when no failure is stored and epochs are left; it has a receipt when
it is scheduled. -/
theorem recordMutation_eq_ok_iff {mode : PersistenceMode} {now : ℕ}
    {schedule schedule' : ScheduleState} {receipt : Option MutationReceipt} :
    recordMutation mode now schedule = .ok (receipt, schedule') ↔
      schedule.failure = none ∧ schedule.mutationEpoch + 1 < 2 ^ 64 ∧
        receipt = (schedule.withMutation mode now (schedule.mutationEpoch + 1)).1.map
          (fun _ ↦ ⟨schedule.mutationEpoch + 1, mode = .immediate⟩) ∧
        schedule' = (schedule.withMutation mode now (schedule.mutationEpoch + 1)).2 := by
  rw [recordMutation, bind_eq_ok_iff]
  simp only [bind_eq_ok_iff, orError_eq_ok_iff, pure_eq_ok_iff, checkFailure_eq_ok_iff,
    checkedSucc, Option.ite_none_right_eq_some, Option.some.injEq, Prod.mk.injEq]
  constructor
  · rintro ⟨_, hfailure, epoch, ⟨hepoch, rfl⟩, hreceipt, hschedule⟩
    exact ⟨hfailure, hepoch, hreceipt.symm, hschedule.symm⟩
  · rintro ⟨hfailure, hepoch, hreceipt, hschedule⟩
    exact ⟨(), hfailure, _, ⟨hepoch, rfl⟩, hreceipt.symm, hschedule.symm⟩

section WithMutation

variable (mode : PersistenceMode) (now epoch : ℕ) (schedule : ScheduleState)

/-- Beside the epoch only the deadline and the flag change. -/
theorem withMutation_eq : ∃ deadline force, (schedule.withMutation mode now epoch).2 =
    { schedule with mutationEpoch := epoch, deadline := deadline, force := force } := by
  unfold ScheduleState.withMutation
  cases mode with
  | batched delay =>
    dsimp only
    split_ifs
    · rw [armDeadline_eq]
      exact ⟨_, _, rfl⟩
    · exact ⟨_, _, rfl⟩
  | immediate => exact ⟨_, _, rfl⟩

@[simp] theorem withMutation_mutationEpoch :
    (schedule.withMutation mode now epoch).2.mutationEpoch = epoch := by
  obtain ⟨deadline, force, hmutation⟩ := withMutation_eq mode now epoch schedule
  rw [hmutation]

@[simp] theorem withMutation_persistedEpoch :
    (schedule.withMutation mode now epoch).2.persistedEpoch = schedule.persistedEpoch := by
  obtain ⟨deadline, force, hmutation⟩ := withMutation_eq mode now epoch schedule
  rw [hmutation]

@[simp] theorem withMutation_stopping :
    (schedule.withMutation mode now epoch).2.stopping = schedule.stopping := by
  obtain ⟨deadline, force, hmutation⟩ := withMutation_eq mode now epoch schedule
  rw [hmutation]

@[simp] theorem withMutation_failure :
    (schedule.withMutation mode now epoch).2.failure = schedule.failure := by
  obtain ⟨deadline, force, hmutation⟩ := withMutation_eq mode now epoch schedule
  rw [hmutation]

/-- With a deadline armed only the epoch changes. -/
theorem withMutation_batched_of_some {delay deadline : ℕ}
    (hdeadline : schedule.deadline = some deadline) :
    schedule.withMutation (.batched delay) now epoch =
      (some (), { schedule with mutationEpoch := epoch }) := by
  unfold ScheduleState.withMutation
  dsimp only
  rw [hdeadline]
  rfl

/-- Otherwise the deadline is one delay from now, if that is an instant. -/
theorem withMutation_batched_of_none {delay : ℕ} (hdeadline : schedule.deadline = none) :
    schedule.withMutation (.batched delay) now epoch = ((instantAdd now delay).map fun _ ↦ (),
      { schedule with mutationEpoch := epoch, deadline := instantAdd now delay }) := by
  unfold ScheduleState.withMutation
  dsimp only
  rw [hdeadline, Option.isNone_none, if_pos rfl, armDeadline_eq]
  cases instantAdd now delay <;> rfl

end WithMutation

/-- The first section of `StatePersistenceHandle::flush`: it returns at once, or it waits for a
target. -/
def flush (schedule : ScheduleState) : Except IoError (Option ℕ × ScheduleState) := do
  checkFailure schedule
  let target := schedule.mutationEpoch
  if target ≤ schedule.persistedEpoch then pure (none, schedule)
  else pure (some target, { schedule with force := true })

/-- A flush asks for a write unless every mutation is persisted. -/
theorem flush_eq_ok_iff {schedule schedule' : ScheduleState} {target? : Option ℕ} :
    flush schedule = .ok (target?, schedule') ↔ schedule.failure = none ∧
      ((schedule.mutationEpoch ≤ schedule.persistedEpoch ∧ target? = none ∧
          schedule' = schedule) ∨
        (schedule.persistedEpoch < schedule.mutationEpoch ∧
          target? = some schedule.mutationEpoch ∧
          schedule' = { schedule with force := true })) := by
  rw [flush, bind_eq_ok_iff]
  simp only [checkFailure_eq_ok_iff, exists_const, eq_comm (a := schedule'),
    eq_comm (a := target?)]
  apply and_congr_right
  intro _
  split_ifs with hpersisted
  · simp [pure_eq_ok_iff, hpersisted]
  · simp [pure_eq_ok_iff, hpersisted, not_le.mp hpersisted]

/-- One pass of `wait_for_epoch`: whether the target is reached. -/
def waitForEpochPass (target : ℕ) (schedule : ScheduleState) : Except IoError Bool :=
  if schedule.persistedEpoch < target then (checkFailure schedule).map fun _ ↦ false
  else .ok true

/-- A wait ends well only when the target is persisted. -/
theorem waitForEpochPass_eq_ok_true_iff {target : ℕ} {schedule : ScheduleState} :
    waitForEpochPass target schedule = .ok true ↔ target ≤ schedule.persistedEpoch := by
  rw [waitForEpochPass]
  split_ifs with hpersisted
  · simp [map_eq_ok_iff, hpersisted]
  · simp [not_lt.mp hpersisted]

/-- One pass of `MutationReceipt::wait`: whether it returns. -/
def MutationReceipt.waitPass (receipt : MutationReceipt) (schedule : ScheduleState) :
    Except IoError Bool :=
  if receipt.waitForPersistence then waitForEpochPass receipt.mutationEpoch schedule
  else (checkFailure schedule).map fun _ ↦ true

/-! ### Section of the owner -/

/-- `StatePersistence::request_stop`. -/
def requestStop (schedule : ScheduleState) : ScheduleState :=
  { schedule with stopping := true, force := true }

/-! ### Sections of the persistence thread -/

/-- What a pass of `wait_until_due` decides: to return `false`, to return `true`, or to sleep, at
most for a timeout. -/
inductive DuePass
  | exit
  | due
  | sleep (timeout : Option ℕ)
  deriving DecidableEq, Repr

/-- One pass of `wait_until_due`. -/
def waitUntilDuePass (now : ℕ) (schedule : ScheduleState) :
    Except IoError (DuePass × ScheduleState) := do
  checkFailure schedule
  if schedule.mutationEpoch = schedule.persistedEpoch then
    if schedule.stopping then pure (.exit, schedule)
    else pure (.sleep none, { schedule with force := false, deadline := none })
  else if schedule.force ∨ schedule.stopping ∨ schedule.deadline.any (· ≤ now) then
    pure (.due, { schedule with force := false, deadline := none })
  else pure (.sleep (schedule.deadline.map (· - now)), schedule)

/-- What a pass of `wait_until_due` finds and changes. -/
theorem waitUntilDuePass_eq_ok {now : ℕ} {schedule schedule' : ScheduleState} {pass : DuePass}
    (hpass : waitUntilDuePass now schedule = .ok (pass, schedule')) :
    schedule.failure = none ∧
      ((pass = .exit ∧ schedule.mutationEpoch = schedule.persistedEpoch ∧
          schedule.stopping = true ∧ schedule' = schedule) ∨
        (pass = .due ∧ schedule.mutationEpoch ≠ schedule.persistedEpoch ∧
          schedule' = { schedule with force := false, deadline := none }) ∨
        (∃ timeout, pass = .sleep timeout ∧
          (schedule' = schedule ∨ schedule.mutationEpoch = schedule.persistedEpoch ∧
            schedule' = { schedule with force := false, deadline := none }))) := by
  rw [waitUntilDuePass, bind_eq_ok_iff] at hpass
  obtain ⟨_, hfailure, hrest⟩ := hpass
  refine ⟨checkFailure_eq_ok_iff.mp hfailure, ?_⟩
  split_ifs at hrest with hepochs hstopping hdue
  · obtain ⟨rfl, rfl⟩ := Prod.mk.inj (pure_eq_ok_iff.mp hrest)
    exact Or.inl ⟨rfl, hepochs, hstopping, rfl⟩
  · obtain ⟨rfl, rfl⟩ := Prod.mk.inj (pure_eq_ok_iff.mp hrest)
    exact Or.inr (Or.inr ⟨none, rfl, Or.inr ⟨hepochs, rfl⟩⟩)
  · obtain ⟨rfl, rfl⟩ := Prod.mk.inj (pure_eq_ok_iff.mp hrest)
    exact Or.inr (Or.inl ⟨rfl, hepochs, rfl⟩)
  · obtain ⟨rfl, rfl⟩ := Prod.mk.inj (pure_eq_ok_iff.mp hrest)
    exact Or.inr (Or.inr ⟨_, rfl, Or.inl rfl⟩)

/-- The section of `run_persistence` after a write. Without a result it has panicked. -/
def finishCycle (mode : PersistenceMode) (now snapshotEpoch : ℕ) (schedule : ScheduleState) :
    Option Unit × ScheduleState :=
  let schedule := { schedule with persistedEpoch := snapshotEpoch }
  if schedule.mutationEpoch = snapshotEpoch then (some (), { schedule with deadline := none })
  else if schedule.deadline.isNone then
    match mode with
    | .batched delay => armDeadline now delay schedule
    | .immediate => (some (), { schedule with deadline := none, force := true })
  else (some (), schedule)

section FinishCycle

variable (mode : PersistenceMode) (now snapshotEpoch : ℕ) (schedule : ScheduleState)

/-- Beside the persisted epoch only the deadline and the flag change. -/
theorem finishCycle_eq : ∃ deadline force, (finishCycle mode now snapshotEpoch schedule).2 =
    { schedule with persistedEpoch := snapshotEpoch, deadline := deadline, force := force } := by
  unfold finishCycle
  dsimp only
  split_ifs
  · exact ⟨_, _, rfl⟩
  · cases mode with
    | batched delay =>
      dsimp only
      rw [armDeadline_eq]
      exact ⟨_, _, rfl⟩
    | immediate => exact ⟨_, _, rfl⟩
  · exact ⟨_, _, rfl⟩

@[simp] theorem finishCycle_mutationEpoch :
    (finishCycle mode now snapshotEpoch schedule).2.mutationEpoch = schedule.mutationEpoch := by
  obtain ⟨deadline, force, hcycle⟩ := finishCycle_eq mode now snapshotEpoch schedule
  rw [hcycle]

@[simp] theorem finishCycle_persistedEpoch :
    (finishCycle mode now snapshotEpoch schedule).2.persistedEpoch = snapshotEpoch := by
  obtain ⟨deadline, force, hcycle⟩ := finishCycle_eq mode now snapshotEpoch schedule
  rw [hcycle]

@[simp] theorem finishCycle_stopping :
    (finishCycle mode now snapshotEpoch schedule).2.stopping = schedule.stopping := by
  obtain ⟨deadline, force, hcycle⟩ := finishCycle_eq mode now snapshotEpoch schedule
  rw [hcycle]

@[simp] theorem finishCycle_failure :
    (finishCycle mode now snapshotEpoch schedule).2.failure = schedule.failure := by
  obtain ⟨deadline, force, hcycle⟩ := finishCycle_eq mode now snapshotEpoch schedule
  rw [hcycle]

/-- A write of the present epoch disarms the deadline. -/
theorem finishCycle_deadline_of_eq (hepochs : schedule.mutationEpoch = snapshotEpoch) :
    (finishCycle mode now snapshotEpoch schedule).2.deadline = none := by
  unfold finishCycle
  dsimp only
  rw [if_pos hepochs]

/-- With later mutations an armed deadline stays. -/
theorem finishCycle_deadline_of_some {deadline : ℕ}
    (hepochs : schedule.mutationEpoch ≠ snapshotEpoch)
    (hdeadline : schedule.deadline = some deadline) :
    (finishCycle mode now snapshotEpoch schedule).2.deadline = some deadline := by
  unfold finishCycle
  dsimp only
  rw [if_neg hepochs, hdeadline]
  rfl

/-- A deadline that is armed after a write was armed before, or is one delay from now. -/
theorem finishCycle_deadline_eq_some {deadline : ℕ}
    (hdeadline : (finishCycle mode now snapshotEpoch schedule).2.deadline = some deadline) :
    schedule.deadline = some deadline ∨
      ∃ delay, mode = .batched delay ∧ instantAdd now delay = some deadline := by
  unfold finishCycle at hdeadline
  dsimp only at hdeadline
  split_ifs at hdeadline with hepochs hnone
  · cases mode with
    | batched delay =>
      rw [Option.isNone_iff_eq_none] at hnone
      dsimp only at hdeadline
      rw [armDeadline_eq, hnone] at hdeadline
      cases hsum : instantAdd now delay with
      | none =>
        rw [hsum] at hdeadline
        exact nomatch hdeadline
      | some sum =>
        rw [hsum] at hdeadline
        exact Or.inr ⟨delay, rfl, hsum.trans hdeadline⟩
    | immediate => cases hdeadline
  · exact Or.inl hdeadline

/-- The flag is not cleared after a write. -/
theorem finishCycle_force (hforce : schedule.force = true) :
    (finishCycle mode now snapshotEpoch schedule).2.force = true := by
  unfold finishCycle
  dsimp only
  split_ifs
  · exact hforce
  · cases mode with
    | batched delay =>
      dsimp only
      rw [armDeadline_eq]
      exact hforce
    | immediate => rfl
  · exact hforce

/-- The section panics only when it writes an older epoch in the batched mode and no deadline is
armed, and then it assigns the persisted epoch and nothing else. -/
theorem finishCycle_eq_none (hpanics : (finishCycle mode now snapshotEpoch schedule).1 = none) :
    schedule.mutationEpoch ≠ snapshotEpoch ∧
      ∃ delay, mode = .batched delay ∧ schedule.deadline = none ∧ instantAdd now delay = none ∧
        (finishCycle mode now snapshotEpoch schedule).2 =
          { schedule with persistedEpoch := snapshotEpoch } := by
  unfold finishCycle at hpanics ⊢
  dsimp only at hpanics ⊢
  split_ifs at hpanics ⊢ with hepochs hnone
  cases mode with
  | batched delay =>
    rw [Option.isNone_iff_eq_none] at hnone
    dsimp only at hpanics ⊢
    rw [armDeadline_eq] at hpanics ⊢
    have hsum := Option.map_eq_none_iff.mp hpanics
    refine ⟨hepochs, delay, rfl, hnone, hsum, ?_⟩
    rw [hsum]
    rfl
  | immediate => exact nomatch hpanics

end FinishCycle

/-- The section of the persistence thread after a failure of `run_persistence`. -/
def storeFailure (error : IoError) (schedule : ScheduleState) : ScheduleState :=
  { schedule with failure := some (.capture error) }

end SoftwareKeyCore.StatePersistence
