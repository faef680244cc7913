import SoftwareKeyCore.Foundation.ByteString
import SoftwareKeyCore.Foundation.TransitionSystem
import SoftwareKeyCore.StatePersistence.Schedule

/-!
# The threads around a persisted state

A `StatePersistence` as a transition system. Its parties are clients with handles, any number of
them, the owner, who stops it once, and the persistence thread of `run_persistence`. A step is a
critical section of the schedule mutex, an operation on the state mutex, or a call of the encoder
or the writer, which may succeed, fail or panic each time. A thread that waits on the condition
variable may wake up at any moment, and the clock advances at any moment.

`World.history`, `World.lastSnapshot` and `World.acknowledged` are no part of the program: they
record what happened, for the statements about runs.
-/

set_option autoImplicit false
set_option relaxedAutoImplicit false

namespace SoftwareKeyCore.StatePersistence

variable {T ι : Type}

/-! ### What happened -/

/-- A mutation that was recorded: its receipt, how many edits the state had seen, the clock reading,
and whether the caller was handed the receipt. It was not when the call panicked after it had taken
the epoch. -/
structure RecordedMutation where
  receipt : MutationReceipt
  edits : ℕ
  time : ℕ
  handedOut : Bool
  deriving DecidableEq, Repr

/-- The edits of the state and the recorded mutations, in order. -/
structure History (T : Type) where
  initialState : T
  edits : List (T → T)
  recorded : List RecordedMutation

namespace History

/-- The state after the first edits. -/
def stateAfter (history : History T) (count : ℕ) : T :=
  (history.edits.take count).foldl (fun state edit ↦ edit state) history.initialState

/-- One more edit. -/
def withEdit (history : History T) (edit : T → T) : History T :=
  { history with edits := history.edits ++ [edit] }

/-- One more recorded mutation. -/
def withRecorded (history : History T) (receipt : MutationReceipt) (time : ℕ) (handedOut : Bool) :
    History T :=
  { history with
    recorded := history.recorded ++ [⟨receipt, history.edits.length, time, handedOut⟩] }

/-- The receipts that callers were handed. -/
def receipts (history : History T) : List MutationReceipt :=
  (history.recorded.filter RecordedMutation.handedOut).map RecordedMutation.receipt

end History

/-- A call that returned `Ok` and thereby promised durability. -/
inductive Acknowledgement
  | wait (receipt : MutationReceipt)
  | flush (recordedBefore : ℕ)
  | shutdown (recordedBefore : ℕ)
  deriving DecidableEq, Repr

/-- The epoch up to which the call promises durability. -/
def Acknowledgement.bound : Acknowledgement → ℕ
  | .wait receipt => receipt.mutationEpoch
  | .flush recordedBefore => recordedBefore
  | .shutdown recordedBefore => recordedBefore

/-! ### The parties -/

/-- Who may hold the state mutex. -/
inductive Thread (ι : Type)
  | client (client : ι)
  | worker
  deriving DecidableEq, Repr

/-- Where a client is. A call of `flush` remembers how many mutations were recorded before. -/
inductive ClientPhase
  | idle
  | flushCalled (recordedBefore : ℕ)
  | flushWaiting (recordedBefore target : ℕ)
  | receiptWaiting (receipt : MutationReceipt)
  deriving DecidableEq, Repr

/-- The two ways to stop a `StatePersistence`. -/
inductive StopCall
  | shutdown
  | drop
  deriving DecidableEq, Repr

/-- Where the owner is. -/
inductive OwnerPhase
  | running
  | stopCalled (call : StopCall) (recordedBefore : ℕ)
  | joining (call : StopCall) (recordedBefore : ℕ)
  | returned (call : StopCall) (result : Except IoError Unit)

/-- How the persistence thread ended. -/
inductive ThreadResult
  | finished (result : Except IoError Unit)
  | panicked

/-- Where the persistence thread is: in `wait_until_due`; after it returned `true`; holding the
state mutex; holding it with the snapshot epoch read; with the encoded snapshot, the state mutex
released; after the write; after `wait_until_due` returned `false`; after an error of
`run_persistence`; after that error was stored; at its end. -/
inductive WorkerPhase
  | waiting
  | due
  | stateLocked
  | snapshotTaken (snapshotEpoch : ℕ)
  | encoded (bytes : ByteString) (snapshotEpoch : ℕ)
  | written (snapshotEpoch : ℕ)
  | returning
  | failing (error : IoError)
  | failureStored (error : IoError)
  | terminated (result : ThreadResult)

/-- `StatePersistence::join` on the result of the thread. -/
def joinResult : ThreadResult → Except IoError Unit
  | .finished result => result
  | .panicked => .error ⟨.other, "state persistence thread panicked"⟩

/-- Everything the threads share, and where each of them is. -/
structure World (T ι : Type) where
  state : T
  holder : Option (Thread ι)
  schedule : ScheduleState
  now : ℕ
  clients : ι → ClientPhase
  owner : OwnerPhase
  worker : WorkerPhase
  image : Option ByteString
  history : History T
  lastSnapshot : ℕ
  acknowledged : List Acknowledgement

/-- `StatePersistence::start_with_writer`, once the mode is validated. -/
def World.start (state : T) (now : ℕ) : World T ι where
  state := state
  holder := none
  schedule := .default
  now := now
  clients := fun _ ↦ .idle
  owner := .running
  worker := .waiting
  image := none
  history := ⟨state, [], []⟩
  lastSnapshot := 0
  acknowledged := []

/-! ### Steps -/

/-- What a client does next. A pass is one pass of the loop it waits in. -/
inductive ClientAction (T : Type)
  | lockState
  | editState (edit : T → T)
  | recordMutation
  | unlockState
  | callFlush
  | enterFlush
  | callWait (receipt : MutationReceipt)
  | pass

/-- What the owner does next. -/
inductive OwnerAction
  | callStop (call : StopCall)
  | requestStop
  | join
  deriving DecidableEq, Repr

/-- How a call of the encoder, of the writer or of `on_failure` ends. -/
inductive Outcome
  | succeeds
  | fails (error : IoError)
  | panics
  deriving DecidableEq, Repr

/-- What happens next. -/
inductive Event (T ι : Type)
  | tick (elapsed : ℕ)
  | client (client : ι) (action : ClientAction T)
  | owner (action : OwnerAction)
  | worker (outcome : Outcome)

variable [DecidableEq ι] (mode : PersistenceMode) (encode : T → ByteString)

/-- The client moves on. -/
def World.setClient (world : World T ι) (client : ι) (phase : ClientPhase) : World T ι :=
  { world with clients := Function.update world.clients client phase }

/-- The client's call returns `Ok` and promises durability. -/
def World.acknowledge (world : World T ι) (acknowledgement : Acknowledgement) : World T ι :=
  { world with acknowledged := world.acknowledged ++ [acknowledgement] }

/-- The steps of a client. It edits the state and records mutations only while it holds the state
mutex; receipts may change hands, so it waits on any receipt that was handed out. When
`record_mutation` panics, the client is left with what was assigned and with the mutex, which it
gives back in its next step or, if it catches the panic, later. -/
def clientStep (world : World T ι) (client : ι) (action : ClientAction T) :
    Option (World T ι) :=
  match world.clients client, action with
  | .idle, .lockState =>
    if world.holder = none then some { world with holder := some (.client client) } else none
  | .idle, .editState edit =>
    if world.holder = some (.client client) then
      some { world with state := edit world.state, history := world.history.withEdit edit }
    else none
  | .idle, .recordMutation =>
    if world.holder = some (.client client) then
      match recordMutation mode world.now world.schedule with
      | .error _ => some world
      | .ok (some receipt, schedule) =>
        some { world with
          schedule := schedule
          history := world.history.withRecorded receipt world.now true }
      | .ok (none, schedule) =>
        some { world with
          schedule := schedule
          history := world.history.withRecorded ⟨schedule.mutationEpoch, mode = .immediate⟩
            world.now false }
    else none
  | .idle, .unlockState =>
    if world.holder = some (.client client) then some { world with holder := none } else none
  | .idle, .callFlush =>
    some (world.setClient client (.flushCalled world.history.recorded.length))
  | .flushCalled recordedBefore, .enterFlush =>
    match flush world.schedule with
    | .error _ => some (world.setClient client .idle)
    | .ok (none, schedule) =>
      some (({ world with schedule := schedule }.setClient client .idle).acknowledge
        (.flush recordedBefore))
    | .ok (some target, schedule) =>
      some ({ world with schedule := schedule }.setClient client
        (.flushWaiting recordedBefore target))
  | .flushWaiting recordedBefore target, .pass =>
    match waitForEpochPass target world.schedule with
    | .error _ => some (world.setClient client .idle)
    | .ok false => some world
    | .ok true => some ((world.setClient client .idle).acknowledge (.flush recordedBefore))
  | .idle, .callWait receipt =>
    if receipt ∈ world.history.receipts then
      some (world.setClient client (.receiptWaiting receipt))
    else none
  | .receiptWaiting receipt, .pass =>
    match receipt.waitPass world.schedule with
    | .error _ => some (world.setClient client .idle)
    | .ok false => some world
    | .ok true =>
      if receipt.waitForPersistence then
        some ((world.setClient client .idle).acknowledge (.wait receipt))
      else some (world.setClient client .idle)
  | _, _ => none

/-- The steps of the owner. -/
def ownerStep (world : World T ι) (action : OwnerAction) : Option (World T ι) :=
  match world.owner, action with
  | .running, .callStop call =>
    some { world with owner := .stopCalled call world.history.recorded.length }
  | .stopCalled call recordedBefore, .requestStop =>
    some { world with
      schedule := requestStop world.schedule
      owner := .joining call recordedBefore }
  | .joining call recordedBefore, .join =>
    match world.worker with
    | .terminated result =>
      match call, joinResult result with
      | .shutdown, .ok () =>
        some ({ world with owner := .returned call (.ok ()) }.acknowledge
          (.shutdown recordedBefore))
      | _, result => some { world with owner := .returned call result }
    | _ => none
  | _, _ => none

/-- The steps of the persistence thread. -/
def workerStep (world : World T ι) (outcome : Outcome) : Option (World T ι) :=
  match world.worker, outcome with
  | .waiting, .succeeds =>
    match waitUntilDuePass world.now world.schedule with
    | .error error => some { world with worker := .failing error }
    | .ok (.exit, schedule) => some { world with schedule := schedule, worker := .returning }
    | .ok (.due, schedule) => some { world with schedule := schedule, worker := .due }
    | .ok (.sleep _, schedule) => some { world with schedule := schedule }
  | .due, .succeeds =>
    if world.holder = none then
      some { world with holder := some .worker, worker := .stateLocked }
    else none
  | .stateLocked, .succeeds =>
    some { world with
      worker := .snapshotTaken world.schedule.mutationEpoch
      lastSnapshot := world.schedule.mutationEpoch }
  | .snapshotTaken snapshotEpoch, .succeeds =>
    some { world with holder := none, worker := .encoded (encode world.state) snapshotEpoch }
  | .snapshotTaken _, .fails error =>
    some { world with holder := none, worker := .failing error }
  | .snapshotTaken _, .panics =>
    some { world with holder := none, worker := .terminated .panicked }
  | .encoded bytes snapshotEpoch, .succeeds =>
    some { world with image := some bytes, worker := .written snapshotEpoch }
  | .encoded _ _, .fails error => some { world with worker := .failing error }
  | .encoded _ _, .panics => some { world with worker := .terminated .panicked }
  | .written snapshotEpoch, .succeeds =>
    match finishCycle mode world.now snapshotEpoch world.schedule with
    | (some (), schedule) => some { world with schedule := schedule, worker := .waiting }
    | (none, schedule) =>
      some { world with schedule := schedule, worker := .terminated .panicked }
  | .returning, .succeeds => some { world with worker := .terminated (.finished (.ok ())) }
  | .failing error, .succeeds =>
    some { world with
      schedule := storeFailure error world.schedule
      worker := .failureStored error }
  | .failureStored error, .succeeds =>
    some { world with worker := .terminated (.finished (.error error)) }
  | .failureStored _, .panics => some { world with worker := .terminated .panicked }
  | _, _ => none

/-- One step of one party, or of the clock. -/
def step (world : World T ι) : Event T ι → Option (World T ι)
  | .tick elapsed => some { world with now := world.now + elapsed }
  | .client client action => clientStep mode world client action
  | .owner action => ownerStep world action
  | .worker outcome => workerStep mode encode world outcome

/-- `StatePersistence` over a state, with its clients. -/
def persistence : TransitionSystem (World T ι) (Event T ι) where
  Initial := fun world ↦ mode.validate = .ok () ∧ ∃ state now, world = .start state now
  step := step mode encode

/-! ### What the steps do -/

/-- The steps a client can make, with what it found. -/
inductive ClientTransition (world : World T ι) (client : ι) :
    ClientAction T → World T ι → Prop
  | stateLocked (hfree : world.holder = none) :
    ClientTransition world client .lockState { world with holder := some (.client client) }
  | stateEdited (edit : T → T) (hholder : world.holder = some (.client client)) :
    ClientTransition world client (.editState edit)
      { world with state := edit world.state, history := world.history.withEdit edit }
  | recorded (hholder : world.holder = some (.client client))
      (hfailure : world.schedule.failure = none)
      (hepochs : world.schedule.mutationEpoch + 1 < 2 ^ 64) :
    ClientTransition world client .recordMutation
      { world with
        schedule := (world.schedule.withMutation mode world.now
          (world.schedule.mutationEpoch + 1)).2
        history := world.history.withRecorded
          ⟨world.schedule.mutationEpoch + 1, mode = .immediate⟩ world.now
          (world.schedule.withMutation mode world.now (world.schedule.mutationEpoch + 1)).1.isSome }
  | stateUnlocked (hholder : world.holder = some (.client client)) :
    ClientTransition world client .unlockState { world with holder := none }
  | unchanged {action : ClientAction T} : ClientTransition world client action world
  | flushCalled (hphase : world.clients client = .idle) :
    ClientTransition world client .callFlush
      (world.setClient client (.flushCalled world.history.recorded.length))
  | flushForced {recordedBefore : ℕ} (hphase : world.clients client = .flushCalled recordedBefore)
      (hfailure : world.schedule.failure = none)
      (hpending : world.schedule.persistedEpoch < world.schedule.mutationEpoch) :
    ClientTransition world client .enterFlush
      ({ world with schedule := { world.schedule with force := true } }.setClient client
        (.flushWaiting recordedBefore world.schedule.mutationEpoch))
  | waitCalled {receipt : MutationReceipt} (hphase : world.clients client = .idle)
      (hreceipt : receipt ∈ world.history.receipts) :
    ClientTransition world client (.callWait receipt)
      (world.setClient client (.receiptWaiting receipt))
  | returned {action : ClientAction T} :
    ClientTransition world client action (world.setClient client .idle)
  | flushUnneeded {recordedBefore : ℕ} (hphase : world.clients client = .flushCalled recordedBefore)
      (hfailure : world.schedule.failure = none)
      (hpersisted : world.schedule.mutationEpoch ≤ world.schedule.persistedEpoch) :
    ClientTransition world client .enterFlush
      ((world.setClient client .idle).acknowledge (.flush recordedBefore))
  | flushReached {recordedBefore target : ℕ}
      (hphase : world.clients client = .flushWaiting recordedBefore target)
      (hpersisted : target ≤ world.schedule.persistedEpoch) :
    ClientTransition world client .pass
      ((world.setClient client .idle).acknowledge (.flush recordedBefore))
  | waitReached {receipt : MutationReceipt}
      (hphase : world.clients client = .receiptWaiting receipt)
      (hwaits : receipt.waitForPersistence = true)
      (hpersisted : receipt.mutationEpoch ≤ world.schedule.persistedEpoch) :
    ClientTransition world client .pass ((world.setClient client .idle).acknowledge (.wait receipt))

/-- A client makes no other steps. -/
theorem clientTransition_of_step {world world' : World T ι} {client : ι}
    {action : ClientAction T} (hstep : clientStep mode world client action = some world') :
    ClientTransition mode world client action world' := by
  unfold clientStep at hstep
  split at hstep
  case h_1 =>
    obtain ⟨hfree, hworld⟩ := Option.ite_none_right_eq_some.mp hstep
    obtain rfl := Option.some.inj hworld
    exact .stateLocked hfree
  case h_2 edit _ =>
    obtain ⟨hholder, hworld⟩ := Option.ite_none_right_eq_some.mp hstep
    obtain rfl := Option.some.inj hworld
    exact .stateEdited edit hholder
  case h_3 =>
    obtain ⟨hholder, hworld⟩ := Option.ite_none_right_eq_some.mp hstep
    split at hworld
    · obtain rfl := Option.some.inj hworld
      exact .unchanged
    · next receipt schedule hrecord =>
      obtain rfl := Option.some.inj hworld
      obtain ⟨hfailure, hepochs, hreceipt, rfl⟩ := recordMutation_eq_ok_iff.mp hrecord
      obtain ⟨_, hscheduled, rfl⟩ := Option.map_eq_some_iff.mp hreceipt.symm
      have htransition : ClientTransition mode world client .recordMutation _ :=
        .recorded hholder hfailure hepochs
      rw [hscheduled] at htransition
      exact htransition
    · next schedule hrecord =>
      obtain rfl := Option.some.inj hworld
      obtain ⟨hfailure, hepochs, hreceipt, rfl⟩ := recordMutation_eq_ok_iff.mp hrecord
      have htransition : ClientTransition mode world client .recordMutation _ :=
        .recorded hholder hfailure hepochs
      rw [Option.map_eq_none_iff.mp hreceipt.symm] at htransition
      rw [withMutation_mutationEpoch]
      exact htransition
  case h_4 =>
    obtain ⟨hholder, hworld⟩ := Option.ite_none_right_eq_some.mp hstep
    obtain rfl := Option.some.inj hworld
    exact .stateUnlocked hholder
  case h_5 hphase =>
    obtain rfl := Option.some.inj hstep
    exact .flushCalled hphase
  case h_6 hphase =>
    split at hstep
    · obtain rfl := Option.some.inj hstep
      exact .returned
    · next schedule hflush =>
      obtain rfl := Option.some.inj hstep
      obtain ⟨hfailure, ⟨hpersisted, -, rfl⟩ | ⟨-, habsurd, -⟩⟩ := flush_eq_ok_iff.mp hflush
      · exact .flushUnneeded hphase hfailure hpersisted
      · cases habsurd
    · next target schedule hflush =>
      obtain rfl := Option.some.inj hstep
      obtain ⟨hfailure, ⟨-, habsurd, -⟩ | ⟨hpending, htarget, rfl⟩⟩ := flush_eq_ok_iff.mp hflush
      · cases habsurd
      · obtain rfl := Option.some.inj htarget
        exact .flushForced hphase hfailure hpending
  case h_7 hphase =>
    split at hstep
    · obtain rfl := Option.some.inj hstep
      exact .returned
    · obtain rfl := Option.some.inj hstep
      exact .unchanged
    · next hpass =>
      obtain rfl := Option.some.inj hstep
      exact .flushReached hphase (waitForEpochPass_eq_ok_true_iff.mp hpass)
  case h_8 receipt hphase =>
    obtain ⟨hreceipt, hworld⟩ := Option.ite_none_right_eq_some.mp hstep
    obtain rfl := Option.some.inj hworld
    exact .waitCalled hphase hreceipt
  case h_9 receipt hphase =>
    split at hstep
    · obtain rfl := Option.some.inj hstep
      exact .returned
    · obtain rfl := Option.some.inj hstep
      exact .unchanged
    · next hpass =>
      split_ifs at hstep with hwaits
      · obtain rfl := Option.some.inj hstep
        rw [MutationReceipt.waitPass, if_pos hwaits] at hpass
        exact .waitReached hphase hwaits (waitForEpochPass_eq_ok_true_iff.mp hpass)
      · obtain rfl := Option.some.inj hstep
        exact .returned
  case h_10 => cases hstep

/-- A record that is not refused takes the next epoch, whether it then panics or not. -/
theorem recorded_of_step {world world' : World T ι} {client : ι}
    (hfailure : world.schedule.failure = none)
    (hepochs : world.schedule.mutationEpoch + 1 < 2 ^ 64)
    (hstep : clientStep mode world client .recordMutation = some world') :
    world' = { world with
      schedule := (world.schedule.withMutation mode world.now
        (world.schedule.mutationEpoch + 1)).2
      history := world.history.withRecorded
        ⟨world.schedule.mutationEpoch + 1, mode = .immediate⟩ world.now
        (world.schedule.withMutation mode world.now
          (world.schedule.mutationEpoch + 1)).1.isSome } := by
  have hrecord : recordMutation mode world.now world.schedule = .ok
      ((world.schedule.withMutation mode world.now (world.schedule.mutationEpoch + 1)).1.map
          fun _ ↦ ⟨world.schedule.mutationEpoch + 1, mode = .immediate⟩,
        (world.schedule.withMutation mode world.now (world.schedule.mutationEpoch + 1)).2) :=
    recordMutation_eq_ok_iff.mpr ⟨hfailure, hepochs, rfl, rfl⟩
  unfold clientStep at hstep
  cases hphase : world.clients client with
  | idle =>
    rw [hphase] at hstep
    obtain ⟨-, hworld⟩ := Option.ite_none_right_eq_some.mp hstep
    rw [hrecord] at hworld
    cases hscheduled : (world.schedule.withMutation mode world.now
        (world.schedule.mutationEpoch + 1)).1 with
    | some _ =>
      rw [hscheduled] at hworld
      exact (Option.some.inj hworld).symm
    | none =>
      rw [hscheduled] at hworld
      obtain rfl := Option.some.inj hworld
      rw [withMutation_mutationEpoch]
      rfl
  | _ =>
    rw [hphase] at hstep
    cases hstep

/-- The steps the owner can make. -/
inductive OwnerTransition (world : World T ι) : World T ι → Prop
  | stopCalled (call : StopCall) (hphase : world.owner = .running) :
    OwnerTransition world { world with owner := .stopCalled call world.history.recorded.length }
  | stopRequested {call : StopCall} {recordedBefore : ℕ}
      (hphase : world.owner = .stopCalled call recordedBefore) :
    OwnerTransition world
      { world with
        schedule := requestStop world.schedule
        owner := .joining call recordedBefore }
  | joined {call : StopCall} {recordedBefore : ℕ} (result : Except IoError Unit)
      (hphase : world.owner = .joining call recordedBefore) :
    OwnerTransition world { world with owner := .returned call result }
  | shutDown {recordedBefore : ℕ} (hphase : world.owner = .joining .shutdown recordedBefore)
      (hworker : world.worker = .terminated (.finished (.ok ()))) :
    OwnerTransition world
      ({ world with owner := .returned .shutdown (.ok ()) }.acknowledge
        (.shutdown recordedBefore))

theorem joinResult_eq_ok {result : ThreadResult} (hresult : joinResult result = .ok ()) :
    result = .finished (.ok ()) := by
  cases result with
  | finished result =>
    rw [joinResult] at hresult
    rw [hresult]
  | panicked => cases hresult

omit [DecidableEq ι] in
/-- The owner makes no other steps. -/
theorem ownerTransition_of_step {world world' : World T ι} {action : OwnerAction}
    (hstep : ownerStep world action = some world') : OwnerTransition world world' := by
  unfold ownerStep at hstep
  split at hstep
  case h_1 call hphase =>
    obtain rfl := Option.some.inj hstep
    exact .stopCalled call hphase
  case h_2 hphase =>
    obtain rfl := Option.some.inj hstep
    exact .stopRequested hphase
  case h_3 hphase =>
    split at hstep
    · next result hworker =>
      split at hstep
      · next hresult =>
        obtain rfl := Option.some.inj hstep
        rw [joinResult_eq_ok hresult] at hworker
        exact .shutDown hphase hworker
      · obtain rfl := Option.some.inj hstep
        exact .joined _ hphase
    · cases hstep
  case h_4 => cases hstep

/-- The steps the persistence thread can make. -/
inductive WorkerTransition (world : World T ι) : World T ι → Prop
  | exited (hphase : world.worker = .waiting) (hfailure : world.schedule.failure = none)
      (hepochs : world.schedule.mutationEpoch = world.schedule.persistedEpoch)
      (hstopping : world.schedule.stopping = true) :
    WorkerTransition world { world with worker := .returning }
  | cameDue (hphase : world.worker = .waiting) (hfailure : world.schedule.failure = none)
      (hepochs : world.schedule.mutationEpoch ≠ world.schedule.persistedEpoch) :
    WorkerTransition world
      { world with
        schedule := { world.schedule with force := false, deadline := none }
        worker := .due }
  | slept (hphase : world.worker = .waiting) : WorkerTransition world world
  | sleptUnarmed (hphase : world.worker = .waiting)
      (hepochs : world.schedule.mutationEpoch = world.schedule.persistedEpoch) :
    WorkerTransition world
      { world with schedule := { world.schedule with force := false, deadline := none } }
  | stateLocked (hphase : world.worker = .due) (hfree : world.holder = none) :
    WorkerTransition world { world with holder := some .worker, worker := .stateLocked }
  | snapshotTaken (hphase : world.worker = .stateLocked) :
    WorkerTransition world
      { world with
        worker := .snapshotTaken world.schedule.mutationEpoch
        lastSnapshot := world.schedule.mutationEpoch }
  | encoded {snapshotEpoch : ℕ} (hphase : world.worker = .snapshotTaken snapshotEpoch) :
    WorkerTransition world
      { world with holder := none, worker := .encoded (encode world.state) snapshotEpoch }
  | encodeFailed {snapshotEpoch : ℕ} (hphase : world.worker = .snapshotTaken snapshotEpoch)
      (error : IoError) :
    WorkerTransition world { world with holder := none, worker := .failing error }
  | encodePanicked {snapshotEpoch : ℕ} (hphase : world.worker = .snapshotTaken snapshotEpoch) :
    WorkerTransition world { world with holder := none, worker := .terminated .panicked }
  | written {bytes : ByteString} {snapshotEpoch : ℕ}
      (hphase : world.worker = .encoded bytes snapshotEpoch) :
    WorkerTransition world { world with image := some bytes, worker := .written snapshotEpoch }
  | failed (error : IoError) (hphase : world.worker = .waiting ∨
      ∃ bytes snapshotEpoch, world.worker = .encoded bytes snapshotEpoch) :
    WorkerTransition world { world with worker := .failing error }
  | cycleFinished {snapshotEpoch : ℕ} (hphase : world.worker = .written snapshotEpoch) :
    WorkerTransition world
      { world with
        schedule := (finishCycle mode world.now snapshotEpoch world.schedule).2
        worker := .waiting }
  | cyclePanicked {snapshotEpoch : ℕ} (hphase : world.worker = .written snapshotEpoch)
      (hpanics : (finishCycle mode world.now snapshotEpoch world.schedule).1 = none) :
    WorkerTransition world
      { world with
        schedule := (finishCycle mode world.now snapshotEpoch world.schedule).2
        worker := .terminated .panicked }
  | returned (hphase : world.worker = .returning) :
    WorkerTransition world { world with worker := .terminated (.finished (.ok ())) }
  | failureStored {error : IoError} (hphase : world.worker = .failing error) :
    WorkerTransition world
      { world with
        schedule := storeFailure error world.schedule
        worker := .failureStored error }
  | failureReturned {error : IoError} (hphase : world.worker = .failureStored error) :
    WorkerTransition world { world with worker := .terminated (.finished (.error error)) }
  | panicked (hphase : (∃ bytes snapshotEpoch, world.worker = .encoded bytes snapshotEpoch) ∨
      ∃ error, world.worker = .failureStored error) :
    WorkerTransition world { world with worker := .terminated .panicked }

omit [DecidableEq ι] in
/-- The persistence thread makes no other steps. -/
theorem workerTransition_of_step {world world' : World T ι} {outcome : Outcome}
    (hstep : workerStep mode encode world outcome = some world') :
    WorkerTransition mode encode world world' := by
  unfold workerStep at hstep
  split at hstep
  case h_1 hphase =>
    split at hstep
    · obtain rfl := Option.some.inj hstep
      exact .failed _ (Or.inl hphase)
    · next hpass =>
      obtain rfl := Option.some.inj hstep
      obtain ⟨hfailure, ⟨-, hepochs, hstopping, rfl⟩ | ⟨habsurd, -⟩ | ⟨_, habsurd, -⟩⟩ :=
        waitUntilDuePass_eq_ok hpass
      · exact .exited hphase hfailure hepochs hstopping
      · cases habsurd
      · cases habsurd
    · next hpass =>
      obtain rfl := Option.some.inj hstep
      obtain ⟨hfailure, ⟨habsurd, -⟩ | ⟨-, hepochs, rfl⟩ | ⟨_, habsurd, -⟩⟩ :=
        waitUntilDuePass_eq_ok hpass
      · cases habsurd
      · exact .cameDue hphase hfailure hepochs
      · cases habsurd
    · next hpass =>
      obtain rfl := Option.some.inj hstep
      obtain ⟨hfailure, ⟨habsurd, -⟩ | ⟨habsurd, -⟩ | ⟨_, -, rfl | ⟨hepochs, rfl⟩⟩⟩ :=
        waitUntilDuePass_eq_ok hpass
      · cases habsurd
      · cases habsurd
      · exact .slept hphase
      · exact .sleptUnarmed hphase hepochs
  case h_2 hphase =>
    obtain ⟨hfree, hworld⟩ := Option.ite_none_right_eq_some.mp hstep
    obtain rfl := Option.some.inj hworld
    exact .stateLocked hphase hfree
  case h_3 hphase =>
    obtain rfl := Option.some.inj hstep
    exact .snapshotTaken hphase
  case h_4 hphase =>
    obtain rfl := Option.some.inj hstep
    exact .encoded hphase
  case h_5 hphase =>
    obtain rfl := Option.some.inj hstep
    exact .encodeFailed hphase _
  case h_6 hphase =>
    obtain rfl := Option.some.inj hstep
    exact .encodePanicked hphase
  case h_7 hphase =>
    obtain rfl := Option.some.inj hstep
    exact .written hphase
  case h_8 hphase =>
    obtain rfl := Option.some.inj hstep
    exact .failed _ (Or.inr ⟨_, _, hphase⟩)
  case h_9 hphase =>
    obtain rfl := Option.some.inj hstep
    exact .panicked (Or.inl ⟨_, _, hphase⟩)
  case h_10 hphase =>
    split at hstep
    · next schedule hcycle =>
      obtain rfl := Option.some.inj hstep
      have htransition : WorkerTransition mode encode world _ := .cycleFinished hphase
      rw [hcycle] at htransition
      exact htransition
    · next schedule hcycle =>
      obtain rfl := Option.some.inj hstep
      have htransition : WorkerTransition mode encode world _ :=
        .cyclePanicked hphase (by rw [hcycle])
      rw [hcycle] at htransition
      exact htransition
  case h_11 hphase =>
    obtain rfl := Option.some.inj hstep
    exact .returned hphase
  case h_12 hphase =>
    obtain rfl := Option.some.inj hstep
    exact .failureStored hphase
  case h_13 hphase =>
    obtain rfl := Option.some.inj hstep
    exact .failureReturned hphase
  case h_14 hphase =>
    obtain rfl := Option.some.inj hstep
    exact .panicked (Or.inr ⟨_, hphase⟩)
  case h_15 => cases hstep

omit [DecidableEq ι] in
/-- A thread that has ended makes no step. -/
theorem WorkerTransition.not_terminated {mode : PersistenceMode} {encode : T → ByteString}
    {world world' : World T ι} (htransition : WorkerTransition mode encode world world') :
    ∀ result, world.worker ≠ .terminated result := by
  intro result hended
  cases htransition with
  | failed error hphase =>
    rcases hphase with hphase | ⟨bytes, snapshotEpoch, hphase⟩ <;>
      exact nomatch hended.symm.trans hphase
  | panicked hphase =>
    rcases hphase with ⟨bytes, snapshotEpoch, hphase⟩ | ⟨error, hphase⟩ <;>
      exact nomatch hended.symm.trans hphase
  | exited hphase | cameDue hphase | slept hphase | sleptUnarmed hphase | stateLocked hphase
  | snapshotTaken hphase | encoded hphase | encodeFailed hphase | encodePanicked hphase
  | written hphase | cycleFinished hphase | cyclePanicked hphase | returned hphase
  | failureStored hphase | failureReturned hphase => exact nomatch hended.symm.trans hphase

/-- The steps of the system. -/
inductive Transition (world : World T ι) : Event T ι → World T ι → Prop
  | tick (elapsed : ℕ) : Transition world (.tick elapsed) { world with now := world.now + elapsed }
  | client {world' : World T ι} (client : ι) {action : ClientAction T}
      (htransition : ClientTransition mode world client action world') :
    Transition world (.client client action) world'
  | owner {world' : World T ι} {action : OwnerAction}
      (htransition : OwnerTransition world world') : Transition world (.owner action) world'
  | worker {world' : World T ι} {outcome : Outcome}
      (htransition : WorkerTransition mode encode world world') :
    Transition world (.worker outcome) world'

theorem transition_of_step {world world' : World T ι} {event : Event T ι}
    (hstep : step mode encode world event = some world') :
    Transition mode encode world event world' := by
  cases event with
  | tick elapsed =>
    obtain rfl := Option.some.inj hstep
    exact .tick elapsed
  | client client action => exact .client client (clientTransition_of_step mode hstep)
  | owner action => exact .owner (ownerTransition_of_step hstep)
  | worker outcome => exact .worker (workerTransition_of_step mode encode hstep)

end SoftwareKeyCore.StatePersistence
