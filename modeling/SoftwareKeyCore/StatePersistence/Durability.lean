import SoftwareKeyCore.Foundation.DurableLog
import SoftwareKeyCore.StatePersistence.Threads

/-!
# Durability of acknowledgements

In every reachable world the epochs handed out are consecutive, and the image of the last
successful write is the encoding of a state that contains every mutation up to the persisted
epoch. `Coherent` is the invariant that carries this over the persistence cycle: it relates the
snapshot in flight, the image and the epochs in each phase of the persistence thread.

Seen from outside the component is a durable log (`durableLog`): recording appends, the end of a
cycle persists, and a call that returns `Ok` acknowledges. With the invariant this gives
`acknowledgements_durable`: whatever was acknowledged is contained in the image.
-/

set_option autoImplicit false
set_option relaxedAutoImplicit false

namespace SoftwareKeyCore.StatePersistence

variable {T ι : Type} (encode : T → ByteString)

/-! ### What a snapshot contains -/

namespace History

variable (history : History T)

/-- The bytes encode a state that contains every mutation up to the epoch. -/
def Covers (bytes : ByteString) (epoch : ℕ) : Prop :=
  ∃ count ≤ history.edits.length, bytes = encode (history.stateAfter count) ∧
    ∀ mutation ∈ history.recorded, mutation.receipt.mutationEpoch ≤ epoch →
      mutation.edits ≤ count

/-- The last written image contains every mutation up to the epoch; without an image there is no
such mutation. -/
def ImageCovers (image : Option ByteString) (epoch : ℕ) : Prop :=
  match image with
  | some bytes => history.Covers encode bytes epoch
  | none => ∀ mutation ∈ history.recorded, epoch < mutation.receipt.mutationEpoch

/-- The epochs of the recorded mutations are 1, 2, and so on, and each was recorded after edits
that happened. -/
structure Wellformed (mutationEpoch : ℕ) : Prop where
  epochs : history.recorded.map (fun mutation ↦ mutation.receipt.mutationEpoch) =
    List.range' 1 mutationEpoch
  edits_le : ∀ mutation ∈ history.recorded, mutation.edits ≤ history.edits.length

variable {encode} {history}

theorem Covers.mono {bytes : ByteString} {epoch epoch' : ℕ} (hepoch : epoch' ≤ epoch)
    (hcovers : history.Covers encode bytes epoch) : history.Covers encode bytes epoch' := by
  obtain ⟨count, hcount, hbytes, hall⟩ := hcovers
  exact ⟨count, hcount, hbytes, fun mutation hmem hle ↦ hall mutation hmem (hle.trans hepoch)⟩

theorem ImageCovers.mono {image : Option ByteString} {epoch epoch' : ℕ} (hepoch : epoch' ≤ epoch)
    (hcovers : history.ImageCovers encode image epoch) :
    history.ImageCovers encode image epoch' := by
  cases image with
  | some bytes => exact Covers.mono hepoch hcovers
  | none => exact fun mutation hmem ↦ hepoch.trans_lt (hcovers mutation hmem)

theorem stateAfter_withEdit (edit : T → T) {count : ℕ} (hcount : count ≤ history.edits.length) :
    (history.withEdit edit).stateAfter count = history.stateAfter count := by
  rw [stateAfter, withEdit, List.take_append_of_le_length hcount, stateAfter]

theorem stateAfter_withEdit_length (edit : T → T) :
    edit (history.stateAfter history.edits.length) =
      (history.withEdit edit).stateAfter (history.withEdit edit).edits.length := by
  rw [stateAfter, List.take_length, stateAfter, List.take_length, withEdit, List.foldl_append]
  rfl

/-- An edit does not change what a snapshot contains. -/
theorem Covers.withEdit {bytes : ByteString} {epoch : ℕ} (edit : T → T)
    (hcovers : history.Covers encode bytes epoch) :
    (history.withEdit edit).Covers encode bytes epoch := by
  obtain ⟨count, hcount, hbytes, hall⟩ := hcovers
  refine ⟨count, ?_, ?_, hall⟩
  · rw [History.withEdit, List.length_append]
    exact hcount.trans (Nat.le_add_right _ _)
  · rw [stateAfter_withEdit edit hcount]
    exact hbytes

theorem ImageCovers.withEdit {image : Option ByteString} {epoch : ℕ} (edit : T → T)
    (hcovers : history.ImageCovers encode image epoch) :
    (history.withEdit edit).ImageCovers encode image epoch := by
  cases image with
  | some bytes => exact Covers.withEdit edit hcovers
  | none => exact hcovers

theorem mem_withRecorded {receipt : MutationReceipt} {time : ℕ} {handedOut : Bool}
    {mutation : RecordedMutation} :
    mutation ∈ (history.withRecorded receipt time handedOut).recorded ↔
      mutation ∈ history.recorded ∨
        mutation = ⟨receipt, history.edits.length, time, handedOut⟩ := by
  rw [withRecorded, List.mem_append, List.mem_singleton]

/-- A mutation recorded later has a later epoch, so a snapshot still contains what it has to. -/
theorem Covers.withRecorded {bytes : ByteString} {epoch time : ℕ} {receipt : MutationReceipt}
    {handedOut : Bool} (hlater : epoch < receipt.mutationEpoch)
    (hcovers : history.Covers encode bytes epoch) :
    (history.withRecorded receipt time handedOut).Covers encode bytes epoch := by
  obtain ⟨count, hcount, hbytes, hall⟩ := hcovers
  refine ⟨count, hcount, hbytes, ?_⟩
  intro mutation hmem hle
  rcases mem_withRecorded.mp hmem with hold | rfl
  · exact hall mutation hold hle
  · exact absurd hle (not_le.mpr hlater)

theorem ImageCovers.withRecorded {image : Option ByteString} {epoch time : ℕ}
    {receipt : MutationReceipt} {handedOut : Bool} (hlater : epoch < receipt.mutationEpoch)
    (hcovers : history.ImageCovers encode image epoch) :
    (history.withRecorded receipt time handedOut).ImageCovers encode image epoch := by
  cases image with
  | some bytes => exact Covers.withRecorded hlater hcovers
  | none =>
    intro mutation hmem
    rcases mem_withRecorded.mp hmem with hold | rfl
    · exact hcovers mutation hold
    · exact hlater

namespace Wellformed

variable {mutationEpoch : ℕ} (hhistory : history.Wellformed mutationEpoch)
include hhistory

theorem length_recorded : history.recorded.length = mutationEpoch := by
  have hlength := congrArg List.length hhistory.epochs
  rw [List.length_map, List.length_range'] at hlength
  exact hlength

/-- No epoch is beyond the mutation epoch, and none is zero. -/
theorem epoch_bounds {mutation : RecordedMutation} (hmem : mutation ∈ history.recorded) :
    1 ≤ mutation.receipt.mutationEpoch ∧ mutation.receipt.mutationEpoch ≤ mutationEpoch := by
  have hepoch : mutation.receipt.mutationEpoch ∈ List.range' 1 mutationEpoch := by
    rw [← hhistory.epochs]
    exact List.mem_map_of_mem hmem
  rw [List.mem_range'_1] at hepoch
  omega

theorem withEdit (edit : T → T) : (history.withEdit edit).Wellformed mutationEpoch := by
  refine ⟨hhistory.epochs, ?_⟩
  intro mutation hmem
  rw [History.withEdit, List.length_append]
  exact (hhistory.edits_le mutation hmem).trans (Nat.le_add_right _ _)

theorem withRecorded (waitForPersistence : Bool) (time : ℕ) (handedOut : Bool) :
    (history.withRecorded ⟨mutationEpoch + 1, waitForPersistence⟩ time handedOut).Wellformed
      (mutationEpoch + 1) := by
  constructor
  · rw [History.withRecorded, List.map_append, hhistory.epochs, List.range'_concat, List.map_cons,
      List.map_nil, one_mul, Nat.add_comm 1]
  · intro mutation hmem
    rcases mem_withRecorded.mp hmem with hold | rfl
    · exact hhistory.edits_le mutation hold
    · exact le_refl _

/-- The encoding of the present state contains everything. -/
theorem covers_present :
    history.Covers encode (encode (history.stateAfter history.edits.length)) mutationEpoch :=
  ⟨_, le_refl _, rfl, fun mutation hmem _ ↦ hhistory.edits_le mutation hmem⟩

end Wellformed

end History

/-! ### The invariant -/

/-- What the persistence thread has in hand, phase by phase. -/
def WorkerCoherent (world : World T ι) : Prop :=
  match world.worker with
  | .stateLocked => world.holder = some .worker
  | .snapshotTaken snapshotEpoch =>
    world.holder = some .worker ∧ snapshotEpoch = world.schedule.mutationEpoch
  | .encoded bytes snapshotEpoch =>
    world.schedule.persistedEpoch ≤ snapshotEpoch ∧
      snapshotEpoch ≤ world.schedule.mutationEpoch ∧
      world.history.Covers encode bytes snapshotEpoch
  | .written snapshotEpoch =>
    world.schedule.persistedEpoch ≤ snapshotEpoch ∧
      snapshotEpoch ≤ world.schedule.mutationEpoch ∧
      world.history.ImageCovers encode world.image snapshotEpoch
  | _ => True

/-- A waiting flush waits for every mutation recorded before it was called. -/
def ClientPhase.Coherent (mutationEpoch : ℕ) : ClientPhase → Prop
  | .flushCalled recordedBefore => recordedBefore ≤ mutationEpoch
  | .flushWaiting recordedBefore target => recordedBefore ≤ target
  | _ => True

/-- The persistence thread has decided to return `Ok`. -/
def WorkerPhase.HasExited : WorkerPhase → Prop
  | .returning => True
  | .terminated (.finished (.ok ())) => True
  | _ => False

/-- The thread exits only once it was asked to stop, and then the owner waits for it with
everything persisted that was recorded before the call. -/
def OwnerCoherent (world : World T ι) : Prop :=
  match world.owner with
  | .running => world.schedule.stopping = false
  | .stopCalled _ recordedBefore =>
    world.schedule.stopping = false ∧ recordedBefore ≤ world.schedule.mutationEpoch
  | .joining _ recordedBefore =>
    recordedBefore ≤ world.schedule.mutationEpoch ∧
      (world.worker.HasExited → recordedBefore ≤ world.schedule.persistedEpoch)
  | .returned _ _ => True

/-- The invariant of all runs. -/
structure Coherent (world : World T ι) : Prop where
  state_eq : world.state = world.history.stateAfter world.history.edits.length
  wellformed : world.history.Wellformed world.schedule.mutationEpoch
  persisted_le : world.schedule.persistedEpoch ≤ world.schedule.mutationEpoch
  image : world.history.ImageCovers encode world.image world.schedule.persistedEpoch
  worker : WorkerCoherent encode world
  exited : world.worker.HasExited → world.schedule.stopping = true
  clients : ∀ client, (world.clients client).Coherent world.schedule.mutationEpoch
  owner : OwnerCoherent world

section Steps

variable {encode} {mode : PersistenceMode}

/-- What the persistence thread has in hand stays good while it does not hold the state mutex,
whatever happens to the history meanwhile. -/
theorem WorkerCoherent.of_not_holder {world world' : World T ι}
    (hworker : WorkerCoherent encode world) (hholder : world.holder ≠ some .worker)
    (hphase : world'.worker = world.worker) (himage : world'.image = world.image)
    (hpersisted : world'.schedule.persistedEpoch = world.schedule.persistedEpoch)
    (hmutation : world.schedule.mutationEpoch ≤ world'.schedule.mutationEpoch)
    (hcovers : ∀ bytes epoch, epoch ≤ world.schedule.mutationEpoch →
      world.history.Covers encode bytes epoch → world'.history.Covers encode bytes epoch)
    (himageCovers : ∀ image epoch, epoch ≤ world.schedule.mutationEpoch →
      world.history.ImageCovers encode image epoch →
        world'.history.ImageCovers encode image epoch) :
    WorkerCoherent encode world' := by
  unfold WorkerCoherent at hworker ⊢
  rw [hphase, himage, hpersisted]
  cases hcase : world.worker with
  | stateLocked =>
    rw [hcase] at hworker
    exact absurd hworker hholder
  | snapshotTaken snapshotEpoch =>
    rw [hcase] at hworker
    exact absurd hworker.1 hholder
  | encoded bytes snapshotEpoch =>
    rw [hcase] at hworker
    obtain ⟨hle, hepoch, hbytes⟩ := hworker
    exact ⟨hle, hepoch.trans hmutation, hcovers _ _ hepoch hbytes⟩
  | written snapshotEpoch =>
    rw [hcase] at hworker
    obtain ⟨hle, hepoch, hbytes⟩ := hworker
    exact ⟨hle, hepoch.trans hmutation, himageCovers _ _ hepoch hbytes⟩
  | _ => trivial

theorem ClientPhase.Coherent.mono {phase : ClientPhase} {mutationEpoch mutationEpoch' : ℕ}
    (hmutation : mutationEpoch ≤ mutationEpoch') (hphase : phase.Coherent mutationEpoch) :
    phase.Coherent mutationEpoch' := by
  cases phase with
  | flushCalled recordedBefore => exact hphase.trans hmutation
  | flushWaiting recordedBefore target => exact hphase
  | _ => trivial

/-- Epochs that grow keep what the owner relies on, as long as the thread exits only with
everything persisted that the owner waits for. -/
theorem OwnerCoherent.mono {world world' : World T ι} (howner : OwnerCoherent world)
    (hsame : world'.owner = world.owner)
    (hstopping : world'.schedule.stopping = world.schedule.stopping)
    (hmutation : world.schedule.mutationEpoch ≤ world'.schedule.mutationEpoch)
    (hexited : world'.worker.HasExited → ∀ recordedBefore ≤ world.schedule.mutationEpoch,
      (world.worker.HasExited → recordedBefore ≤ world.schedule.persistedEpoch) →
        recordedBefore ≤ world'.schedule.persistedEpoch) : OwnerCoherent world' := by
  unfold OwnerCoherent at howner ⊢
  rw [hsame, hstopping]
  cases hcase : world.owner with
  | running =>
    rw [hcase] at howner
    exact howner
  | stopCalled call recordedBefore =>
    rw [hcase] at howner
    exact ⟨howner.1, howner.2.trans hmutation⟩
  | joining call recordedBefore =>
    rw [hcase] at howner
    exact ⟨howner.1.trans hmutation, fun hexited' ↦
      hexited hexited' recordedBefore howner.1 howner.2⟩
  | returned call result => trivial

theorem OwnerCoherent.of_schedule {world world' : World T ι} (howner : OwnerCoherent world)
    (hsame : world'.owner = world.owner) (hworker : world'.worker = world.worker)
    (hstopping : world'.schedule.stopping = world.schedule.stopping)
    (hmutation : world.schedule.mutationEpoch ≤ world'.schedule.mutationEpoch)
    (hpersisted : world.schedule.persistedEpoch ≤ world'.schedule.persistedEpoch) :
    OwnerCoherent world' :=
  howner.mono hsame hstopping hmutation fun hexited _ _ hbefore ↦
    (hbefore (hworker ▸ hexited)).trans hpersisted

theorem OwnerCoherent.of_not_exited {world world' : World T ι} (howner : OwnerCoherent world)
    (hsame : world'.owner = world.owner) (hworker : ¬ world'.worker.HasExited)
    (hstopping : world'.schedule.stopping = world.schedule.stopping)
    (hmutation : world.schedule.mutationEpoch ≤ world'.schedule.mutationEpoch) :
    OwnerCoherent world' :=
  howner.mono hsame hstopping hmutation fun hexited ↦ absurd hexited hworker

variable [DecidableEq ι]

theorem Coherent.setClient {world : World T ι} (hworld : Coherent encode world) {client : ι}
    {phase : ClientPhase} (hphase : phase.Coherent world.schedule.mutationEpoch) :
    Coherent encode (world.setClient client phase) := by
  refine { hworld with clients := ?_ }
  intro other
  change (Function.update world.clients client phase other).Coherent _
  rw [Function.update_apply]
  split_ifs
  · exact hphase
  · exact hworld.clients other

theorem Coherent.returned {world : World T ι} (hworld : Coherent encode world) {client : ι} :
    Coherent encode (world.setClient client .idle) :=
  hworld.setClient trivial

omit [DecidableEq ι] in
theorem Coherent.acknowledge {world : World T ι} (hworld : Coherent encode world)
    (acknowledgement : Acknowledgement) : Coherent encode (world.acknowledge acknowledgement) :=
  { hworld with }

omit [DecidableEq ι] in
/-- The state lock passes between clients. -/
theorem Coherent.withHolder {world : World T ι} (hworld : Coherent encode world)
    (hholder : world.holder ≠ some .worker) (holder : Option (Thread ι)) :
    Coherent encode { world with holder := holder } :=
  { hworld with
    worker := hworld.worker.of_not_holder hholder rfl rfl rfl (le_refl _)
      (fun _ _ _ hcovers ↦ hcovers) fun _ _ _ hcovers ↦ hcovers }

omit [DecidableEq ι] in
/-- An edit of the state while the persistence thread does not read it. -/
theorem Coherent.withEdit {world : World T ι} (hworld : Coherent encode world)
    (hholder : world.holder ≠ some .worker) (edit : T → T) :
    Coherent encode
      { world with state := edit world.state, history := world.history.withEdit edit } := by
  refine { hworld with state_eq := ?_, wellformed := ?_, image := ?_, worker := ?_ }
  · rw [hworld.state_eq]
    exact History.stateAfter_withEdit_length edit
  · exact hworld.wellformed.withEdit edit
  · exact hworld.image.withEdit edit
  · exact hworld.worker.of_not_holder hholder rfl rfl rfl (le_refl _)
      (fun _ _ _ hcovers ↦ hcovers.withEdit edit) fun _ _ _ hcovers ↦ hcovers.withEdit edit

omit [DecidableEq ι] in
/-- A mutation recorded while the persistence thread does not read the state. -/
theorem Coherent.withRecorded {world : World T ι} (hworld : Coherent encode world)
    (hholder : world.holder ≠ some .worker) :
    Coherent encode
      { world with
        schedule := (world.schedule.withMutation mode world.now
          (world.schedule.mutationEpoch + 1)).2
        history := world.history.withRecorded
          ⟨world.schedule.mutationEpoch + 1, mode = .immediate⟩ world.now
          (world.schedule.withMutation mode world.now
            (world.schedule.mutationEpoch + 1)).1.isSome } := by
  have hmutation : world.schedule.mutationEpoch ≤ (world.schedule.withMutation mode world.now
      (world.schedule.mutationEpoch + 1)).2.mutationEpoch := by
    rw [withMutation_mutationEpoch]
    exact Nat.le_succ _
  have hpersisted := withMutation_persistedEpoch mode world.now
    (world.schedule.mutationEpoch + 1) world.schedule
  constructor
  · exact hworld.state_eq
  · rw [withMutation_mutationEpoch]
    exact hworld.wellformed.withRecorded _ _ _
  · rw [hpersisted]
    exact hworld.persisted_le.trans hmutation
  · rw [hpersisted]
    exact hworld.image.withRecorded (Nat.lt_succ_of_le hworld.persisted_le)
  · exact hworld.worker.of_not_holder hholder rfl rfl hpersisted hmutation
      (fun _ _ hepoch hcovers ↦ hcovers.withRecorded (Nat.lt_succ_of_le hepoch))
      fun _ _ hepoch hcovers ↦ hcovers.withRecorded (Nat.lt_succ_of_le hepoch)
  · rw [withMutation_stopping]
    exact hworld.exited
  · exact fun client ↦ (hworld.clients client).mono hmutation
  · exact hworld.owner.of_schedule rfl rfl (withMutation_stopping _ _ _ _) hmutation
      hpersisted.ge

omit [DecidableEq ι] in
theorem holder_ne_worker {world : World T ι} {client : ι}
    (hholder : world.holder = some (.client client)) : world.holder ≠ some .worker := by
  rw [hholder]
  exact fun habsurd ↦ nomatch habsurd

/-- A client keeps the invariant. -/
theorem Coherent.client {world world' : World T ι} {client : ι} {action : ClientAction T}
    (hworld : Coherent encode world)
    (htransition : ClientTransition mode world client action world') :
    Coherent encode world' := by
  cases htransition with
  | stateLocked hfree =>
    have hholder : world.holder ≠ some .worker := by
      rw [hfree]
      exact fun habsurd ↦ nomatch habsurd
    exact hworld.withHolder hholder _
  | stateEdited edit hholder => exact hworld.withEdit (holder_ne_worker hholder) edit
  | recorded hholder hfailure hepochs => exact hworld.withRecorded (holder_ne_worker hholder)
  | stateUnlocked hholder => exact hworld.withHolder (holder_ne_worker hholder) _
  | unchanged => exact hworld
  | flushCalled hphase => exact hworld.setClient hworld.wellformed.length_recorded.le
  | flushForced hphase hfailure hpending =>
    have hforced : Coherent encode
        { world with schedule := { world.schedule with force := true } } :=
      { hworld with }
    have hrecordedBefore := hworld.clients client
    rw [hphase] at hrecordedBefore
    exact hforced.setClient hrecordedBefore
  | waitCalled hphase hreceipt => exact hworld.setClient trivial
  | returned => exact hworld.returned
  | flushUnneeded hphase hfailure hpersisted => exact hworld.returned.acknowledge _
  | flushReached hphase hpersisted => exact hworld.returned.acknowledge _
  | waitReached hphase hwaits hpersisted => exact hworld.returned.acknowledge _

omit [DecidableEq ι] in
/-- The owner keeps the invariant. -/
theorem Coherent.ownerStep {world world' : World T ι} (hworld : Coherent encode world)
    (htransition : OwnerTransition world world') : Coherent encode world' := by
  have howner := hworld.owner
  unfold OwnerCoherent at howner
  cases htransition with
  | stopCalled call hphase =>
    rw [hphase] at howner
    exact { hworld with owner := ⟨howner, hworld.wellformed.length_recorded.le⟩ }
  | stopRequested hphase =>
    rw [hphase] at howner
    refine { hworld with exited := fun _ ↦ rfl, owner := ⟨howner.2, ?_⟩ }
    intro hexited
    have hstopping := hworld.exited hexited
    rw [howner.1] at hstopping
    cases hstopping
  | joined result hphase => exact { hworld with owner := trivial }
  | shutDown hphase hworker => exact { hworld with owner := trivial }

omit [DecidableEq ι] in
/-- The persistence thread keeps the invariant where it goes on to another phase, and the epochs of
the schedule stay what they are. -/
theorem Coherent.setWorker {world : World T ι} (hworld : Coherent encode world)
    {schedule : ScheduleState} {holder : Option (Thread ι)} {phase : WorkerPhase}
    {lastSnapshot : ℕ} (hrunning : ¬ phase.HasExited)
    (hmutation : schedule.mutationEpoch = world.schedule.mutationEpoch)
    (hpersisted : schedule.persistedEpoch = world.schedule.persistedEpoch)
    (hstopping : schedule.stopping = world.schedule.stopping)
    (hworker : WorkerCoherent encode { world with
      schedule := schedule, holder := holder, worker := phase, lastSnapshot := lastSnapshot }) :
    Coherent encode { world with
      schedule := schedule, holder := holder, worker := phase, lastSnapshot := lastSnapshot } where
  state_eq := hworld.state_eq
  wellformed := hmutation ▸ hworld.wellformed
  persisted_le := by
    rw [hmutation, hpersisted]
    exact hworld.persisted_le
  image := hpersisted ▸ hworld.image
  worker := hworker
  exited hexited := absurd hexited hrunning
  clients := hmutation ▸ hworld.clients
  owner := hworld.owner.of_not_exited rfl hrunning hstopping hmutation.ge

omit [DecidableEq ι] in
/-- The persistence thread keeps the invariant. -/
theorem Coherent.workerStep {world world' : World T ι} (hworld : Coherent encode world)
    (htransition : WorkerTransition mode encode world world') : Coherent encode world' := by
  have hworker := hworld.worker
  unfold WorkerCoherent at hworker
  cases htransition with
  | exited hphase hfailure hepochs hstopping =>
    exact { hworld with
      worker := trivial
      exited := fun _ ↦ hstopping
      owner := hworld.owner.mono rfl rfl (le_refl _) fun _ _ hbefore _ ↦ hbefore.trans_eq hepochs }
  | cameDue hphase hfailure hepochs =>
    exact hworld.setWorker id rfl rfl rfl trivial
  | slept hphase => exact hworld
  | sleptUnarmed hphase hepochs =>
    refine { hworld with worker := ?_ }
    unfold WorkerCoherent
    dsimp only
    rw [hphase]
    trivial
  | stateLocked hphase hfree =>
    exact hworld.setWorker id rfl rfl rfl rfl
  | snapshotTaken hphase =>
    rw [hphase] at hworker
    exact hworld.setWorker id rfl rfl rfl ⟨hworker, rfl⟩
  | encoded hphase =>
    rw [hphase] at hworker
    obtain ⟨hholder, rfl⟩ := hworker
    refine hworld.setWorker id rfl rfl rfl ⟨hworld.persisted_le, le_refl _, ?_⟩
    rw [hworld.state_eq]
    exact hworld.wellformed.covers_present
  | encodeFailed hphase error =>
    exact hworld.setWorker id rfl rfl rfl trivial
  | encodePanicked hphase =>
    exact hworld.setWorker id rfl rfl rfl trivial
  | written hphase =>
    rw [hphase] at hworker
    obtain ⟨hpersisted, hepoch, hcovers⟩ := hworker
    exact { hworld with
      image := hcovers.mono hpersisted
      worker := ⟨hpersisted, hepoch, hcovers⟩
      exited := fun hexited ↦ hexited.elim
      owner := hworld.owner.of_not_exited rfl id rfl (le_refl _) }
  | failed error hphase =>
    exact hworld.setWorker id rfl rfl rfl trivial
  | cycleFinished hphase | cyclePanicked hphase hpanics =>
    rw [hphase] at hworker
    obtain ⟨hpersisted, hepoch, hcovers⟩ := hworker
    constructor
    · exact hworld.state_eq
    · rw [finishCycle_mutationEpoch]
      exact hworld.wellformed
    · rw [finishCycle_mutationEpoch, finishCycle_persistedEpoch]
      exact hepoch
    · rw [finishCycle_persistedEpoch]
      exact hcovers
    · trivial
    · exact fun hexited ↦ hexited.elim
    · rw [finishCycle_mutationEpoch]
      exact hworld.clients
    · exact hworld.owner.of_not_exited rfl id (finishCycle_stopping _ _ _ _)
        (finishCycle_mutationEpoch _ _ _ _).ge
  | returned hphase =>
    have hexited : world.worker.HasExited := by
      rw [hphase]
      trivial
    exact { hworld with
      worker := trivial
      exited := fun _ ↦ hworld.exited hexited
      owner := hworld.owner.mono rfl rfl (le_refl _) fun _ _ _ hbefore ↦ hbefore hexited }
  | failureStored hphase =>
    exact hworld.setWorker id rfl rfl rfl trivial
  | failureReturned hphase =>
    exact hworld.setWorker id rfl rfl rfl trivial
  | panicked hphase =>
    exact hworld.setWorker id rfl rfl rfl trivial

/-- Every step keeps the invariant. -/
theorem Coherent.step {world world' : World T ι} {event : Event T ι}
    (hworld : Coherent encode world) (htransition : Transition mode encode world event world') :
    Coherent encode world' := by
  cases htransition with
  | tick elapsed => exact { hworld with }
  | client client htransition => exact hworld.client htransition
  | owner htransition => exact hworld.ownerStep htransition
  | worker htransition => exact hworld.workerStep htransition

end Steps

theorem coherent_start (state : T) (now : ℕ) :
    Coherent encode (.start state now : World T ι) where
  state_eq := rfl
  wellformed := ⟨rfl, fun _ hmem ↦ nomatch hmem⟩
  persisted_le := le_refl _
  image := fun _ hmem ↦ nomatch hmem
  worker := trivial
  exited := fun hexited ↦ hexited.elim
  clients := fun _ ↦ trivial
  owner := rfl

variable [DecidableEq ι] {encode} {mode : PersistenceMode}

/-- The invariant holds in every reachable world. -/
theorem coherent_of_reachable {world : World T ι}
    (hreachable : (persistence mode encode).Reachable world) : Coherent encode world := by
  refine hreachable.invariant (Coherent encode) ?_ ?_
  · rintro _ ⟨-, state, now, rfl⟩
    exact coherent_start encode state now
  · intro world event world' _ _ hworld hstep
    exact hworld.step (transition_of_step mode encode hstep)

/-! ### The durable log -/

/-- The component as a durable log of the recorded mutations. -/
def World.durableLog (world : World T ι) : DurableLog RecordedMutation where
  entries := world.history.recorded
  durable := world.schedule.persistedEpoch
  acknowledged := world.acknowledged.map Acknowledgement.bound

omit [DecidableEq ι] in
/-- A call that returns `Ok` with everything persisted that it promises acknowledges in the log. -/
theorem acknowledge_durableLog (world : World T ι) {acknowledgement : Acknowledgement}
    (hbound : acknowledgement.bound ≤ world.schedule.persistedEpoch) :
    world.durableLog.step (.acknowledge acknowledgement.bound) =
      some (world.acknowledge acknowledgement).durableLog := by
  rw [DurableLog.step, if_pos (show acknowledgement.bound ≤ world.durableLog.durable from hbound)]
  simp [World.durableLog, World.acknowledge]

theorem clientTransition_durableLog {world world' : World T ι} {client : ι}
    {action : ClientAction T} (hworld : Coherent encode world)
    (htransition : ClientTransition mode world client action world') :
    world'.durableLog = world.durableLog ∨
      ∃ event, world.durableLog.step event = some world'.durableLog := by
  have hphaseCoherent := hworld.clients client
  cases htransition with
  | recorded hholder hfailure hepochs =>
    refine Or.inr ⟨.append ⟨⟨world.schedule.mutationEpoch + 1, mode = .immediate⟩,
      world.history.edits.length, world.now,
      (world.schedule.withMutation mode world.now (world.schedule.mutationEpoch + 1)).1.isSome⟩, ?_⟩
    rw [DurableLog.step, World.durableLog, World.durableLog, withMutation_persistedEpoch]
    rfl
  | flushUnneeded hphase hfailure hpersisted =>
    rw [hphase] at hphaseCoherent
    exact Or.inr ⟨_, acknowledge_durableLog (world.setClient client .idle)
      (hphaseCoherent.trans hpersisted)⟩
  | flushReached hphase hpersisted =>
    rw [hphase] at hphaseCoherent
    exact Or.inr ⟨_, acknowledge_durableLog (world.setClient client .idle)
      (hphaseCoherent.trans hpersisted)⟩
  | waitReached hphase hwaits hpersisted =>
    exact Or.inr ⟨_, acknowledge_durableLog (world.setClient client .idle) hpersisted⟩
  | _ => exact Or.inl rfl

omit [DecidableEq ι] in
theorem ownerTransition_durableLog {world world' : World T ι} (hworld : Coherent encode world)
    (htransition : OwnerTransition world world') :
    world'.durableLog = world.durableLog ∨
      ∃ event, world.durableLog.step event = some world'.durableLog := by
  cases htransition with
  | shutDown hphase hworker =>
    have howner := hworld.owner
    unfold OwnerCoherent at howner
    rw [hphase, hworker] at howner
    exact Or.inr ⟨_, acknowledge_durableLog
      { world with owner := .returned .shutdown (.ok ()) } (howner.2 trivial)⟩
  | _ => exact Or.inl rfl

omit [DecidableEq ι] in
theorem workerTransition_durableLog {world world' : World T ι} (hworld : Coherent encode world)
    (htransition : WorkerTransition mode encode world world') :
    world'.durableLog = world.durableLog ∨
      ∃ event, world.durableLog.step event = some world'.durableLog := by
  cases htransition with
  | @cycleFinished snapshotEpoch hphase | @cyclePanicked snapshotEpoch hphase hpanics =>
    have hworker := hworld.worker
    unfold WorkerCoherent at hworker
    rw [hphase] at hworker
    obtain ⟨hpersisted, hepoch, -⟩ := hworker
    have hwithin : snapshotEpoch ≤ world.history.recorded.length := by
      rw [hworld.wellformed.length_recorded]
      exact hepoch
    refine Or.inr ⟨.persist snapshotEpoch, ?_⟩
    rw [DurableLog.step, if_pos ⟨hpersisted, hwithin⟩, World.durableLog, World.durableLog,
      finishCycle_persistedEpoch]
  | _ => exact Or.inl rfl

/-- The system of threads refines the durable log. -/
def durableLogRefinement :
    (persistence (ι := ι) mode encode).Refinement (DurableLog.system RecordedMutation) where
  view := World.durableLog
  initial := by
    rintro _ ⟨-, state, now, rfl⟩
    rfl
  step := by
    intro world event world' hreachable hstep
    have hworld := coherent_of_reachable hreachable
    cases transition_of_step mode encode hstep with
    | tick elapsed => exact Or.inl rfl
    | client client htransition => exact clientTransition_durableLog hworld htransition
    | owner htransition => exact ownerTransition_durableLog hworld htransition
    | worker htransition => exact workerTransition_durableLog hworld htransition

/-- What was acknowledged is persisted. -/
theorem acknowledged_le_persisted {world : World T ι}
    (hreachable : (persistence mode encode).Reachable world)
    {acknowledgement : Acknowledgement} (hmem : acknowledgement ∈ world.acknowledged) :
    acknowledgement.bound ≤ world.schedule.persistedEpoch := by
  have hlog := DurableLog.consistent_of_reachable (durableLogRefinement.reachable hreachable)
  exact hlog.acknowledged_le _ (List.mem_map_of_mem hmem)

/-! ### Durability -/

/-- No step lets an epoch decrease. -/
theorem epochs_le_of_step {world world' : World T ι} {event : Event T ι}
    (hreachable : (persistence mode encode).Reachable world)
    (hstep : step mode encode world event = some world') :
    world.schedule.mutationEpoch ≤ world'.schedule.mutationEpoch ∧
      world.schedule.persistedEpoch ≤ world'.schedule.persistedEpoch := by
  have hworld := coherent_of_reachable hreachable
  cases transition_of_step mode encode hstep with
  | tick elapsed => exact ⟨le_refl _, le_refl _⟩
  | client client htransition =>
    cases htransition with
    | recorded hholder hfailure hepochs =>
      rw [withMutation_mutationEpoch, withMutation_persistedEpoch]
      exact ⟨Nat.le_succ _, le_refl _⟩
    | _ => exact ⟨le_refl _, le_refl _⟩
  | owner htransition => cases htransition <;> exact ⟨le_refl _, le_refl _⟩
  | worker htransition =>
    cases htransition with
    | cycleFinished hphase | cyclePanicked hphase hpanics =>
      have hworker := hworld.worker
      unfold WorkerCoherent at hworker
      rw [hphase] at hworker
      rw [finishCycle_mutationEpoch, finishCycle_persistedEpoch]
      exact ⟨le_refl _, hworker.1⟩
    | _ => exact ⟨le_refl _, le_refl _⟩

/-! ### Receipts -/

/-- A record that finds the deadline disarmed panics. -/
def RecordsPanic (mode : PersistenceMode) (world : World T ι) : Prop :=
  ∃ delay, mode = .batched delay ∧ world.schedule.deadline = none ∧
    instantAdd world.now delay = none

/-- The epochs of the receipts are 1, 2, and so on, up to the mutation epoch as long as no record
has panicked; after that every record does. -/
structure ReceiptsConsecutive (mode : PersistenceMode) (world : World T ι) : Prop where
  epochs : world.history.receipts.map MutationReceipt.mutationEpoch =
    List.range' 1 world.history.receipts.length
  complete : world.history.receipts.length = world.schedule.mutationEpoch ∨
    RecordsPanic mode world

omit [DecidableEq ι] in
/-- Records go on panicking while the clock does not go back and no deadline is armed. -/
theorem RecordsPanic.of_same {world world' : World T ι} (hpanics : RecordsPanic mode world)
    (hnow : world.now ≤ world'.now)
    (hdeadline : world.schedule.deadline = none → world'.schedule.deadline = none) :
    RecordsPanic mode world' := by
  obtain ⟨delay, hmode, hnone, hsum⟩ := hpanics
  exact ⟨delay, hmode, hdeadline hnone, instantAdd_eq_none_mono hnow hsum⟩

omit [DecidableEq ι] in
theorem ReceiptsConsecutive.of_same {world world' : World T ι}
    (hworld : ReceiptsConsecutive mode world)
    (hreceipts : world'.history.receipts = world.history.receipts)
    (hmutation : world'.schedule.mutationEpoch = world.schedule.mutationEpoch)
    (hnow : world.now ≤ world'.now)
    (hdeadline : world.schedule.deadline = none → RecordsPanic mode world →
      world'.schedule.deadline = none) : ReceiptsConsecutive mode world' where
  epochs := hreceipts.symm ▸ hworld.epochs
  complete := by
    rw [hreceipts, hmutation]
    exact hworld.complete.imp_right fun hpanics ↦
      hpanics.of_same hnow fun hnone ↦ hdeadline hnone hpanics

theorem History.receipts_withRecorded (history : History T) (receipt : MutationReceipt)
    (time : ℕ) (handedOut : Bool) :
    (history.withRecorded receipt time handedOut).receipts =
      history.receipts ++ if handedOut then [receipt] else [] := by
  unfold History.receipts History.withRecorded
  cases handedOut <;> simp

omit [DecidableEq ι] in
/-- A record hands out the next epoch, or it panics and so do those after it. -/
theorem ReceiptsConsecutive.recorded {world : World T ι} (hworld : ReceiptsConsecutive mode world) :
    ReceiptsConsecutive mode { world with
      schedule := (world.schedule.withMutation mode world.now
        (world.schedule.mutationEpoch + 1)).2
      history := world.history.withRecorded
        ⟨world.schedule.mutationEpoch + 1, mode = .immediate⟩ world.now
        (world.schedule.withMutation mode world.now
          (world.schedule.mutationEpoch + 1)).1.isSome } := by
  cases hscheduled : (world.schedule.withMutation mode world.now
      (world.schedule.mutationEpoch + 1)).1 with
  | none =>
    have hpanics : RecordsPanic mode world := by
      cases mode with
      | immediate => exact nomatch hscheduled
      | batched delay =>
        cases hdeadline : world.schedule.deadline with
        | some deadline =>
          rw [withMutation_batched_of_some _ _ _ hdeadline] at hscheduled
          exact nomatch hscheduled
        | none =>
          rw [withMutation_batched_of_none _ _ _ hdeadline] at hscheduled
          exact ⟨delay, rfl, hdeadline, Option.map_eq_none_iff.mp hscheduled⟩
    have hreceipts : (world.history.withRecorded ⟨world.schedule.mutationEpoch + 1,
        mode = .immediate⟩ world.now false).receipts = world.history.receipts := by
      rw [History.receipts_withRecorded]
      exact List.append_nil _
    refine ⟨hreceipts.symm ▸ hworld.epochs, Or.inr ?_⟩
    obtain ⟨delay, rfl, hdeadline, hsum⟩ := hpanics
    refine ⟨delay, rfl, ?_, hsum⟩
    dsimp only
    rw [withMutation_batched_of_none _ _ _ hdeadline]
    exact hsum
  | some _ =>
    have hcomplete : world.history.receipts.length = world.schedule.mutationEpoch := by
      refine hworld.complete.resolve_right ?_
      rintro ⟨delay, rfl, hdeadline, hsum⟩
      rw [withMutation_batched_of_none _ _ _ hdeadline, hsum] at hscheduled
      exact nomatch hscheduled
    have hreceipts : (world.history.withRecorded ⟨world.schedule.mutationEpoch + 1,
        mode = .immediate⟩ world.now true).receipts =
          world.history.receipts ++ [⟨world.schedule.mutationEpoch + 1, mode = .immediate⟩] :=
      History.receipts_withRecorded _ _ _ _
    refine ⟨?_, Or.inl ?_⟩
    · show (History.receipts (History.withRecorded _ _ _ true)).map _ = _
      rw [Option.isSome_some, hreceipts, List.map_append, hworld.epochs, List.length_append,
        hcomplete, List.length_singleton, List.range'_concat, one_mul, Nat.add_comm 1]
      rfl
    · rw [withMutation_mutationEpoch]
      show (History.receipts (History.withRecorded _ _ _ true)).length = _
      rw [hreceipts, List.length_append, hcomplete]
      rfl

/-- The receipts are those of consecutive epochs in every reachable world. -/
theorem receiptsConsecutive_of_reachable {world : World T ι}
    (hreachable : (persistence mode encode).Reachable world) :
    ReceiptsConsecutive mode world := by
  refine hreachable.invariant (ReceiptsConsecutive mode) ?_ ?_
  · rintro _ ⟨-, state, now, rfl⟩
    exact ⟨rfl, Or.inl rfl⟩
  · intro world event world' _ _ hworld hstep
    cases transition_of_step mode encode hstep with
    | tick elapsed => exact hworld.of_same rfl rfl (Nat.le_add_right _ _) fun hnone _ ↦ hnone
    | client client htransition =>
      cases htransition with
      | recorded hholder hfailure hepochs => exact hworld.recorded
      | _ => exact hworld.of_same rfl rfl (le_refl _) fun hnone _ ↦ hnone
    | owner htransition =>
      cases htransition <;> exact hworld.of_same rfl rfl (le_refl _) fun hnone _ ↦ hnone
    | worker htransition =>
      cases htransition with
      | cameDue hphase | sleptUnarmed hphase =>
        exact hworld.of_same rfl rfl (le_refl _) fun _ _ ↦ rfl
      | cycleFinished hphase | cyclePanicked hphase hpanics =>
        refine hworld.of_same rfl (finishCycle_mutationEpoch _ _ _ _) (le_refl _) ?_
        rintro hnone ⟨delay, rfl, -, hsum⟩
        rw [Option.eq_none_iff_forall_ne_some]
        intro deadline hdeadline
        rcases finishCycle_deadline_eq_some _ _ _ _ hdeadline with hold | ⟨delay', hmode, harmed⟩
        · exact nomatch hnone.symm.trans hold
        · obtain rfl := PersistenceMode.batched.inj hmode
          exact nomatch hsum.symm.trans harmed
      | _ => exact hworld.of_same rfl rfl (le_refl _) fun hnone _ ↦ hnone

/-! ### Acknowledgements -/

/-- In every reachable world the epochs that records have taken are 1, 2, and so on, and so are
those of the receipts that were handed out; the persisted epoch does not exceed the mutation epoch,
and neither decreases later; the image of the last successful write contains every mutation up to
the persisted epoch, and everything that a call has acknowledged. -/
theorem acknowledgements_durable {world : World T ι}
    (hreachable : (persistence mode encode).Reachable world) :
    world.history.recorded.map (fun mutation ↦ mutation.receipt.mutationEpoch) =
        List.range' 1 world.schedule.mutationEpoch ∧
      world.history.receipts.map MutationReceipt.mutationEpoch =
        List.range' 1 world.history.receipts.length ∧
      world.schedule.persistedEpoch ≤ world.schedule.mutationEpoch ∧
      (∀ events world', (persistence mode encode).run world events = some world' →
        world.schedule.mutationEpoch ≤ world'.schedule.mutationEpoch ∧
          world.schedule.persistedEpoch ≤ world'.schedule.persistedEpoch) ∧
      world.history.ImageCovers encode world.image world.schedule.persistedEpoch ∧
      ∀ acknowledgement ∈ world.acknowledged,
        world.history.ImageCovers encode world.image acknowledgement.bound := by
  have hworld := coherent_of_reachable hreachable
  refine ⟨hworld.wellformed.epochs, (receiptsConsecutive_of_reachable hreachable).epochs,
    hworld.persisted_le, ?_, hworld.image, ?_⟩
  · intro events world' hrun
    constructor
    · exact hreachable.measure_le_of_run (fun world ↦ world.schedule.mutationEpoch)
        (fun _ _ _ hstate hstep ↦ (epochs_le_of_step hstate hstep).1) hrun
    · exact hreachable.measure_le_of_run (fun world ↦ world.schedule.persistedEpoch)
        (fun _ _ _ hstate hstep ↦ (epochs_le_of_step hstate hstep).2) hrun
  · intro acknowledgement hmem
    exact hworld.image.mono (acknowledged_le_persisted hreachable hmem)

/-- A number that two clients share, encoded as one byte. -/
abbrev counter (mode : PersistenceMode) : TransitionSystem (World ℕ Bool) (Event ℕ Bool) :=
  persistence mode fun state ↦ [UInt8.ofNat state]

/-- A client edits the number, records a mutation and waits on its receipt; then the owner shuts
the component down. -/
def savedRun : List (Event ℕ Bool) :=
  [.client true .lockState, .client true (.editState (· + 5)), .client true .recordMutation,
    .client true .unlockState, .client true (.callWait ⟨1, true⟩), .worker .succeeds,
    .worker .succeeds, .worker .succeeds, .worker .succeeds, .worker .succeeds, .worker .succeeds,
    .client true .pass, .owner (.callStop .shutdown), .owner .requestStop, .worker .succeeds,
    .worker .succeeds, .owner .join]

/-- The receipt and the shutdown are acknowledged in this run, with the mutation in the image. -/
theorem acknowledgements_durable_savedRun :
    ∃ world, (counter .immediate).run (.start 0 0) savedRun = some world ∧
      world.acknowledged = [.wait ⟨1, true⟩, .shutdown 1] ∧ world.image = some [5] ∧
      ∀ acknowledgement ∈ world.acknowledged, world.history.ImageCovers
        (fun state ↦ [UInt8.ofNat state]) world.image acknowledgement.bound := by
  have hsome : ((counter .immediate).run (.start 0 0) savedRun).isSome := rfl
  obtain ⟨world, hrun⟩ := Option.isSome_iff_exists.mp hsome
  have hacknowledged : ((counter .immediate).run (.start 0 0) savedRun).map World.acknowledged =
    some [.wait ⟨1, true⟩, .shutdown 1] := rfl
  have himage : ((counter .immediate).run (.start 0 0) savedRun).map World.image =
    some (some [5]) := rfl
  rw [hrun] at hacknowledged himage
  have hstart : (counter .immediate).Reachable (.start 0 0) := .start ⟨rfl, 0, 0, rfl⟩
  exact ⟨world, hrun, Option.some.inj hacknowledged, Option.some.inj himage,
    (acknowledgements_durable (hstart.run hrun)).2.2.2.2.2⟩

end SoftwareKeyCore.StatePersistence
