import SoftwareKeyCore.StatePersistence.CrashAtomicity
import SoftwareKeyCore.StatePersistence.Durability

/-!
# Sessions on one state file

`StatePersistence::start`, which runs the threads with `replace_file_atomically` as their writer, on
a disk. The system calls of the writer are interleaved with the steps of clients and owner, and the
writer's call returns to the persistence thread what the last system call left. One session follows
the other: a component may be started again in its process once it was stopped, in a new process
after the old one ended at any moment, and after a crash of the machine; it starts with the state
that `restore` makes of the file.

Whatever is restored then holds, session by session, a prefix of the edits that contains every edit
that an acknowledgement promised (`acknowledged_edits_survive`). The invariant (`Deployment.Sound`)
describes each image that the file may have after a crash: it is an image of the present session
that contains every mutation up to the persisted epoch, or one from before the session while that
has persisted nothing.
-/

set_option autoImplicit false
set_option relaxedAutoImplicit false

namespace SoftwareKeyCore.StatePersistence

open CrashDisk TransitionSystem

variable {T ι D : Type}

/-! ### Sessions -/

/-- A component, from its start on. -/
structure Session (T ι : Type) where
  mode : PersistenceMode
  world : World T ι

/-- The sessions that have ended, the present one, and the machine with the state file. -/
structure Deployment (T ι D : Type) where
  past : List (Session T ι)
  present : Option (Session T ι)
  machine : Machine D

/-- All sessions so far, in order. -/
def Deployment.sessions (deployment : Deployment T ι D) : List (Session T ι) :=
  deployment.past ++ deployment.present.toList

/-- What happens next: a session starts; a step of its component; the next system call of its
writer; a call of `replace_file_atomically` with another path; the end of a session that was
stopped, of its process, or of the machine by a crash. -/
inductive DeploymentEvent (T ι : Type)
  | start (mode : PersistenceMode) (now : ℕ)
  | component (event : Event T ι)
  | proceed (count : ℕ)
  | fail (error : IoError)
  | callElsewhere
  | stop
  | restart (process : ℕ)
  | crash (kept : List (Operation FileName)) (left : ℕ → ByteString) (process : ℕ)

/-- How a call of the writer has returned. -/
def Phase.outcome : Phase D → Option Outcome
  | .returned (.ok ()) => some .succeeds
  | .returned (.error error) => some (.fails error)
  | _ => none

/-- The owner has stopped the component. -/
def Session.HasStopped (session : Session T ι) : Bool :=
  match session.world.owner with
  | .returned _ _ => true
  | _ => false

section System

variable [DecidableEq ι] [DecidableEq D] (destination : Destination D) (encode : T → ByteString)
  (restore : Option ByteString → T)

/-- The writer's part in a step of the component: with the encoded state its call begins, and the
persistence thread goes on when the call has returned, with its result. -/
def writerStep (session : Session T ι) (machine : Machine D) (event : Event T ι) :
    Option (Machine D) :=
  match event, session.world.worker with
  | .worker .succeeds, .snapshotTaken _ =>
    replacementStep destination machine (.call (encode session.world.state))
  | .worker outcome, .encoded _ _ =>
    if machine.phase.outcome = some outcome then some machine else none
  | _, _ => some machine

/-- `StatePersistence::start` with the state of the file. -/
def startSession (machine : Machine D) (mode : PersistenceMode) (now : ℕ) :
    Except IoError (Session T ι) := do
  mode.validate
  pure ⟨mode, .start (restore (machine.contents destination)) now⟩

/-- One step. -/
def deploymentStep (deployment : Deployment T ι D) :
    DeploymentEvent T ι → Option (Deployment T ι D)
  | .start mode now =>
    match deployment.present, startSession destination restore deployment.machine mode now with
    | none, .ok session => some { deployment with present := some session }
    | _, _ => none
  | .component event => do
    let session ← deployment.present
    let machine ← writerStep destination encode session deployment.machine event
    let world ← step session.mode encode session.world event
    some { deployment with present := some { session with world := world }, machine := machine }
  | .proceed count => do
    let machine ← replacementStep destination deployment.machine (.proceed count)
    some { deployment with machine := machine }
  | .fail error => do
    let machine ← replacementStep destination deployment.machine (.fail error)
    some { deployment with machine := machine }
  | .callElsewhere => do
    let machine ← replacementStep destination deployment.machine .callElsewhere
    some { deployment with machine := machine }
  | .stop => do
    let session ← deployment.present
    if session.HasStopped then
      some { deployment with past := deployment.past ++ [session], present := none }
    else none
  | .restart process => do
    let machine ← replacementStep destination deployment.machine (.restart process)
    some ⟨deployment.sessions, none, machine⟩
  | .crash kept left process => do
    let machine ← replacementStep destination deployment.machine (.crash kept left process)
    some ⟨deployment.sessions, none, machine⟩

/-- At the beginning there was no session, on a machine whose entries are on the medium. -/
structure Deployment.IsStart (deployment : Deployment T ι D) : Prop where
  machine : StatePersistence.IsStart destination deployment.machine
  past : deployment.past = []
  present : deployment.present = none

/-- Sessions on one state file. -/
def deployments : TransitionSystem (Deployment T ι D) (DeploymentEvent T ι) where
  Initial := Deployment.IsStart destination
  step := deploymentStep destination encode restore

/-- The step creates no temporary file at the path itself. -/
def Deployment.CreatesBeside (deployment : Deployment T ι D) (event : DeploymentEvent T ι) : Prop :=
  ∀ count, event = .proceed count →
    StatePersistence.CreatesBeside destination deployment.machine (.proceed count)

end System

/-! ### What is kept of the sessions -/

/-- The edits that are kept of a session when its first ones are, and among these are all that were
made before a mutation was recorded that a call has acknowledged. -/
structure Session.Keeps (session : Session T ι) (count : ℕ) : Prop where
  count_le : count ≤ session.world.history.edits.length
  acknowledged : ∀ acknowledgement ∈ session.world.acknowledged,
    ∀ mutation ∈ session.world.history.recorded,
      mutation.receipt.mutationEpoch ≤ acknowledgement.bound → mutation.edits ≤ count

/-- The first edits of each session, in order. -/
def replaySessions (state : T) (sessions : List (Session T ι)) (counts : List ℕ) : T :=
  (sessions.zip counts).foldl
    (fun state kept ↦ (kept.1.world.history.edits.take kept.2).foldl
      (fun state edit ↦ edit state) state) state

/-- The state has what is to be kept of each session, and nothing else. -/
def Survives (initial : T) (sessions : List (Session T ι)) (state : T) : Prop :=
  ∃ counts, List.Forall₂ Session.Keeps sessions counts ∧
    state = replaySessions initial sessions counts

/-- The file holds the state: as its encoding, or as what was there at the beginning. -/
def Holds (encode : T → ByteString) (restore : Option ByteString → T)
    (original contents : Option ByteString) (state : T) : Prop :=
  contents = some (encode state) ∨ contents = original ∧ state = restore original

theorem replaySessions_concat (initial : T) {past : List (Session T ι)} {session : Session T ι}
    {counts : List ℕ} {count : ℕ} (hlength : past.length = counts.length) :
    replaySessions initial (past ++ [session]) (counts ++ [count]) =
      (session.world.history.edits.take count).foldl (fun state edit ↦ edit state)
        (replaySessions initial past counts) := by
  rw [replaySessions, List.zip_append hlength, List.foldl_append]
  rfl

/-- A session that starts with a state that survives keeps it. -/
theorem Survives.concat {initial : T} {past : List (Session T ι)} {session : Session T ι}
    {count : ℕ} (hsurvives : Survives initial past session.world.history.initialState)
    (hkeeps : session.Keeps count) :
    Survives initial (past ++ [session]) (session.world.history.stateAfter count) := by
  obtain ⟨counts, hcounts, hinitial⟩ := hsurvives
  refine ⟨counts ++ [count], List.rel_append hcounts (.cons hkeeps .nil), ?_⟩
  rw [replaySessions_concat initial hcounts.length_eq, ← hinitial]
  rfl

/-- A state from before a session survives it when nothing is to be kept of it. -/
theorem Survives.concat_of_nothing {initial state : T} {past : List (Session T ι)}
    {session : Session T ι} (hsurvives : Survives initial past state)
    (hkeeps : session.Keeps 0) : Survives initial (past ++ [session]) state := by
  obtain ⟨counts, hcounts, hstate⟩ := hsurvives
  refine ⟨counts ++ [0], List.rel_append hcounts (.cons hkeeps .nil), ?_⟩
  rw [replaySessions_concat initial hcounts.length_eq, ← hstate]
  rfl

/-! ### What the file may have -/

variable (encode : T → ByteString) (restore : Option ByteString → T)

/-- The contents are an image of the present session with every mutation up to the epoch, or there
is no such mutation and they are from before the session. -/
def Recoverable (original : Option ByteString) (past : List (Session T ι)) (history : History T)
    (contents : Option ByteString) (epoch : ℕ) : Prop :=
  (∃ bytes, contents = some bytes ∧ history.ImageCovers encode (some bytes) epoch) ∨
    history.ImageCovers encode none epoch ∧
      ∃ state, Survives (restore original) past state ∧ Holds encode restore original contents state

variable {encode restore}

theorem Recoverable.imp {original contents : Option ByteString} {past : List (Session T ι)}
    {history history' : History T} {epoch epoch' : ℕ}
    (hcovers : ∀ image, history.ImageCovers encode image epoch →
      history'.ImageCovers encode image epoch')
    (hcontents : Recoverable encode restore original past history contents epoch) :
    Recoverable encode restore original past history' contents epoch' := by
  rcases hcontents with ⟨bytes, hbytes, himage⟩ | ⟨hnone, hbefore⟩
  · exact Or.inl ⟨bytes, hbytes, hcovers _ himage⟩
  · exact Or.inr ⟨hcovers _ hnone, hbefore⟩

/-- What covers the persisted mutations covers the acknowledged ones. -/
theorem Session.keeps_of_persisted {session : Session T ι} {count : ℕ} [DecidableEq ι]
    (hreachable : (persistence session.mode encode).Reachable session.world)
    (hcount : count ≤ session.world.history.edits.length)
    (hpersisted : ∀ mutation ∈ session.world.history.recorded,
      mutation.receipt.mutationEpoch ≤ session.world.schedule.persistedEpoch →
        mutation.edits ≤ count) : session.Keeps count := by
  refine ⟨hcount, ?_⟩
  intro acknowledgement hacknowledged mutation hmem hbound
  exact hpersisted mutation hmem
    (hbound.trans (acknowledged_le_persisted hreachable hacknowledged))

/-- When the session ends, the contents hold what is to be kept. -/
theorem Recoverable.survives {original contents : Option ByteString} {past : List (Session T ι)}
    {session : Session T ι} [DecidableEq ι]
    (hreachable : (persistence session.mode encode).Reachable session.world)
    (horigin : Survives (restore original) past session.world.history.initialState)
    (hcontents : Recoverable encode restore original past session.world.history contents
      session.world.schedule.persistedEpoch) :
    ∃ state, Survives (restore original) (past ++ [session]) state ∧
      Holds encode restore original contents state := by
  rcases hcontents with ⟨bytes, rfl, hcovers⟩ | ⟨hnone, state, hsurvives, hholds⟩
  · obtain ⟨count, hcount, rfl, hall⟩ := hcovers
    exact ⟨_, horigin.concat (Session.keeps_of_persisted hreachable hcount hall), Or.inl rfl⟩
  · refine ⟨state, hsurvives.concat_of_nothing ?_, hholds⟩
    refine Session.keeps_of_persisted hreachable (Nat.zero_le _) ?_
    intro mutation hmem hle
    exact absurd hle (not_le.mpr (hnone mutation hmem))

theorem Holds.restore_eq (hrestore : ∀ state, restore (some (encode state)) = state)
    {original contents : Option ByteString} {state : T}
    (hholds : Holds encode restore original contents state) : restore contents = state := by
  rcases hholds with rfl | ⟨rfl, rfl⟩
  · exact hrestore state
  · rfl

/-! ### The steps of both parts -/

section Steps

variable [DecidableEq ι] {mode : PersistenceMode}

/-- A step of the component leaves what an image contains of the mutations so far. -/
theorem imageCovers_of_step {world world' : World T ι} {event : Event T ι}
    (hstep : step mode encode world event = some world') {image : Option ByteString} {epoch : ℕ}
    (hepoch : epoch ≤ world.schedule.mutationEpoch)
    (hcovers : world.history.ImageCovers encode image epoch) :
    world'.history.ImageCovers encode image epoch := by
  cases transition_of_step mode encode hstep with
  | tick elapsed => exact hcovers
  | client client htransition =>
    cases htransition with
    | stateEdited edit hholder => exact hcovers.withEdit edit
    | recorded hholder hfailure hepochs => exact hcovers.withRecorded (Nat.lt_succ_of_le hepoch)
    | _ => exact hcovers
  | owner htransition => cases htransition <;> exact hcovers
  | worker htransition => cases htransition <;> exact hcovers

/-- A step of the component does not change the state from which its history starts. -/
theorem initialState_of_step {world world' : World T ι} {event : Event T ι}
    (hstep : step mode encode world event = some world') :
    world'.history.initialState = world.history.initialState := by
  cases transition_of_step mode encode hstep with
  | tick elapsed => rfl
  | client client htransition => cases htransition <;> rfl
  | owner htransition => cases htransition <;> rfl
  | worker htransition => cases htransition <;> rfl

variable [DecidableEq D] {destination : Destination D} {machine machine' : Machine D}

omit [DecidableEq ι] in
theorem candidates_markOk_subset (original : Option ByteString) (calls : List Call) :
    candidates original (markOk calls) ⊆ candidates original calls := by
  cases calls with
  | nil => exact List.Subset.refl _
  | cons call earlier =>
    rw [markOk, candidates, if_pos rfl, candidates]
    exact List.cons_subset_cons _ (List.nil_subset _)

/-- Only a call adds a candidate. -/
theorem candidates_subset_of_step {happening : Happening}
    (hcall : ∀ encoded, happening ≠ .call encoded)
    (hstep : replacementStep destination machine happening = some machine') :
    machine'.candidates ⊆ machine.candidates := by
  cases replacementTransition_of_step hstep with
  | called encoded => exact absurd rfl (hcall encoded)
  | directorySynced hphase => exact candidates_markOk_subset _ _
  | _ => exact List.Subset.refl _

/-- Only a call changes which image was passed last. -/
theorem isCalledWith_of_step {happening : Happening} {bytes : ByteString} {returnedOk : Bool}
    (hcall : ∀ encoded, happening ≠ .call encoded)
    (hstep : replacementStep destination machine happening = some machine')
    (hbytes : machine.IsCalledWith bytes returnedOk) :
    ∃ returnedOk', machine'.IsCalledWith bytes returnedOk' := by
  cases replacementTransition_of_step hstep with
  | called encoded => exact absurd rfl (hcall encoded)
  | directorySynced hphase =>
    obtain ⟨earlier, hcalls⟩ := hbytes
    refine ⟨true, earlier, ?_⟩
    show markOk machine.calls = _
    rw [hcalls, markOk]
  | _ => exact ⟨_, hbytes⟩

/-- No step changes the record of what was at the path at the beginning. -/
theorem original_of_step {happening : Happening}
    (hstep : replacementStep destination machine happening = some machine') :
    machine'.original = machine.original := by
  cases replacementTransition_of_step hstep <;> rfl

theorem call_eq_some {encoded : ByteString}
    (hstep : replacementStep destination machine (.call encoded) = some machine') :
    machine' = machine.withCall encoded := by
  unfold replacementStep at hstep
  dsimp only at hstep
  split at hstep
  · exact (Option.some.inj hstep).symm
  · exact (Option.some.inj hstep).symm
  · exact nomatch hstep

/-- The persisted epoch changes only where a cycle ends, to the epoch of its snapshot. -/
theorem persistedEpoch_of_step {world world' : World T ι} {event : Event T ι}
    (hstep : step mode encode world event = some world') :
    world'.schedule.persistedEpoch = world.schedule.persistedEpoch ∨
      world.worker = .written world'.schedule.persistedEpoch := by
  cases transition_of_step mode encode hstep with
  | tick elapsed => exact Or.inl rfl
  | client client htransition =>
    cases htransition with
    | recorded hholder hfailure hepochs => exact Or.inl (withMutation_persistedEpoch _ _ _ _)
    | _ => exact Or.inl rfl
  | owner htransition => cases htransition <;> exact Or.inl rfl
  | worker htransition =>
    cases htransition with
    | cycleFinished hphase | cyclePanicked hphase hpanics =>
      rw [finishCycle_persistedEpoch]
      exact Or.inr hphase
    | _ => exact Or.inl rfl

omit [DecidableEq D] in
theorem outcome_eq_succeeds {phase : Phase D} (houtcome : phase.outcome = some .succeeds) :
    phase = .returned (.ok ()) := by
  unfold Phase.outcome at houtcome
  split at houtcome
  · rfl
  · exact nomatch Option.some.inj houtcome
  · exact nomatch houtcome

omit [DecidableEq ι] in
theorem writerStep_encoded {session : Session T ι} {outcome : Outcome} {bytes : ByteString}
    {epoch : ℕ} (hphase : session.world.worker = .encoded bytes epoch) :
    writerStep destination encode session machine (.worker outcome) =
      if machine.phase.outcome = some outcome then some machine else none := by
  unfold writerStep
  rw [hphase]
  cases outcome <;> rfl

/-- The persistence thread has called the writer, or has just got its result. -/
def WorkerPhase.InWriter : WorkerPhase → Prop
  | .encoded _ _ | .written _ => True
  | _ => False

/-- The steps of the component, by what they do with the writer. -/
theorem component_cases {session : Session T ι} {event : Event T ι} {world' : World T ι}
    (hwriter : writerStep destination encode session machine event = some machine')
    (hstep : step session.mode encode session.world event = some world') :
    (∃ epoch, session.world.worker = .snapshotTaken epoch ∧
      replacementStep destination machine (.call (encode session.world.state)) = some machine' ∧
      world' = { session.world with
        holder := none
        worker := .encoded (encode session.world.state) epoch }) ∨
    (∃ bytes epoch, session.world.worker = .encoded bytes epoch ∧
      machine.phase = .returned (.ok ()) ∧ machine' = machine ∧
      world' = { session.world with image := some bytes, worker := .written epoch }) ∨
    machine' = machine ∧
      (world'.worker = session.world.worker ∨ ¬ world'.worker.InWriter) := by
  cases event with
  | tick elapsed =>
    obtain rfl := Option.some.inj hwriter
    obtain rfl := Option.some.inj hstep
    exact Or.inr (Or.inr ⟨rfl, Or.inl rfl⟩)
  | client client action =>
    obtain rfl := Option.some.inj hwriter
    refine Or.inr (Or.inr ⟨rfl, Or.inl ?_⟩)
    cases clientTransition_of_step _ hstep <;> rfl
  | owner action =>
    obtain rfl := Option.some.inj hwriter
    refine Or.inr (Or.inr ⟨rfl, Or.inl ?_⟩)
    cases ownerTransition_of_step hstep <;> rfl
  | worker outcome =>
    have htransition := workerTransition_of_step _ _ hstep
    cases hphase : session.world.worker with
    | snapshotTaken epoch =>
      unfold writerStep at hwriter
      unfold step workerStep at hstep
      rw [hphase] at hwriter hstep
      cases outcome with
      | succeeds =>
        exact Or.inl ⟨epoch, rfl, hwriter, (Option.some.inj hstep).symm⟩
      | fails error =>
        obtain rfl := Option.some.inj hwriter
        obtain rfl := Option.some.inj hstep
        exact Or.inr (Or.inr ⟨rfl, Or.inr id⟩)
      | panics =>
        obtain rfl := Option.some.inj hwriter
        obtain rfl := Option.some.inj hstep
        exact Or.inr (Or.inr ⟨rfl, Or.inr id⟩)
    | encoded bytes epoch =>
      rw [writerStep_encoded hphase] at hwriter
      obtain ⟨houtcome, hmachine⟩ := Option.ite_none_right_eq_some.mp hwriter
      obtain rfl := Option.some.inj hmachine
      unfold step workerStep at hstep
      rw [hphase] at hstep
      cases outcome with
      | succeeds =>
        refine Or.inr (Or.inl ⟨bytes, epoch, rfl, ?_, rfl, (Option.some.inj hstep).symm⟩)
        exact outcome_eq_succeeds houtcome
      | fails error =>
        obtain rfl := Option.some.inj hstep
        exact Or.inr (Or.inr ⟨rfl, Or.inr id⟩)
      | panics =>
        obtain rfl := Option.some.inj hstep
        exact Or.inr (Or.inr ⟨rfl, Or.inr id⟩)
    | _ =>
      have hmachine : machine' = machine := by
        unfold writerStep at hwriter
        rw [hphase] at hwriter
        cases outcome <;> exact (Option.some.inj hwriter).symm
      refine Or.inr (Or.inr ⟨hmachine, ?_⟩)
      rw [← hphase]
      cases htransition with
      | encoded hphase' => exact nomatch hphase.symm.trans hphase'
      | written hphase' => exact nomatch hphase.symm.trans hphase'
      | slept => exact Or.inl rfl
      | sleptUnarmed => exact Or.inl rfl
      | _ => exact Or.inr id

end Steps

/-! ### The invariant -/

section Invariant

variable [DecidableEq ι] [DecidableEq D] (destination : Destination D) (encode : T → ByteString)
  (restore : Option ByteString → T)

/-- What the file may have after a crash holds what is to be kept of the sessions. -/
def RecoversSessions (sessions : List (Session T ι)) (machine : Machine D) : Prop :=
  ∀ contents ∈ machine.candidates, ∃ state, Survives (restore machine.original) sessions state ∧
    Holds encode restore machine.original contents state

/-- What the file may have after a crash contains every mutation of the present session up to the
epoch, and what is to be kept of the sessions before. -/
def RecoversTo (past : List (Session T ι)) (machine : Machine D) (history : History T)
    (epoch : ℕ) : Prop :=
  ∀ contents ∈ machine.candidates,
    Recoverable encode restore machine.original past history contents epoch

/-- The image in the writer is the one that the persistence thread has passed; with the result
`Ok`, the file has it. -/
def WriterSound (past : List (Session T ι)) (machine : Machine D) (world : World T ι) : Prop :=
  match world.worker with
  | .encoded bytes _ => ∃ returnedOk, machine.IsCalledWith bytes returnedOk
  | .written epoch => RecoversTo encode restore past machine world.history epoch
  | _ => True

/-- The invariant of the present session. -/
structure Session.Sound (past : List (Session T ι)) (machine : Machine D)
    (session : Session T ι) : Prop where
  reachable : (persistence session.mode encode).Reachable session.world
  origin : Survives (restore machine.original) past session.world.history.initialState
  recovers : RecoversTo encode restore past machine session.world.history
    session.world.schedule.persistedEpoch
  writer : WriterSound encode restore past machine session.world

/-- The invariant of all runs. -/
structure Deployment.Sound (deployment : Deployment T ι D) : Prop where
  safe : IsSafe destination deployment.machine
  sessions :
    match deployment.present with
    | none => RecoversSessions encode restore deployment.past deployment.machine
    | some session => session.Sound encode restore deployment.past deployment.machine

variable {destination encode restore} {past : List (Session T ι)} {session : Session T ι}
  {machine machine' : Machine D}

omit [DecidableEq ι] [DecidableEq D] in
theorem WriterSound.of_not_inWriter {world : World T ι} (hphase : ¬ world.worker.InWriter) :
    WriterSound encode restore past machine world := by
  unfold WriterSound
  cases hcase : world.worker with
  | encoded bytes epoch =>
    rw [hcase] at hphase
    exact absurd trivial hphase
  | written epoch =>
    rw [hcase] at hphase
    exact absurd trivial hphase
  | _ => trivial

omit [DecidableEq D] in
/-- A step of the component leaves what the file recovers to, as far as mutations were recorded. -/
theorem RecoversTo.component {world' : World T ι} {event : Event T ι} {epoch : ℕ}
    (hrecovers : RecoversTo encode restore past machine session.world.history epoch)
    (hepoch : epoch ≤ session.world.schedule.mutationEpoch)
    (hstep : step session.mode encode session.world event = some world') :
    RecoversTo encode restore past machine world'.history epoch :=
  fun contents hmem ↦ (hrecovers contents hmem).imp fun _ ↦ imageCovers_of_step hstep hepoch

omit [DecidableEq D] in
/-- The present session is coherent. -/
theorem Session.Sound.coherent (hsound : session.Sound encode restore past machine) :
    Coherent encode session.world :=
  coherent_of_reachable hsound.reachable

omit [DecidableEq D] in
/-- A step of the component outside the writer keeps the invariant. -/
theorem Session.Sound.stepped {world' : World T ι} {event : Event T ι}
    (hsound : session.Sound encode restore past machine)
    (hstep : step session.mode encode session.world event = some world')
    (hphase : world'.worker = session.world.worker ∨ ¬ world'.worker.InWriter) :
    ({ session with world := world' } : Session T ι).Sound encode restore past machine := by
  have hworld := hsound.coherent
  have hwriter := hsound.writer
  have hworker := hworld.worker
  unfold WriterSound at hwriter
  unfold WorkerCoherent at hworker
  refine ⟨.next hsound.reachable trivial hstep, ?_, ?_, ?_⟩
  · show Survives _ _ world'.history.initialState
    rw [initialState_of_step hstep]
    exact hsound.origin
  · show RecoversTo _ _ _ _ world'.history world'.schedule.persistedEpoch
    rcases persistedEpoch_of_step hstep with hsame | hwritten
    · rw [hsame]
      exact hsound.recovers.component hworld.persisted_le hstep
    · rw [hwritten] at hwriter hworker
      exact RecoversTo.component hwriter hworker.2.1 hstep
  · rcases hphase with hsame | hout
    · unfold WriterSound
      dsimp only
      rw [hsame]
      cases hcase : session.world.worker with
      | encoded bytes epoch =>
        rw [hcase] at hwriter
        exact hwriter
      | written epoch =>
        rw [hcase] at hwriter hworker
        exact RecoversTo.component hwriter hworker.2.1 hstep
      | _ => trivial
    · exact .of_not_inWriter hout

/-- The image with which the writer is called becomes one that the file may have. -/
theorem Session.Sound.called {world' : World T ι} {event : Event T ι} {epoch : ℕ}
    (hsound : session.Sound encode restore past machine)
    (hmachine : replacementStep destination machine (.call (encode session.world.state)) =
      some machine')
    (hstep : step session.mode encode session.world event = some world')
    (hworld' : world' = { session.world with
      holder := none
      worker := .encoded (encode session.world.state) epoch }) :
    ({ session with world := world' } : Session T ι).Sound encode restore past machine' := by
  have hreachable : (persistence session.mode encode).Reachable world' :=
    .next hsound.reachable trivial hstep
  have hworker := (coherent_of_reachable hreachable).worker
  have hrecovers := hsound.recovers.component hsound.coherent.persisted_le hstep
  obtain rfl := call_eq_some hmachine
  subst hworld'
  unfold WorkerCoherent at hworker
  refine ⟨hreachable, hsound.origin, ?_, ⟨false, machine.calls, rfl⟩⟩
  intro contents hmem
  rcases List.mem_cons.mp hmem with rfl | hbefore
  · exact Or.inl ⟨_, rfl, hworker.2.2.mono hworker.1⟩
  · exact hrecovers contents hbefore

omit [DecidableEq ι] in
/-- Once the call has returned `Ok`, its image is the only one that the file may have. -/
theorem candidates_of_returned {bytes : ByteString} (hsafe : IsSafe destination machine)
    (hphase : machine.phase = .returned (.ok ()))
    (hcalled : ∃ returnedOk, machine.IsCalledWith bytes returnedOk) :
    machine.candidates = [some bytes] := by
  have hcoheres := hsafe.coheres
  unfold Coheres at hcoheres
  rw [hphase] at hcoheres
  obtain ⟨encoded, ⟨earlier, hcalls⟩, -⟩ := hcoheres
  obtain ⟨returnedOk, earlier', hcalls'⟩ := hcalled
  obtain ⟨hcall, -⟩ := List.cons.inj (hcalls.symm.trans hcalls')
  obtain ⟨rfl, -⟩ := Call.mk.inj hcall
  rw [Machine.candidates, hcalls, candidates, if_pos rfl]

/-- The image that the writer has written covers its snapshot. -/
theorem Session.Sound.written {world' : World T ι} {event : Event T ι} {bytes : ByteString}
    {epoch : ℕ} (hsafe : IsSafe destination machine)
    (hsound : session.Sound encode restore past machine)
    (hphase : session.world.worker = .encoded bytes epoch)
    (hreturned : machine.phase = .returned (.ok ()))
    (hstep : step session.mode encode session.world event = some world')
    (hworld' : world' = { session.world with image := some bytes, worker := .written epoch }) :
    ({ session with world := world' } : Session T ι).Sound encode restore past machine := by
  have hworker := hsound.coherent.worker
  have hwriter := hsound.writer
  unfold WorkerCoherent at hworker
  unfold WriterSound at hwriter
  rw [hphase] at hworker hwriter
  have hrecovers := hsound.recovers.component hsound.coherent.persisted_le hstep
  have hreachable : (persistence session.mode encode).Reachable world' :=
    .next hsound.reachable trivial hstep
  have hcandidates := candidates_of_returned hsafe hreturned hwriter
  subst hworld'
  refine ⟨hreachable, hsound.origin, hrecovers, ?_⟩
  intro contents hmem
  rw [hcandidates, List.mem_singleton] at hmem
  exact Or.inl ⟨bytes, hmem, hworker.2.2⟩

omit [DecidableEq ι] in
/-- What the file recovers to while only system calls happen. -/
theorem RecoversTo.machine_step {happening : Happening} {history : History T} {epoch : ℕ}
    (hrecovers : RecoversTo encode restore past machine history epoch)
    (hcall : ∀ encoded, happening ≠ .call encoded)
    (hstep : replacementStep destination machine happening = some machine') :
    RecoversTo encode restore past machine' history epoch := by
  intro contents hmem
  rw [original_of_step hstep]
  exact hrecovers contents (candidates_subset_of_step hcall hstep hmem)

/-- A system call of the writer, and what else happens on the machine within the session. -/
theorem Session.Sound.machine_step {happening : Happening}
    (hsound : session.Sound encode restore past machine)
    (hcall : ∀ encoded, happening ≠ .call encoded)
    (hstep : replacementStep destination machine happening = some machine') :
    session.Sound encode restore past machine' := by
  have hwriter := hsound.writer
  refine ⟨hsound.reachable, ?_, hsound.recovers.machine_step hcall hstep, ?_⟩
  · rw [original_of_step hstep]
    exact hsound.origin
  · unfold WriterSound at hwriter ⊢
    cases hcase : session.world.worker with
    | encoded bytes epoch =>
      rw [hcase] at hwriter
      obtain ⟨returnedOk, hcalled⟩ := hwriter
      exact isCalledWith_of_step hcall hstep hcalled
    | written epoch =>
      rw [hcase] at hwriter
      exact RecoversTo.machine_step hwriter hcall hstep
    | _ => trivial

omit [DecidableEq ι] in
theorem RecoversSessions.machine_step {happening : Happening}
    (hrecovers : RecoversSessions encode restore past machine)
    (hcall : ∀ encoded, happening ≠ .call encoded)
    (hstep : replacementStep destination machine happening = some machine') :
    RecoversSessions encode restore past machine' := by
  intro contents hmem
  rw [original_of_step hstep]
  exact hrecovers contents (candidates_subset_of_step hcall hstep hmem)

/-! ### Runs -/

variable {deployment deployment' : Deployment T ι D}

/-- What the file may have is kept of all sessions. -/
theorem Deployment.Sound.recovers (hsound : deployment.Sound destination encode restore) :
    RecoversSessions encode restore deployment.sessions deployment.machine := by
  have hsessions := hsound.sessions
  unfold Deployment.sessions
  cases hpresent : deployment.present with
  | none =>
    rw [hpresent] at hsessions
    rw [Option.toList_none, List.append_nil]
    exact hsessions
  | some session =>
    rw [hpresent] at hsessions
    intro contents hmem
    exact (hsessions.recovers contents hmem).survives hsessions.reachable hsessions.origin

omit [DecidableEq ι] in
/-- Only the creation of a temporary file creates one. -/
theorem createsBeside_of_ne {happening : Happening}
    (hproceed : ∀ count, happening ≠ .proceed count) :
    StatePersistence.CreatesBeside destination machine happening :=
  fun _ count _ hproceeds ↦ absurd hproceeds (hproceed count)

/-- A system call of the writer, or what else happens on the machine. -/
theorem Deployment.Sound.machine_step {happening : Happening}
    (hsound : deployment.Sound destination encode restore)
    (hbeside : StatePersistence.CreatesBeside destination deployment.machine happening)
    (hcall : ∀ encoded, happening ≠ .call encoded)
    (hstep : replacementStep destination deployment.machine happening = some machine') :
    ({ deployment with machine := machine' } : Deployment T ι D).Sound destination encode
      restore := by
  have hsessions := hsound.sessions
  refine ⟨hsound.safe.next hbeside (replacementTransition_of_step hstep), ?_⟩
  dsimp only
  cases hpresent : deployment.present with
  | none =>
    rw [hpresent] at hsessions
    exact RecoversSessions.machine_step hsessions hcall hstep
  | some session =>
    rw [hpresent] at hsessions
    exact Session.Sound.machine_step hsessions hcall hstep

/-- The end of a session. -/
theorem Deployment.Sound.ended (hsound : deployment.Sound destination encode restore) :
    (⟨deployment.sessions, none, deployment.machine⟩ : Deployment T ι D).Sound destination encode
      restore :=
  ⟨hsound.safe, hsound.recovers⟩

/-- A session starts with a state that is kept of those before. -/
theorem Session.sound_of_start {mode : PersistenceMode} {now : ℕ}
    (hrestore : ∀ state, restore (some (encode state)) = state)
    (hsafe : IsSafe destination machine) (hrecovers : RecoversSessions encode restore past machine)
    (hstart : startSession destination restore machine mode now = .ok session) :
    session.Sound encode restore past machine := by
  obtain ⟨hmode, hsession⟩ := FallibleResult.unit_bind_eq_ok_iff.mp hstart
  obtain rfl := Except.ok.inj hsession
  refine ⟨.start ⟨hmode, _, _, rfl⟩, ?_, ?_, trivial⟩
  · obtain ⟨state, hsurvives, hholds⟩ := hrecovers _ hsafe.present
    show Survives _ _ (restore (machine.contents destination))
    rw [hholds.restore_eq hrestore]
    exact hsurvives
  · intro contents hmem
    exact Or.inr ⟨fun mutation hrecorded ↦ absurd hrecorded List.not_mem_nil,
      hrecovers contents hmem⟩

/-- Every step that creates no temporary file at the path keeps the invariant. -/
theorem Deployment.Sound.next {event : DeploymentEvent T ι}
    (hrestore : ∀ state, restore (some (encode state)) = state)
    (hsound : deployment.Sound destination encode restore)
    (hbeside : deployment.CreatesBeside destination event)
    (hstep : deploymentStep destination encode restore deployment event = some deployment') :
    deployment'.Sound destination encode restore := by
  unfold deploymentStep at hstep
  cases event with
  | start mode now =>
    dsimp only at hstep
    split at hstep
    · next hpresent hstart =>
      obtain rfl := Option.some.inj hstep
      have hrecovers := hsound.sessions
      rw [hpresent] at hrecovers
      exact ⟨hsound.safe, Session.sound_of_start hrestore hsound.safe hrecovers hstart⟩
    · exact nomatch hstep
  | component event =>
    obtain ⟨session, hpresent, hrest⟩ := Option.bind_eq_some_iff.mp hstep
    obtain ⟨machine', hwriter, hrest⟩ := Option.bind_eq_some_iff.mp hrest
    obtain ⟨world', hworld, hdeployment⟩ := Option.bind_eq_some_iff.mp hrest
    obtain rfl := Option.some.inj hdeployment
    have hsession := hsound.sessions
    rw [hpresent] at hsession
    rcases component_cases hwriter hworld with
      ⟨epoch, hphase, hmachine, hcalled⟩ | ⟨bytes, epoch, hphase, hreturned, rfl, hwritten⟩ |
        ⟨rfl, hphase⟩
    · exact ⟨hsound.safe.next (createsBeside_of_ne (by nofun))
        (replacementTransition_of_step hmachine), hsession.called hmachine hworld hcalled⟩
    · exact ⟨hsound.safe, hsession.written hsound.safe hphase hreturned hworld hwritten⟩
    · exact ⟨hsound.safe, hsession.stepped hworld hphase⟩
  | proceed count =>
    obtain ⟨machine', hmachine, hdeployment⟩ := Option.bind_eq_some_iff.mp hstep
    obtain rfl := Option.some.inj hdeployment
    exact hsound.machine_step (hbeside count rfl) (by nofun) hmachine
  | fail error =>
    obtain ⟨machine', hmachine, hdeployment⟩ := Option.bind_eq_some_iff.mp hstep
    obtain rfl := Option.some.inj hdeployment
    exact hsound.machine_step (createsBeside_of_ne (by nofun)) (by nofun) hmachine
  | callElsewhere =>
    obtain ⟨machine', hmachine, hdeployment⟩ := Option.bind_eq_some_iff.mp hstep
    obtain rfl := Option.some.inj hdeployment
    exact hsound.machine_step (createsBeside_of_ne (by nofun)) (by nofun) hmachine
  | stop =>
    obtain ⟨session, hpresent, hrest⟩ := Option.bind_eq_some_iff.mp hstep
    obtain ⟨-, hdeployment⟩ := Option.ite_none_right_eq_some.mp hrest
    obtain rfl := Option.some.inj hdeployment
    have hended := hsound.ended
    unfold Deployment.sessions at hended
    rw [hpresent, Option.toList_some] at hended
    exact hended
  | restart process =>
    obtain ⟨machine', hmachine, hdeployment⟩ := Option.bind_eq_some_iff.mp hstep
    obtain rfl := Option.some.inj hdeployment
    exact (hsound.machine_step (createsBeside_of_ne (by nofun)) (by nofun) hmachine).ended
  | crash kept left process =>
    obtain ⟨machine', hmachine, hdeployment⟩ := Option.bind_eq_some_iff.mp hstep
    obtain rfl := Option.some.inj hdeployment
    exact (hsound.machine_step (createsBeside_of_ne (by nofun)) (by nofun) hmachine).ended

theorem Deployment.sound_of_isStart (hstart : deployment.IsStart destination) :
    deployment.Sound destination encode restore := by
  refine ⟨isSafe_of_isStart hstart.machine, ?_⟩
  rw [hstart.present]
  intro contents hmem
  rw [Machine.candidates, hstart.machine.calls, candidates, List.mem_singleton] at hmem
  rw [hstart.past]
  exact ⟨_, ⟨[], .nil, rfl⟩, Or.inr ⟨hmem, rfl⟩⟩

theorem Deployment.sound_of_reachable (hrestore : ∀ state, restore (some (encode state)) = state)
    (hreachable : (deployments destination encode restore).ReachableBy
      (Deployment.CreatesBeside destination) deployment) :
    deployment.Sound destination encode restore := by
  refine hreachable.invariant (Deployment.Sound destination encode restore)
    (fun _ hstart ↦ sound_of_isStart hstart) ?_
  intro deployment event deployment' _ hbeside hsound hstep
  exact hsound.next hrestore hbeside hstep

/-- In every run that creates no temporary file at the path itself, with any interleaving of the
clients, the persistence thread and the system calls of its writer, and sessions that end at any
moment: a session starts with a state that has, of each session before, a prefix of its edits that
contains every edit made before an acknowledged mutation was recorded, and its state is that with
all its edits; and the file has now, and after any crash, the encoding of such a state, or what was
there at the beginning. -/
theorem acknowledged_edits_survive (destination : Destination D) (encode : T → ByteString)
    (restore : Option ByteString → T) (hrestore : ∀ state, restore (some (encode state)) = state)
    {deployment : Deployment T ι D}
    (hreachable : (deployments destination encode restore).ReachableBy
      (Deployment.CreatesBeside destination) deployment) :
    (∀ session, deployment.present = some session →
      Survives (restore deployment.machine.original) deployment.past
        session.world.history.initialState ∧
      session.world.state =
        session.world.history.stateAfter session.world.history.edits.length) ∧
    (∃ state, Survives (restore deployment.machine.original) deployment.sessions state ∧
      Holds encode restore deployment.machine.original
        (deployment.machine.contents destination) state) ∧
    ∀ kept left process machine',
      replacementStep destination deployment.machine (.crash kept left process) = some machine' →
        ∃ state, Survives (restore deployment.machine.original) deployment.sessions state ∧
          Holds encode restore deployment.machine.original
            (machine'.contents destination) state := by
  have hsound := Deployment.sound_of_reachable hrestore hreachable
  refine ⟨?_, hsound.recovers _ hsound.safe.present, ?_⟩
  · intro session hpresent
    have hsession := hsound.sessions
    rw [hpresent] at hsession
    exact ⟨hsession.origin, hsession.coherent.state_eq⟩
  · intro kept left process machine' hstep
    exact hsound.recovers _ (hsound.safe.isAtomic.recovered kept left process machine' hstep)

end Invariant

/-! ### A byte in a file -/

/-- A byte is encoded as itself; a file without it holds zero. -/
def restoreByte : Option ByteString → UInt8
  | some (byte :: _) => byte
  | _ => 0

/-- The sessions that keep a byte in `/state`, for two clients. -/
abbrev byteSessions : TransitionSystem (Deployment UInt8 Bool Unit) (DeploymentEvent UInt8 Bool) :=
  deployments plainFile (fun byte ↦ [byte]) restoreByte

/-- A client edits the byte and records a mutation, and the persistence thread takes its snapshot,
encodes it and calls the writer. -/
def recordedEdit (edit : UInt8 → UInt8) : List (DeploymentEvent UInt8 Bool) :=
  [.component (.client true .lockState), .component (.client true (.editState edit)),
    .component (.client true .recordMutation), .component (.client true .unlockState),
    .component (.worker .succeeds), .component (.worker .succeeds),
    .component (.worker .succeeds), .component (.worker .succeeds)]

/-- The first edit is waited for; after the rename for the second one, the machine crashes and the
rename is lost. -/
def crashedRun : List (DeploymentEvent UInt8 Bool) :=
  .start .immediate 0 :: recordedEdit (· + 5) ++
    [.proceed 0, .proceed 1, .proceed 0, .proceed 0, .proceed 0, .proceed 0,
      .component (.worker .succeeds), .component (.worker .succeeds),
      .component (.client true (.callWait ⟨1, true⟩)), .component (.client true .pass)] ++
    recordedEdit (· * 2) ++
    [.proceed 0, .proceed 1, .proceed 0, .proceed 0, .crash [] (fun _ ↦ []) 8,
      .start .immediate 0]

/-- After the crash the byte has the first edit, which was acknowledged, and not the second. -/
theorem acknowledged_edits_survive_crashedRun :
    ∃ deployment session, byteSessions.run ⟨[], none, emptyMachine 7⟩ crashedRun =
        some deployment ∧
      deployment.past.map (fun session ↦ session.world.acknowledged) = [[.wait ⟨1, true⟩]] ∧
      deployment.present = some session ∧ session.world.state = 5 ∧
      Survives 0 deployment.past session.world.history.initialState := by
  have hfinal : (byteSessions.run ⟨[], none, emptyMachine 7⟩ crashedRun).map
      (fun deployment ↦ (deployment.past.map fun session ↦ session.world.acknowledged,
        deployment.present.map fun session ↦ session.world.state, deployment.machine.original)) =
      some ([[.wait ⟨1, true⟩]], some 5, none) := by decide +kernel
  obtain ⟨deployment, hrun, hdeployment⟩ := Option.map_eq_some_iff.mp hfinal
  obtain ⟨hacknowledged, hrest⟩ := Prod.mk.inj hdeployment
  obtain ⟨hpresent, horiginal⟩ := Prod.mk.inj hrest
  obtain ⟨session, hsession, hstate⟩ := Option.map_eq_some_iff.mp hpresent
  have hstart : (⟨[], none, emptyMachine 7⟩ : Deployment UInt8 Bool Unit).IsStart plainFile :=
    ⟨isStart_emptyMachine _ 7, rfl, rfl⟩
  have hreachable : byteSessions.ReachableBy (Deployment.CreatesBeside plainFile) deployment := by
    refine ReachableBy.run (.start hstart) ?_ hrun
    intro event _ state count _
    exact createsBeside_of_fileStem (by decide +kernel) state.machine (.proceed count)
  have hsurvives := ((acknowledged_edits_survive plainFile (fun byte ↦ [byte]) restoreByte
    (fun _ ↦ rfl) hreachable).1 session hsession).1
  rw [horiginal] at hsurvives
  exact ⟨deployment, session, hrun, hacknowledged, hsession, hstate, hsurvives⟩

end SoftwareKeyCore.StatePersistence
