import SoftwareKeyCore.StatePersistence.LockExclusion
import SoftwareKeyCore.StatePersistence.Sessions

/-!
# Sessions under the state lock

Any number of processes that use one state file the way `StateLock` asks them to: a process starts a
component with the state of the file while it has the guard of the lock file, and drops the guard
once the component was stopped. Processes fork, execute other programs, and end at any moment, and
the machine crashes; each component has a writer of its own, and all of them write to one disk.
`Device.Keeps` is what the users of the lock must see to: no temporary file is the state file, and
no forked child drops its copy of a guard.

At most one component runs at a time, so that the processes together make a run of sessions one
after the other (`Device.Serves`), and what was acknowledged in any of them survives
(`locked_sessions_survive`).
-/

set_option autoImplicit false
set_option relaxedAutoImplicit false

namespace SoftwareKeyCore.StatePersistence

open CrashDisk TransitionSystem

variable {Name ι T κ D : Type}

/-- A component that runs under a guard: which session it is, and where its writer is. -/
structure Owner (D : Type) where
  session : ℕ
  phase : Phase D

/-- The locks, the components that run under the guards, all sessions so far, the counter
`NEXT_TEMPORARY_FILE` of each process, and the disk. -/
structure Device (Name ι T κ D : Type) where
  locks : LockWorld Name ι
  owners : ι → Option (Owner D)
  sessions : List (Session T κ)
  counters : ℕ → ℕ
  disk : Disk FileName UInt8
  calls : List Call
  original : Option ByteString

/-- What happens next. A session is started, goes on and is stopped under the guard of a call. -/
inductive DeviceEvent (Name ι T κ : Type)
  | lock (event : LockEvent Name ι)
  | start (call : ι) (mode : PersistenceMode) (now : ℕ)
  | component (call : ι) (event : Event T κ)
  | proceed (call : ι) (count : ℕ)
  | fail (call : ι) (error : IoError)
  | callElsewhere (process : ℕ)
  | stop (call : ι)
  | crash (kept : List (Operation FileName)) (left : ℕ → ByteString) (lost : Name → Bool)

/-- After a crash nothing is open or locked, and entries may be lost. -/
def LockWorld.crash (world : LockWorld Name ι) (lost : Name → Bool) : LockWorld Name ι where
  entries := fun name ↦ if lost name then none else world.entries name
  nextFile := world.nextFile
  table := ⟨fun _ ↦ 0, [], fun _ ↦ none, 0⟩
  calls := fun _ ↦ .idle
  copies := []

/-- What a writer in the process sees of the device. -/
def Device.machine (device : Device Name ι T κ D) (process : ℕ) (phase : Phase D) : Machine D where
  disk := device.disk
  process := process
  nextTemporaryFile := device.counters process
  phase := phase
  calls := device.calls
  original := device.original

/-- The component under a guard, its process and its session. -/
def Device.ownerOf (device : Device Name ι T κ D) (call : ι) :
    Option (Owner D × ℕ × Session T κ) := do
  let owner ← device.owners call
  let process ← (device.locks.calls call).process
  let session ← device.sessions[owner.session]?
  some (owner, process, session)

/-- The guard is not dropped before the component was stopped. -/
def Device.Permits (device : Device Name ι T κ D) : LockEvent Name ι → Bool
  | .dropGuard call => (device.owners call).isNone
  | _ => true

section System

variable [DecidableEq Name] [DecidableEq ι] [DecidableEq κ] [DecidableEq D]
  (display : Name → String) (lockName : Name) (destination : Destination D)
  (encode : T → ByteString) (restore : Option ByteString → T)

/-- The component under the guard, and the device, after a step of its writer. -/
def Device.setMachine (device : Device Name ι T κ D) (call : ι) (owner : Owner D)
    (machine : Machine D) : Device Name ι T κ D :=
  { device with
    owners := Function.update device.owners call (some { owner with phase := machine.phase })
    counters := Function.update device.counters machine.process machine.nextTemporaryFile
    disk := machine.disk
    calls := machine.calls }

/-- A step of the locks; a component ends with its guard, and a counter with its process. -/
def Device.setLocks (device : Device Name ι T κ D) (locks : LockWorld Name ι)
    (event : LockEvent Name ι) : Device Name ι T κ D :=
  { device with
    locks := locks
    owners := fun call ↦
      match locks.calls call with
      | .held _ _ _ => device.owners call
      | _ => none
    counters :=
      match event with
      | .exit process => Function.update device.counters process 0
      | _ => device.counters }

/-- One step. -/
def deviceStep (device : Device Name ι T κ D) :
    DeviceEvent Name ι T κ → Option (Device Name ι T κ D)
  | .lock event => do
    let locks ← lockStep display device.locks event
    if device.Permits event then some (device.setLocks locks event) else none
  | .start call mode now =>
    match device.locks.calls call, device.owners call with
    | .held process name _, none =>
      if name = lockName then
        match startSession destination restore (device.machine process .idle) mode now with
        | .error _ => none
        | .ok session => some { device with
            owners := Function.update device.owners call
              (some ⟨device.sessions.length, .idle⟩)
            sessions := device.sessions ++ [session] }
      else none
    | _, _ => none
  | .component call event => do
    let (owner, process, session) ← device.ownerOf call
    let machine ← writerStep destination encode session (device.machine process owner.phase) event
    let world ← step session.mode encode session.world event
    some { device.setMachine call owner machine with
      sessions := device.sessions.set owner.session { session with world := world } }
  | .proceed call count => do
    let (owner, process, _) ← device.ownerOf call
    let machine ← replacementStep destination (device.machine process owner.phase)
      (.proceed count)
    some (device.setMachine call owner machine)
  | .fail call error => do
    let (owner, process, _) ← device.ownerOf call
    let machine ← replacementStep destination (device.machine process owner.phase) (.fail error)
    some (device.setMachine call owner machine)
  | .callElsewhere process =>
    some { device with
      counters := Function.update device.counters process
        ((device.counters process + 1) % 2 ^ 64) }
  | .stop call => do
    let (_, _, session) ← device.ownerOf call
    if session.HasStopped then
      some { device with owners := Function.update device.owners call none }
    else none
  | .crash kept left lost => do
    let machine ← replacementStep destination (device.machine 0 .idle) (.crash kept left 0)
    some { device with
      locks := device.locks.crash lost
      owners := fun _ ↦ none
      counters := fun _ ↦ 0
      disk := machine.disk }

/-- At the beginning there is no guard and no session, and the entries are on the medium. -/
structure Device.IsStart (device : Device Name ι T κ D) : Prop where
  locks : device.locks.IsStart
  owners : ∀ call, device.owners call = none
  sessions : device.sessions = []
  counters : ∀ process, device.counters process < 2 ^ 64
  machine : StatePersistence.IsStart destination (device.machine 0 .idle)

/-- Processes that share a state file under its lock. -/
def devices : TransitionSystem (Device Name ι T κ D) (DeviceEvent Name ι T κ) where
  Initial := Device.IsStart destination
  step := deviceStep display lockName destination encode restore

/-- The step creates no temporary file at the path itself. -/
def Device.CreatesBeside (device : Device Name ι T κ D) (event : DeviceEvent Name ι T κ) : Prop :=
  ∀ call count owner process session, event = .proceed call count →
    device.ownerOf call = some (owner, process, session) →
      StatePersistence.CreatesBeside destination (device.machine process owner.phase)
        (.proceed count)

/-- Nor is the step that a forked child drops its copy of a guard. -/
def Device.Keeps (device : Device Name ι T κ D) (event : DeviceEvent Name ι T κ) : Prop :=
  device.CreatesBeside destination event ∧
    ∀ lockEvent, event = .lock lockEvent → device.locks.DropsNoCopy lockEvent

end System

/-! ### One session at a time -/

section Refinement

variable [DecidableEq Name] [DecidableEq ι] [DecidableEq κ] [DecidableEq D]
  (display : Name → String) (lockName : Name) (destination : Destination D)
  (encode : T → ByteString) (restore : Option ByteString → T)

/-- The sessions of the deployment are those of the device, and the component that runs under a
guard of the lock file is its present one. -/
structure Device.Serves (device : Device Name ι T κ D) (deployment : Deployment T κ D) : Prop where
  sessions : deployment.sessions = device.sessions
  disk : deployment.machine.disk = device.disk
  calls : deployment.machine.calls = device.calls
  original : deployment.machine.original = device.original
  owner : ∀ call owner, device.owners call = some owner →
    owner.session = deployment.past.length ∧ ∃ session process description,
      deployment.present = some session ∧
      device.locks.calls call = .held process lockName description ∧
      deployment.machine = device.machine process owner.phase
  idle : (∀ call, device.owners call = none) → deployment.present = none

/-- The invariant of all runs. -/
structure Device.Sound (device : Device Name ι T κ D) : Prop where
  locks : (stateLocks display).ReachableBy LockWorld.DropsNoCopy device.locks
  counters : ∀ process, device.counters process < 2 ^ 64
  refined : ∃ deployment, (deployments destination encode restore).ReachableBy
    (Deployment.CreatesBeside destination) deployment ∧ device.Serves lockName deployment

variable {display lockName destination encode restore} {device device' : Device Name ι T κ D}
  {deployment deployment' : Deployment T κ D}

omit [DecidableEq κ] [DecidableEq D] in
/-- Two components do not run at once. -/
theorem Device.Serves.owner_unique (hserves : device.Serves lockName deployment)
    (hlocks : (stateLocks display).ReachableBy LockWorld.DropsNoCopy device.locks)
    {call other : ι}
    {owner owner' : Owner D} (hcall : device.owners call = some owner)
    (hother : device.owners other = some owner') : call = other := by
  obtain ⟨-, _, _, _, -, hheld, -⟩ := hserves.owner call owner hcall
  obtain ⟨-, _, _, _, -, hheld', -⟩ := hserves.owner other owner' hother
  exact (stateLock_exclusive display hlocks).1 call other lockName lockName
    (by rw [hheld]; rfl) (by rw [hheld']; rfl) rfl

omit [DecidableEq Name] [DecidableEq ι] [DecidableEq κ] [DecidableEq D] in
/-- The component that runs is the present one. -/
theorem Device.Serves.ownerOf (hserves : device.Serves lockName deployment) {call : ι}
    {owner : Owner D} {process : ℕ} {session : Session T κ}
    (howner : device.ownerOf call = some (owner, process, session)) :
    device.owners call = some owner ∧ owner.session = deployment.past.length ∧
      deployment.present = some session ∧
      deployment.machine = device.machine process owner.phase ∧
      ∃ description, device.locks.calls call = .held process lockName description := by
  obtain ⟨owner', hcall, hrest⟩ := Option.bind_eq_some_iff.mp howner
  obtain ⟨process', hprocess, hrest⟩ := Option.bind_eq_some_iff.mp hrest
  obtain ⟨session', hsession, hrest⟩ := Option.bind_eq_some_iff.mp hrest
  obtain ⟨rfl, rfl, rfl⟩ : owner' = owner ∧ process' = process ∧ session' = session := by
    simpa using hrest
  obtain ⟨hindex, session, process, description, hpresent, hheld, hmachine⟩ :=
    hserves.owner call owner' hcall
  rw [hheld] at hprocess
  obtain rfl := Option.some.inj hprocess
  rw [hindex, ← hserves.sessions, Deployment.sessions, hpresent, Option.toList_some,
    List.getElem?_concat_length, Option.some.injEq] at hsession
  exact ⟨hcall, hindex, hsession ▸ hpresent, hmachine, description, hheld⟩

omit [DecidableEq Name] [DecidableEq κ] [DecidableEq D] in
/-- A step of the present component and of its writer. -/
theorem Device.Serves.setMachine {call : ι} {owner : Owner D} {process description : ℕ}
    {session : Session T κ} {machine : Machine D} {sessions : List (Session T κ)}
    (hunique : ∀ other owner', device.owners other = some owner' → other = call)
    (hindex : owner.session = deployment.past.length)
    (hheld : device.locks.calls call = .held process lockName description)
    (hprocess : machine.process = process) (horiginal : machine.original = device.original)
    (hsessions : sessions = deployment.past ++ [session]) :
    ({ device.setMachine call owner machine with sessions := sessions } :
      Device Name ι T κ D).Serves lockName ⟨deployment.past, some session, machine⟩ := by
  refine ⟨hsessions.symm, rfl, rfl, horiginal, ?_, ?_⟩
  · intro other owner' hother
    have hsame : other = call := by
      by_contra hne
      exact hne (hunique other owner' ((Function.update_of_ne hne _ _).symm.trans hother))
    subst hsame
    obtain rfl := Option.some.inj ((Function.update_self other _ _).symm.trans hother)
    refine ⟨hindex, session, process, description, rfl, hheld, ?_⟩
    subst hprocess
    unfold Device.machine Device.setMachine
    dsimp only
    rw [Function.update_self, ← horiginal]
  · intro hnone
    exact absurd ((Function.update_self call _ _).symm.trans (hnone call)) (Option.some_ne_none _)

/-! ### Steps -/

/-- A guard that is alive stays while it is not dropped and no process ends. -/
theorem held_of_transition {world world' : LockWorld Name ι} {event : LockEvent Name ι} {call : ι}
    {process : ℕ} {name : Name} {description : ℕ}
    (hheld : world.calls call = .held process name description)
    (hdrop : event ≠ .dropGuard call) (hexit : ∀ ended, event ≠ .exit ended)
    (htransition : LockTransition world event world') :
    world'.calls call = .held process name description := by
  have hother : ∀ other phase, world.calls other ≠ .held process name description →
      Function.update world.calls other phase call = .held process name description := by
    intro other phase hother
    have hne : call ≠ other := by
      rintro rfl
      exact hother hheld
    exact (Function.update_of_ne hne _ _).trans hheld
  have hclosed : ∀ other phase, (world.calls other).description = none →
      Function.update world.calls other phase call = .held process name description := by
    intro other phase hclosed
    refine hother other phase fun habsurd ↦ ?_
    rw [habsurd] at hclosed
    exact nomatch hclosed
  cases htransition with
  | notOpened error hfree => exact hclosed _ _ hfree
  | opened hfree => exact hclosed _ _ hfree
  | locked hphase => exact hother _ _ (by rw [hphase]; nofun)
  | notLocked error hphase hevent => exact hother _ _ (by rw [hphase]; nofun)
  | @guardDropped dropped _ _ _ hphase =>
    have hne : call ≠ dropped := by
      rintro rfl
      exact hdrop rfl
    exact (Function.update_of_ne hne _ _).trans hheld
  | unlocked hphase => exact hother _ _ (by rw [hphase]; nofun)
  | unlockInterrupted hkind => exact hheld
  | notUnlocked hphase => exact hother _ _ (by rw [hphase]; nofun)
  | closed hphase hclosed' =>
    rcases hphase with ⟨error, hphase⟩ | hphase
    · exact hother _ _ (by rw [hphase]; nofun)
    · exact hother _ _ (by rw [hphase]; nofun)
  | forked parent child => exact hheld
  | copyDropped hcopy => exact hheld
  | exited ended => exact absurd rfl (hexit ended)
  | planted hfree => exact hheld

/-- A guard that is alive ends only by its drop or with its process. -/
theorem held_of_lockStep {world world' : LockWorld Name ι} {event : LockEvent Name ι} {call : ι}
    {process : ℕ} {name : Name} {description : ℕ}
    (hheld : world.calls call = .held process name description)
    (hdrop : event ≠ .dropGuard call) (hstep : lockStep display world event = some world') :
    event ≠ .exit process ∧ world'.calls call = .held process name description ∨
      event = .exit process ∧ world'.calls call = .idle := by
  by_cases hexit : ∃ ended, event = .exit ended
  · obtain ⟨ended, rfl⟩ := hexit
    obtain rfl := Option.some.inj hstep
    dsimp only
    rw [hheld]
    by_cases hsame : process = ended
    · exact Or.inr ⟨by rw [hsame], if_pos (by rw [LockPhase.process, hsame])⟩
    · refine Or.inl ⟨fun habsurd ↦ hsame (LockEvent.exit.inj habsurd).symm, if_neg ?_⟩
      exact fun habsurd ↦ hsame (Option.some.inj habsurd)
  · have hexit' : ∀ ended, event ≠ .exit ended := fun ended habsurd ↦ hexit ⟨ended, habsurd⟩
    exact Or.inl ⟨hexit' process,
      held_of_transition hheld hdrop hexit' (lockTransition_of_step hstep)⟩

omit [DecidableEq Name] [DecidableEq ι] [DecidableEq κ] [DecidableEq D] in
/-- Without a component, any deployment with the same sessions and disk will do. -/
theorem Device.Serves.ended (hserves : device.Serves lockName deployment) {machine : Machine D}
    (hsessions : device'.sessions = device.sessions) (hdisk : machine.disk = device'.disk)
    (hcalls : machine.calls = device'.calls) (horiginal : machine.original = device'.original)
    (hnone : ∀ call, device'.owners call = none) :
    device'.Serves lockName ⟨deployment.sessions, none, machine⟩ := by
  refine ⟨?_, hdisk, hcalls, horiginal, ?_, fun _ ↦ rfl⟩
  · rw [hsessions, ← hserves.sessions]
    exact List.append_nil _
  · intro call owner hcall
    exact absurd ((hnone call).symm.trans hcall) (Option.some_ne_none _).symm

omit [DecidableEq Name] [DecidableEq ι] [DecidableEq κ] [DecidableEq D] in
/-- A component is left only where the guard is. -/
theorem owners_setLocks {locks : LockWorld Name ι} {event : LockEvent Name ι} {call : ι}
    {owner : Owner D} (hcall : (device.setLocks locks event).owners call = some owner) :
    device.owners call = some owner ∧
      ∃ process name description, locks.calls call = .held process name description := by
  unfold Device.setLocks at hcall
  dsimp only at hcall
  split at hcall
  · next process name description hheld => exact ⟨hcall, process, name, description, hheld⟩
  · exact nomatch hcall

omit [DecidableEq Name] [DecidableEq ι] [DecidableEq κ] [DecidableEq D] in
theorem counters_setLocks {locks : LockWorld Name ι} {event : LockEvent Name ι} {process : ℕ}
    (hexit : event ≠ .exit process) :
    (device.setLocks locks event).counters process = device.counters process := by
  unfold Device.setLocks
  cases event with
  | exit ended =>
    refine Function.update_of_ne ?_ _ _
    rintro rfl
    exact hexit rfl
  | _ => rfl

/-- The deployment after a restart in the process. -/
theorem reachable_restarted
    (hreachable : (deployments destination encode restore).ReachableBy
      (Deployment.CreatesBeside destination) deployment) (process : ℕ) :
    (deployments destination encode restore).ReachableBy (Deployment.CreatesBeside destination)
      ⟨deployment.sessions, none,
        { deployment.machine with process := process, nextTemporaryFile := 0, phase := .idle }⟩ := by
  have hstep : (deployments destination encode restore).step deployment (.restart process) =
      some ⟨deployment.sessions, none,
        { deployment.machine with process := process, nextTemporaryFile := 0, phase := .idle }⟩ :=
    rfl
  exact .next hreachable (by nofun) hstep

/-- A step of the locks. -/
theorem Device.Sound.locked {locks : LockWorld Name ι} {event : LockEvent Name ι}
    (hsound : device.Sound display lockName destination encode restore)
    (hkept : device.locks.DropsNoCopy event)
    (hstep : lockStep display device.locks event = some locks)
    (hpermits : device.Permits event = true) :
    (device.setLocks locks event).Sound display lockName destination encode restore := by
  obtain ⟨deployment, hreachable, hserves⟩ := hsound.refined
  refine ⟨.next hsound.locks hkept hstep, ?_, ?_⟩
  · intro process
    by_cases hexit : event = .exit process
    · subst hexit
      show Function.update device.counters process 0 process < _
      rw [Function.update_self]
      exact Nat.two_pow_pos _
    · rw [counters_setLocks hexit]
      exact hsound.counters process
  · by_cases hnone : ∀ call, device.owners call = none
    · refine ⟨deployment, hreachable, hserves.sessions, hserves.disk, hserves.calls,
        hserves.original, ?_, fun _ ↦ hserves.idle hnone⟩
      intro call owner hcall
      exact absurd ((hnone call).symm.trans (owners_setLocks hcall).1) (Option.some_ne_none _).symm
    · push Not at hnone
      obtain ⟨call, hcall⟩ := hnone
      obtain ⟨owner, howner⟩ := Option.ne_none_iff_exists'.mp hcall
      obtain ⟨hindex, session, process, description, hpresent, hheld, hmachine⟩ :=
        hserves.owner call owner howner
      have hdrop : event ≠ .dropGuard call := by
        rintro rfl
        rw [Device.Permits, howner] at hpermits
        exact nomatch hpermits
      have hunique : ∀ other owner', (device.setLocks locks event).owners other = some owner' →
          other = call :=
        fun other owner' hother ↦
          hserves.owner_unique hsound.locks (owners_setLocks hother).1 howner
      rcases held_of_lockStep hheld hdrop hstep with ⟨hexit, hheld'⟩ | ⟨hexit, hidle⟩
      · refine ⟨deployment, hreachable, hserves.sessions, hserves.disk, hserves.calls,
          hserves.original, ?_, fun hnone ↦ ?_⟩
        · intro other owner' hother
          obtain rfl := hunique other owner' hother
          obtain rfl := Option.some.inj (howner.symm.trans (owners_setLocks hother).1)
          refine ⟨hindex, session, process, description, hpresent, hheld', ?_⟩
          rw [hmachine]
          unfold Device.machine
          rw [counters_setLocks hexit]
          rfl
        · have hsome : (device.setLocks locks event).owners call = some owner := by
            unfold Device.setLocks
            dsimp only
            rw [hheld']
            exact howner
          exact absurd ((hnone call).symm.trans hsome) (Option.some_ne_none _).symm
      · refine ⟨_, reachable_restarted hreachable 0,
          hserves.ended rfl hserves.disk hserves.calls hserves.original ?_⟩
        intro other
        by_contra hother
        obtain ⟨owner', howner'⟩ := Option.ne_none_iff_exists'.mp hother
        obtain rfl := hunique other owner' howner'
        obtain ⟨-, _, _, _, hheld'⟩ := owners_setLocks howner'
        exact nomatch hidle.symm.trans hheld'

/-- A process may have any counter when its session starts. -/
theorem reachable_withCounter {past : List (Session T κ)} {machine : Machine D}
    (hmachine : machine.nextTemporaryFile = 0)
    (hreachable : (deployments destination encode restore).ReachableBy
      (Deployment.CreatesBeside destination) ⟨past, none, machine⟩) {count : ℕ}
    (hcount : count < 2 ^ 64) :
    (deployments destination encode restore).ReachableBy (Deployment.CreatesBeside destination)
      ⟨past, none, { machine with nextTemporaryFile := count }⟩ := by
  induction count with
  | zero =>
    rw [← hmachine]
    exact hreachable
  | succ count ih =>
    have hstep : (deployments destination encode restore).step
        ⟨past, none, { machine with nextTemporaryFile := count }⟩ .callElsewhere =
          some ⟨past, none, { machine with nextTemporaryFile := (count + 1) % 2 ^ 64 }⟩ := rfl
    rw [Nat.mod_eq_of_lt hcount] at hstep
    exact .next (ih (Nat.lt_of_succ_lt hcount)) (by nofun) hstep

/-- A session starts under the guard of the lock file. -/
theorem Device.Sound.started {call : ι} {process description : ℕ} {mode : PersistenceMode}
    {now : ℕ} {session : Session T κ}
    (hsound : device.Sound display lockName destination encode restore)
    (hheld : device.locks.calls call = .held process lockName description)
    (hfree : device.owners call = none)
    (hstart : startSession destination restore (device.machine process .idle) mode now =
      .ok session) :
    ({ device with
      owners := Function.update device.owners call (some ⟨device.sessions.length, .idle⟩)
      sessions := device.sessions ++ [session] } : Device Name ι T κ D).Sound display lockName
        destination encode restore := by
  obtain ⟨deployment, hreachable, hserves⟩ := hsound.refined
  have hnone : ∀ other, device.owners other = none := by
    intro other
    by_contra hother
    obtain ⟨owner, howner⟩ := Option.ne_none_iff_exists'.mp hother
    obtain ⟨-, _, _, _, -, hheld', -⟩ := hserves.owner other owner howner
    obtain rfl := (stateLock_exclusive display hsound.locks).1 call other lockName lockName
      (by rw [hheld]; rfl) (by rw [hheld']; rfl) rfl
    exact hother hfree
  have hended : (deployments destination encode restore).ReachableBy
      (Deployment.CreatesBeside destination)
      ⟨deployment.sessions, none, device.machine process .idle⟩ := by
    have hrestarted := reachable_withCounter rfl (reachable_restarted hreachable process)
      (hsound.counters process)
    convert hrestarted using 2
    unfold Device.machine
    rw [← hserves.disk, ← hserves.calls, ← hserves.original]
  have hstep : (deployments destination encode restore).step
      ⟨deployment.sessions, none, device.machine process .idle⟩ (.start mode now) =
        some ⟨deployment.sessions, some session, device.machine process .idle⟩ := by
    unfold deployments deploymentStep
    dsimp only
    rw [hstart]
  refine ⟨hsound.locks, hsound.counters,
    ⟨deployment.sessions, some session, device.machine process .idle⟩,
    .next hended (by nofun) hstep, ?_, rfl, rfl, rfl, ?_, ?_⟩
  · rw [← hserves.sessions]
    rfl
  · intro other owner hother
    have hsame : other = call := by
      by_contra hne
      exact absurd ((hnone other).symm.trans ((Function.update_of_ne hne _ _).symm.trans hother))
        (Option.some_ne_none _).symm
    subst hsame
    obtain rfl := Option.some.inj ((Function.update_self other _ _).symm.trans hother)
    exact ⟨congrArg List.length hserves.sessions.symm, session, process, description, rfl, hheld,
      rfl⟩
  · intro hempty
    exact absurd ((Function.update_self call _ _).symm.trans (hempty call)) (Option.some_ne_none _)

/-- A step of the component under a guard, or of its writer, is one of the present session. -/
theorem Device.Sound.moved {call : ι} {owner : Owner D} {process : ℕ} {session session' : Session T κ}
    {machine : Machine D} {sessions : List (Session T κ)} {event : DeploymentEvent T κ}
    (hsound : device.Sound display lockName destination encode restore)
    (howner : device.ownerOf call = some (owner, process, session))
    (hprocess : machine.process = process) (hcounter : machine.nextTemporaryFile < 2 ^ 64)
    (horiginal : machine.original = device.original)
    (hsessions : ∀ past, past ++ [session] = device.sessions → owner.session = past.length →
      sessions = past ++ [session'])
    (hstep : ∀ past, deploymentStep destination encode restore
      ⟨past, some session, device.machine process owner.phase⟩ event =
        some ⟨past, some session', machine⟩)
    (hbeside : ∀ count, event = .proceed count → StatePersistence.CreatesBeside destination
      (device.machine process owner.phase) (.proceed count)) :
    ({ device.setMachine call owner machine with sessions := sessions } :
      Device Name ι T κ D).Sound display lockName destination encode restore := by
  obtain ⟨deployment, hreachable, hserves⟩ := hsound.refined
  obtain ⟨hcall, hindex, hpresent, hmachine, description, hheld⟩ := hserves.ownerOf howner
  have hdeployment : deployment =
      ⟨deployment.past, some session, device.machine process owner.phase⟩ := by
    rw [← hpresent, ← hmachine]
  have hpast : deployment.past ++ [session] = device.sessions := by
    rw [← hserves.sessions, Deployment.sessions, hpresent, Option.toList_some]
  refine ⟨hsound.locks, ?_, ⟨deployment.past, some session', machine⟩, ?_, ?_⟩
  · intro other
    show Function.update device.counters machine.process machine.nextTemporaryFile other < _
    rw [Function.update_apply]
    split_ifs
    · exact hcounter
    · exact hsound.counters other
  · rw [hdeployment] at hreachable
    exact .next hreachable hbeside (hstep deployment.past)
  · exact Serves.setMachine
      (fun other owner' hother ↦ hserves.owner_unique hsound.locks hother hcall) hindex hheld
      hprocess horiginal (hsessions deployment.past hpast hindex)

omit [DecidableEq Name] [DecidableEq ι] [DecidableEq κ] in
/-- A system call leaves the process, and its counter a `u64`. -/
theorem stays_of_step {machine machine' : Machine D} {happening : Happening}
    (hrestart : ∀ process, happening ≠ .restart process)
    (hcrash : ∀ kept left process, happening ≠ .crash kept left process)
    (hstep : replacementStep destination machine happening = some machine') :
    machine'.process = machine.process ∧
      (machine.nextTemporaryFile < 2 ^ 64 → machine'.nextTemporaryFile < 2 ^ 64) := by
  have htaken : (machine.nextTemporaryFile + 1) % 2 ^ 64 < 2 ^ 64 :=
    Nat.mod_lt _ (Nat.two_pow_pos _)
  cases replacementTransition_of_step hstep with
  | restarted process => exact absurd rfl (hrestart process)
  | @crashed kept left process hkept => exact absurd rfl (hcrash kept left process)
  | nameTaken => exact ⟨rfl, fun _ ↦ htaken⟩
  | created => exact ⟨rfl, fun _ ↦ htaken⟩
  | notCreated => exact ⟨rfl, fun _ ↦ htaken⟩
  | numberTaken => exact ⟨rfl, fun _ ↦ htaken⟩
  | _ => exact ⟨rfl, id⟩

/-- A system call of a writer. -/
theorem Device.Sound.called {call : ι} {owner : Owner D} {process : ℕ} {session : Session T κ}
    {machine : Machine D} {happening : Happening} {event : DeploymentEvent T κ}
    (hsound : device.Sound display lockName destination encode restore)
    (howner : device.ownerOf call = some (owner, process, session))
    (hrestart : ∀ process, happening ≠ .restart process)
    (hcrash : ∀ kept left process, happening ≠ .crash kept left process)
    (hmachine : replacementStep destination (device.machine process owner.phase) happening =
      some machine)
    (hstep : ∀ past, deploymentStep destination encode restore
      ⟨past, some session, device.machine process owner.phase⟩ event =
        some ⟨past, some session, machine⟩)
    (hbeside : ∀ count, event = .proceed count → StatePersistence.CreatesBeside destination
      (device.machine process owner.phase) (.proceed count)) :
    (device.setMachine call owner machine).Sound display lockName destination encode restore := by
  obtain ⟨hprocess, hcounter⟩ := stays_of_step hrestart hcrash hmachine
  exact hsound.moved howner hprocess (hcounter (hsound.counters process))
    (original_of_step hmachine) (fun _ hpast _ ↦ hpast.symm) hstep hbeside

/-- A call of `replace_file_atomically` with another path takes a number in its process. -/
theorem Device.Sound.calledElsewhere
    (hsound : device.Sound display lockName destination encode restore) (process : ℕ) :
    ({ device with
      counters := Function.update device.counters process
        ((device.counters process + 1) % 2 ^ 64) } : Device Name ι T κ D).Sound display lockName
          destination encode restore := by
  obtain ⟨deployment, hreachable, hserves⟩ := hsound.refined
  have hcounters : ∀ other, Function.update device.counters process
      ((device.counters process + 1) % 2 ^ 64) other < 2 ^ 64 := by
    intro other
    rw [Function.update_apply]
    split_ifs
    · exact Nat.mod_lt _ (Nat.two_pow_pos _)
    · exact hsound.counters other
  by_cases howned : ∃ call owner description, device.owners call = some owner ∧
      device.locks.calls call = .held process lockName description
  · obtain ⟨call, owner, description, hcall, hheld⟩ := howned
    have hstep : (deployments destination encode restore).step deployment .callElsewhere =
        some { deployment with machine := deployment.machine.takeNumber } := rfl
    refine ⟨hsound.locks, hcounters, _, .next hreachable (by nofun) hstep, hserves.sessions,
      hserves.disk, hserves.calls, hserves.original, ?_, hserves.idle⟩
    intro other owner' hother
    obtain rfl := hserves.owner_unique hsound.locks hother hcall
    obtain ⟨hindex, session, process', description', hpresent, hheld', hmachine⟩ :=
      hserves.owner other owner' hother
    obtain ⟨rfl, -, -⟩ := LockPhase.held.inj (hheld'.symm.trans hheld)
    refine ⟨hindex, session, process', description', hpresent, hheld', ?_⟩
    dsimp only
    rw [hmachine]
    unfold Machine.takeNumber Device.machine
    dsimp only
    rw [Function.update_self]
  · refine ⟨hsound.locks, hcounters, deployment, hreachable, hserves.sessions, hserves.disk,
      hserves.calls, hserves.original, ?_, hserves.idle⟩
    intro call owner hcall
    obtain ⟨hindex, session, process', description, hpresent, hheld, hmachine⟩ :=
      hserves.owner call owner hcall
    have hne : process' ≠ process := by
      rintro rfl
      exact howned ⟨call, owner, description, hcall, hheld⟩
    refine ⟨hindex, session, process', description, hpresent, hheld, ?_⟩
    rw [hmachine]
    unfold Device.machine
    dsimp only
    rw [Function.update_of_ne hne]

/-- A component that was stopped no longer runs under its guard. -/
theorem Device.Sound.stopped {call : ι} {owner : Owner D} {process : ℕ} {session : Session T κ}
    (hsound : device.Sound display lockName destination encode restore)
    (howner : device.ownerOf call = some (owner, process, session))
    (hstopped : session.HasStopped = true) :
    ({ device with owners := Function.update device.owners call none } :
      Device Name ι T κ D).Sound display lockName destination encode restore := by
  obtain ⟨deployment, hreachable, hserves⟩ := hsound.refined
  obtain ⟨hcall, -, hpresent, -⟩ := hserves.ownerOf howner
  have hstep : (deployments destination encode restore).step deployment .stop =
      some ⟨deployment.sessions, none, deployment.machine⟩ := by
    refine Option.bind_eq_some_iff.mpr ⟨session, hpresent, ?_⟩
    rw [if_pos hstopped, Deployment.sessions, hpresent, Option.toList_some]
  refine ⟨hsound.locks, hsound.counters, _, .next hreachable (by nofun) hstep,
    hserves.ended rfl hserves.disk hserves.calls hserves.original ?_⟩
  intro other
  show Function.update device.owners call none other = none
  by_cases hsame : other = call
  · rw [hsame, Function.update_self]
  · rw [Function.update_of_ne hsame]
    by_contra hother
    obtain ⟨owner', howner'⟩ := Option.ne_none_iff_exists'.mp hother
    exact hsame (hserves.owner_unique hsound.locks howner' hcall)

omit [DecidableEq Name] [DecidableEq ι] [DecidableEq κ] in
/-- The crash of the disk is one of the deployment's. -/
theorem Device.Serves.crash (hserves : device.Serves lockName deployment)
    {kept : List (Operation FileName)} {left : ℕ → ByteString} {machine : Machine D}
    (hmachine : replacementStep destination (device.machine 0 .idle) (.crash kept left 0) =
      some machine) :
    replacementStep destination deployment.machine (.crash kept left 0) = some machine := by
  rw [← hmachine]
  unfold replacementStep Device.machine
  dsimp only
  rw [hserves.disk, hserves.calls, hserves.original]

/-- After a crash the locks are free, and no component runs. -/
theorem Device.Sound.crashed {kept : List (Operation FileName)} {left : ℕ → ByteString}
    {lost : Name → Bool} {machine : Machine D}
    (hsound : device.Sound display lockName destination encode restore)
    (hmachine : replacementStep destination (device.machine 0 .idle) (.crash kept left 0) =
      some machine) :
    ({ device with
      locks := device.locks.crash lost
      owners := fun _ ↦ none
      counters := fun _ ↦ 0
      disk := machine.disk } : Device Name ι T κ D).Sound display lockName destination encode
        restore := by
  obtain ⟨deployment, hreachable, hserves⟩ := hsound.refined
  have hcrash := hserves.crash hmachine
  have hstep : (deployments destination encode restore).step deployment (.crash kept left 0) =
      some ⟨deployment.sessions, none, machine⟩ :=
    Option.bind_eq_some_iff.mpr ⟨machine, hcrash, rfl⟩
  obtain ⟨-, hdisk⟩ := Option.ite_none_right_eq_some.mp hmachine
  obtain rfl := Option.some.inj hdisk
  refine ⟨.start ⟨?_, rfl, fun _ ↦ rfl, fun _ ↦ rfl, rfl⟩, fun _ ↦ Nat.two_pow_pos _, _,
    .next hreachable (by nofun) hstep, hserves.ended rfl rfl rfl rfl fun _ ↦ rfl⟩
  intro name inode hentry
  have hallocated := LockWorld.allocated_of_reachable hsound.locks.reachable
  refine hallocated name inode ?_
  unfold LockWorld.crash at hentry
  dsimp only at hentry
  split_ifs at hentry
  exact hentry

/-- Every step that creates no temporary file at the path and drops no copy keeps the invariant. -/
theorem Device.Sound.next {event : DeviceEvent Name ι T κ}
    (hsound : device.Sound display lockName destination encode restore)
    (hkeeps : device.Keeps destination event)
    (hstep : deviceStep display lockName destination encode restore device event = some device') :
    device'.Sound display lockName destination encode restore := by
  unfold deviceStep at hstep
  cases event with
  | lock event =>
    obtain ⟨locks, hlocks, hrest⟩ := Option.bind_eq_some_iff.mp hstep
    obtain ⟨hpermits, hdevice⟩ := Option.ite_none_right_eq_some.mp hrest
    obtain rfl := Option.some.inj hdevice
    exact hsound.locked (hkeeps.2 event rfl) hlocks hpermits
  | start call mode now =>
    dsimp only at hstep
    split at hstep
    · next process name description hheld hfree =>
      obtain ⟨rfl, hrest⟩ := Option.ite_none_right_eq_some.mp hstep
      split at hrest
      · exact nomatch hrest
      · next session hstart =>
        obtain rfl := Option.some.inj hrest
        exact hsound.started hheld hfree hstart
    · exact nomatch hstep
  | component call event =>
    obtain ⟨⟨owner, process, session⟩, howner, hrest⟩ := Option.bind_eq_some_iff.mp hstep
    obtain ⟨machine, hwriter, hrest⟩ := Option.bind_eq_some_iff.mp hrest
    obtain ⟨world, hworld, hdevice⟩ := Option.bind_eq_some_iff.mp hrest
    obtain rfl := Option.some.inj hdevice
    have hstays : machine.process = process ∧ machine.nextTemporaryFile < 2 ^ 64 ∧
        machine.original = device.original := by
      rcases component_cases hwriter hworld with
        ⟨_, _, hmachine, _⟩ | ⟨_, _, _, _, rfl, _⟩ | ⟨rfl, _⟩
      · obtain ⟨hprocess, hcounter⟩ := stays_of_step (by nofun) (by nofun) hmachine
        exact ⟨hprocess, hcounter (hsound.counters process), original_of_step hmachine⟩
      · exact ⟨rfl, hsound.counters process, rfl⟩
      · exact ⟨rfl, hsound.counters process, rfl⟩
    obtain ⟨hprocess, hcounter, horiginal⟩ := hstays
    have hsession : ∀ past, deploymentStep destination encode restore
        ⟨past, some session, device.machine process owner.phase⟩ (.component event) =
          some ⟨past, some { session with world := world }, machine⟩ :=
      fun past ↦ Option.bind_eq_some_iff.mpr
        ⟨machine, hwriter, Option.bind_eq_some_iff.mpr ⟨world, hworld, rfl⟩⟩
    refine hsound.moved howner hprocess hcounter horiginal ?_ hsession (by nofun)
    intro past hpast hindex
    rw [← hpast, hindex, List.set_append_right _ _ (le_refl _), Nat.sub_self]
    rfl
  | proceed call count =>
    obtain ⟨⟨owner, process, session⟩, howner, hrest⟩ := Option.bind_eq_some_iff.mp hstep
    obtain ⟨machine, hmachine, hdevice⟩ := Option.bind_eq_some_iff.mp hrest
    obtain rfl := Option.some.inj hdevice
    have hcalled : ∀ past, deploymentStep destination encode restore
        ⟨past, some session, device.machine process owner.phase⟩ (.proceed count) =
          some ⟨past, some session, machine⟩ :=
      fun past ↦ Option.bind_eq_some_iff.mpr ⟨machine, hmachine, rfl⟩
    refine hsound.called howner (by nofun) (by nofun) hmachine hcalled ?_
    rintro _ ⟨⟩
    exact hkeeps.1 call count owner process session rfl howner
  | fail call error =>
    obtain ⟨⟨owner, process, session⟩, howner, hrest⟩ := Option.bind_eq_some_iff.mp hstep
    obtain ⟨machine, hmachine, hdevice⟩ := Option.bind_eq_some_iff.mp hrest
    obtain rfl := Option.some.inj hdevice
    have hcalled : ∀ past, deploymentStep destination encode restore
        ⟨past, some session, device.machine process owner.phase⟩ (.fail error) =
          some ⟨past, some session, machine⟩ :=
      fun past ↦ Option.bind_eq_some_iff.mpr ⟨machine, hmachine, rfl⟩
    exact hsound.called howner (by nofun) (by nofun) hmachine hcalled (by nofun)
  | callElsewhere process =>
    obtain rfl := Option.some.inj hstep
    exact hsound.calledElsewhere process
  | stop call =>
    obtain ⟨⟨owner, process, session⟩, howner, hrest⟩ := Option.bind_eq_some_iff.mp hstep
    obtain ⟨hstopped, hdevice⟩ := Option.ite_none_right_eq_some.mp hrest
    obtain rfl := Option.some.inj hdevice
    exact hsound.stopped howner hstopped
  | crash kept left lost =>
    obtain ⟨machine, hmachine, hdevice⟩ := Option.bind_eq_some_iff.mp hstep
    obtain rfl := Option.some.inj hdevice
    exact hsound.crashed hmachine

/-! ### Runs -/

theorem Device.sound_of_isStart (hstart : device.IsStart destination) :
    device.Sound display lockName destination encode restore := by
  refine ⟨.start hstart.locks, hstart.counters, ⟨[], none, device.machine 0 .idle⟩,
    .start ⟨hstart.machine, rfl, rfl⟩, hstart.sessions.symm, rfl, rfl, rfl, ?_, fun _ ↦ rfl⟩
  intro call owner hcall
  exact absurd ((hstart.owners call).symm.trans hcall) (Option.some_ne_none _).symm

theorem Device.sound_of_reachable
    (hreachable : (devices display lockName destination encode restore).ReachableBy
      (Device.Keeps destination) device) :
    device.Sound display lockName destination encode restore := by
  refine hreachable.invariant (Device.Sound display lockName destination encode restore)
    (fun _ hstart ↦ sound_of_isStart hstart) ?_
  intro device event device' _ hkeeps hsound hstep
  exact hsound.next hkeeps hstep

/-- In every run of processes that share a state file under its lock, create no temporary file at
the path itself and drop no copy of a guard in a forked child: no two components run at once; a
component has started with a state that has, of each session before, a prefix of its edits that
contains every edit made before an acknowledged mutation was recorded; and the file has now, and
after any crash, the encoding of such a state, or what was there at the beginning. -/
theorem locked_sessions_survive (display : Name → String) (lockName : Name)
    (destination : Destination D) (encode : T → ByteString) (restore : Option ByteString → T)
    (hrestore : ∀ state, restore (some (encode state)) = state) {device : Device Name ι T κ D}
    (hreachable : (devices display lockName destination encode restore).ReachableBy
      (Device.Keeps destination) device) :
    (∀ call other owner owner', device.owners call = some owner →
      device.owners other = some owner' → call = other) ∧
    (∀ call owner process session, device.ownerOf call = some (owner, process, session) →
      ∃ past, device.sessions = past ++ [session] ∧
        Survives (restore device.original) past session.world.history.initialState) ∧
    (∃ state, Survives (restore device.original) device.sessions state ∧
      Holds encode restore device.original (device.disk.contents destination.name) state) ∧
    ∀ kept left lost device',
      deviceStep display lockName destination encode restore device (.crash kept left lost) =
          some device' →
        ∃ state, Survives (restore device.original) device.sessions state ∧
          Holds encode restore device.original (device'.disk.contents destination.name) state := by
  have hsound := Device.sound_of_reachable hreachable
  obtain ⟨deployment, hdeployment, hserves⟩ := hsound.refined
  obtain ⟨hpresent, hnow, hcrashed⟩ :=
    acknowledged_edits_survive destination encode restore hrestore hdeployment
  rw [hserves.sessions, hserves.original] at hnow hcrashed
  refine ⟨?_, ?_, ?_, ?_⟩
  · intro call other owner owner' hcall hother
    exact hserves.owner_unique hsound.locks hcall hother
  · intro call owner process session howner
    obtain ⟨-, -, hsession, -⟩ := hserves.ownerOf howner
    refine ⟨deployment.past, ?_, hserves.original ▸ (hpresent session hsession).1⟩
    rw [← hserves.sessions, Deployment.sessions, hsession, Option.toList_some]
  · rw [Machine.contents, hserves.disk] at hnow
    exact hnow
  · intro kept left lost device' hstep
    obtain ⟨machine, hmachine, hdevice⟩ := Option.bind_eq_some_iff.mp hstep
    obtain rfl := Option.some.inj hdevice
    exact hcrashed kept left 0 machine (hserves.crash hmachine)

end Refinement

/-! ### Two processes -/

/-- The device that keeps a byte in `/state`, with its lock file at `false`. -/
abbrev byteDevices :
    TransitionSystem (Device Bool ℕ UInt8 Bool Unit) (DeviceEvent Bool ℕ UInt8 Bool) :=
  devices lockPath false plainFile (fun byte ↦ [byte]) restoreByte

/-- Nothing is locked, and there is no file. -/
def emptyDevice : Device Bool ℕ UInt8 Bool Unit where
  locks := emptyLocks
  owners := fun _ ↦ none
  sessions := []
  counters := fun _ ↦ 0
  disk := (emptyMachine 0).disk
  calls := []
  original := none

/-- The first process saves an edit and ends with its second one recorded; another process, which
was refused before, takes the lock and starts with what was saved. -/
def contendedSessions : List (DeviceEvent Bool ℕ UInt8 Bool) :=
  [.lock (.openFile 0 7 false), .lock (.lockFile 0), .lock (.openFile 1 9 false),
    .lock (.lockFile 1), .lock (.closeFile 1), .start 0 .immediate 0,
    .component 0 (.client true .lockState), .component 0 (.client true (.editState (· + 5))),
    .component 0 (.client true .recordMutation), .component 0 (.client true .unlockState),
    .component 0 (.worker .succeeds), .component 0 (.worker .succeeds),
    .component 0 (.worker .succeeds), .component 0 (.worker .succeeds),
    .proceed 0 0, .proceed 0 1, .proceed 0 0, .proceed 0 0, .proceed 0 0, .proceed 0 0,
    .component 0 (.worker .succeeds), .component 0 (.worker .succeeds),
    .component 0 (.client true (.callWait ⟨1, true⟩)), .component 0 (.client true .pass),
    .component 0 (.client true .lockState), .component 0 (.client true (.editState (· * 2))),
    .component 0 (.client true .recordMutation), .lock (.exit 7),
    .lock (.openFile 1 9 false), .lock (.lockFile 1), .start 1 .immediate 0]

/-- The second process has the edit that was acknowledged. -/
theorem locked_sessions_survive_contendedSessions :
    ∃ device owner process session,
      byteDevices.run emptyDevice contendedSessions = some device ∧
      device.ownerOf 1 = some (owner, process, session) ∧ process = 9 ∧
      session.world.state = 5 ∧
      ∃ past, device.sessions = past ++ [session] ∧
        Survives 0 past session.world.history.initialState := by
  have hfinal : (byteDevices.run emptyDevice contendedSessions).map
      (fun device ↦ ((device.ownerOf 1).map fun (_, process, session) ↦
        (process, session.world.state), device.original)) =
      some (some (9, 5), none) := by decide +kernel
  obtain ⟨device, hrun, hdevice⟩ := Option.map_eq_some_iff.mp hfinal
  obtain ⟨howner, horiginal⟩ := Prod.mk.inj hdevice
  obtain ⟨⟨owner, process, session⟩, hownerOf, hstate⟩ := Option.map_eq_some_iff.mp howner
  obtain ⟨hprocess, hbyte⟩ := Prod.mk.inj hstate
  have hstart : emptyDevice.IsStart plainFile :=
    ⟨isStart_emptyLocks, fun _ ↦ rfl, rfl, fun _ ↦ Nat.two_pow_pos _, isStart_emptyMachine _ 0⟩
  have hreachable : byteDevices.ReachableBy (Device.Keeps plainFile) device := by
    refine ReachableBy.run (.start hstart) ?_ hrun
    intro event hevent state
    constructor
    · intro call count owner process session _ _
      exact createsBeside_of_fileStem (by decide +kernel) (state.machine process owner.phase)
        (.proceed count)
    · rintro lockEvent rfl process description rfl
      simp [contendedSessions] at hevent
  obtain ⟨past, hsessions, hsurvives⟩ := (locked_sessions_survive lockPath false plainFile
    (fun byte ↦ [byte]) restoreByte (fun _ ↦ rfl) hreachable).2.1 1 owner process session hownerOf
  rw [horiginal] at hsurvives
  exact ⟨device, owner, process, session, hrun, hownerOf, hprocess, hbyte, past, hsessions,
    hsurvives⟩

end SoftwareKeyCore.StatePersistence
