import SoftwareKeyCore.Foundation.AdvisoryLock
import SoftwareKeyCore.Foundation.TransitionSystem
import SoftwareKeyCore.StatePersistence.Schedule

/-!
# The state lock

`StateLock` as a transition system: calls of `acquire` in any number of processes and threads, each
with the guard that it returns, between which processes fork, execute other programs, and end at any
moment. A step is one system call. Other programs may create files and symbolic links at free names,
but remove none.

A child of a fork has a copy of every guard of its parent. It may drop the copy, and then its
destructor gives back the parent's lock (`dropCopy`); with its other descriptors it does nothing
until it executes another program or ends, which closes them.

`lockTransition_of_step` lists what the steps do.
-/

set_option autoImplicit false
set_option relaxedAutoImplicit false

namespace SoftwareKeyCore.StatePersistence

variable {Name ι : Type}

/-! ### The parties -/

/-- What is at a name. -/
inductive LockEntry
  | file (inode : ℕ)
  | symbolicLink
  deriving DecidableEq, Repr

/-- The first file that is not allocated any more. -/
def LockEntry.nextFile : LockEntry → ℕ
  | .file inode => inode + 1
  | .symbolicLink => 0

/-- Where a call of `StateLock::acquire` is: not made, or its guard gone; with the file open; with
an error of `flock`, before the file is closed; returned with an error; returned with a guard that
is alive; in the loop of `drop`; after it, before the file is closed. -/
inductive LockPhase (Name : Type)
  | idle
  | opened (process : ℕ) (name : Name) (description : ℕ)
  | refusing (process description : ℕ) (error : IoError)
  | refused (error : IoError)
  | held (process : ℕ) (name : Name) (description : ℕ)
  | unlocking (process : ℕ) (name : Name) (description : ℕ)
  | closing (process description : ℕ)
  deriving DecidableEq, Repr

/-- The directory, the locks, the calls, and the copies of guards that forked children have, each
with the description it would give back. -/
structure LockWorld (Name ι : Type) where
  entries : Name → Option LockEntry
  nextFile : ℕ
  table : LockTable ℕ
  calls : ι → LockPhase Name
  copies : List (ℕ × ℕ)

/-- What happens next. A system call may fail for reasons that are not in the model. -/
inductive LockEvent (Name ι : Type)
  | openFile (call : ι) (process : ℕ) (name : Name)
  | openFails (call : ι) (name : Name) (error : IoError)
  | lockFile (call : ι)
  | lockFails (call : ι) (error : IoError)
  | dropGuard (call : ι)
  | unlockFile (call : ι)
  | unlockFails (call : ι) (error : IoError)
  | closeFile (call : ι)
  | fork (parent child : ℕ)
  | dropCopy (process description : ℕ)
  | exit (process : ℕ)
  | plant (name : Name) (entry : LockEntry)

/-- `lock_error`. -/
def lockError (path operation : String) (error : IoError) : IoError :=
  ⟨error.kind, s!"{operation} persistent state lock {path}: {error.message}"⟩

/-- `EWOULDBLOCK`. -/
def wouldBlock : IoError :=
  ⟨.unnamed 11, "Resource temporarily unavailable (os error 11)"⟩

/-- `ELOOP`. -/
def symbolicLinkLoop : IoError :=
  ⟨.unnamed 40, "Too many levels of symbolic links (os error 40)"⟩

/-- `io::ErrorKind::Interrupted`. -/
def interrupted : ErrorKind :=
  .unnamed 4

/-- The process in which the call is made. -/
def LockPhase.process : LockPhase Name → Option ℕ
  | .opened process _ _ | .refusing process _ _ | .held process _ _ | .unlocking process _ _
  | .closing process _ => some process
  | .idle | .refused _ => none

/-- The description that the call has opened and not closed yet. -/
def LockPhase.description : LockPhase Name → Option ℕ
  | .opened _ _ description | .refusing _ description _ | .held _ _ description
  | .unlocking _ _ description | .closing _ description => some description
  | .idle | .refused _ => none

/-- The name for which the call has a guard that was not given back. -/
def LockPhase.guarded : LockPhase Name → Option Name
  | .held _ name _ | .unlocking _ name _ => some name
  | _ => none

section System

variable [DecidableEq Name] [DecidableEq ι] (display : Name → String)

/-- The call moves on. -/
def LockWorld.setCall (world : LockWorld Name ι) (call : ι) (phase : LockPhase Name) :
    LockWorld Name ι :=
  { world with calls := Function.update world.calls call phase }

/-- `OpenOptions::open` with `create` and `O_NOFOLLOW`. -/
def LockWorld.openAt (world : LockWorld Name ι) (call : ι) (process : ℕ) (name : Name) :
    LockWorld Name ι :=
  match world.entries name with
  | some .symbolicLink =>
    world.setCall call (.refused (lockError (display name) "open" symbolicLinkLoop))
  | some (.file inode) =>
    { world with table := world.table.openFile process inode }.setCall call
      (.opened process name world.table.nextDescription)
  | none =>
    { world with
      entries := Function.update world.entries name (some (.file world.nextFile))
      nextFile := world.nextFile + 1
      table := world.table.openFile process world.nextFile }.setCall call
      (.opened process name world.table.nextDescription)

/-- The copies that a child has after a fork: one for each lock that a descriptor of the parent
has. -/
def LockWorld.copiesOf (world : LockWorld Name ι) (parent child : ℕ) : List (ℕ × ℕ) :=
  (world.table.descriptors.filter fun descriptor ↦ descriptor.1 = parent ∧
    world.table.locked (world.table.file descriptor.2) = some descriptor.2).map
      fun descriptor ↦ (child, descriptor.2)

/-- One step. -/
def lockStep (world : LockWorld Name ι) : LockEvent Name ι → Option (LockWorld Name ι)
  | .openFile call process name =>
    match world.calls call with
    | .idle | .refused _ => some (world.openAt display call process name)
    | _ => none
  | .openFails call name error =>
    match world.calls call with
    | .idle | .refused _ =>
      some (world.setCall call (.refused (lockError (display name) "open" error)))
    | _ => none
  | .lockFile call =>
    match world.calls call with
    | .opened process name description =>
      match world.table.lockExclusive description with
      | some table =>
        some ({ world with table := table }.setCall call (.held process name description))
      | none =>
        some (world.setCall call
          (.refusing process description (lockError (display name) "acquire" wouldBlock)))
    | _ => none
  | .lockFails call error =>
    match world.calls call with
    | .opened process name description =>
      some (world.setCall call
        (.refusing process description (lockError (display name) "acquire" error)))
    | _ => none
  | .dropGuard call =>
    match world.calls call with
    | .held process name description =>
      some (world.setCall call (.unlocking process name description))
    | _ => none
  | .unlockFile call =>
    match world.calls call with
    | .unlocking process _ description =>
      some ({ world with table := world.table.unlock description }.setCall call
        (.closing process description))
    | _ => none
  | .unlockFails call error =>
    match world.calls call with
    | .unlocking process _ description =>
      if error.kind = interrupted then some world
      else some (world.setCall call (.closing process description))
    | _ => none
  | .closeFile call =>
    match world.calls call with
    | .refusing process description error =>
      some ({ world with table := world.table.close process description }.setCall call
        (.refused error))
    | .closing process description =>
      some ({ world with table := world.table.close process description }.setCall call .idle)
    | _ => none
  | .fork parent child =>
    some { world with
      table := world.table.fork parent child
      copies := world.copies ++ world.copiesOf parent child }
  | .dropCopy process description =>
    if (process, description) ∈ world.copies then
      some { world with
        table := (world.table.unlock description).close process description
        copies := world.copies.erase (process, description) }
    else none
  | .exit process =>
    some { world with
      table := world.table.exit process
      calls := fun call ↦
        if (world.calls call).process = some process then .idle else world.calls call
      copies := world.copies.filter fun copy ↦ copy.1 ≠ process }
  | .plant name entry =>
    match world.entries name with
    | some _ => none
    | none => some { world with
        entries := Function.update world.entries name (some entry)
        nextFile := max world.nextFile entry.nextFile }

/-- At the beginning no file is open, and nothing is locked. -/
structure LockWorld.IsStart (world : LockWorld Name ι) : Prop where
  allocated : ∀ name inode, world.entries name = some (.file inode) → inode < world.nextFile
  descriptors : world.table.descriptors = []
  locked : ∀ file, world.table.locked file = none
  calls : ∀ call, world.calls call = .idle
  copies : world.copies = []

/-- The calls of `StateLock::acquire`, with their guards. -/
def stateLocks : TransitionSystem (LockWorld Name ι) (LockEvent Name ι) where
  Initial := LockWorld.IsStart
  step := lockStep display

/-! ### What the steps do -/

/-- The steps there are. -/
inductive LockTransition (world : LockWorld Name ι) : LockEvent Name ι → LockWorld Name ι → Prop
  | notOpened {event : LockEvent Name ι} {call : ι} (error : IoError)
      (hclosed : (world.calls call).description = none) :
    LockTransition world event (world.setCall call (.refused error))
  | opened {call : ι} {process : ℕ} {name : Name} {inode nextFile : ℕ}
      {entries : Name → Option LockEntry} (hclosed : (world.calls call).description = none)
      (hfile : entries name = some (.file inode))
      (hentries : ∀ name entry, world.entries name = some entry → entries name = some entry)
      (hnextFile : world.nextFile ≤ nextFile)
      (hallocated : ∀ name inode, entries name = some (.file inode) →
        world.entries name = some (.file inode) ∨ inode < nextFile) :
    LockTransition world (.openFile call process name)
      ({ world with
        entries := entries
        nextFile := nextFile
        table := world.table.openFile process inode }.setCall call
          (.opened process name world.table.nextDescription))
  | locked {call : ι} {process : ℕ} {name : Name} {description : ℕ} {table : LockTable ℕ}
      (hphase : world.calls call = .opened process name description)
      (hlocked : world.table.lockExclusive description = some table) :
    LockTransition world (.lockFile call)
      ({ world with table := table }.setCall call (.held process name description))
  | notLocked {event : LockEvent Name ι} {call : ι} {process : ℕ} {name : Name} {description : ℕ}
      (error : IoError) (hphase : world.calls call = .opened process name description)
      (hevent : event = .lockFile call ∨ ∃ error, event = .lockFails call error) :
    LockTransition world event (world.setCall call (.refusing process description error))
  | guardDropped {call : ι} {process : ℕ} {name : Name} {description : ℕ}
      (hphase : world.calls call = .held process name description) :
    LockTransition world (.dropGuard call)
      (world.setCall call (.unlocking process name description))
  | unlocked {call : ι} {process : ℕ} {name : Name} {description : ℕ}
      (hphase : world.calls call = .unlocking process name description) :
    LockTransition world (.unlockFile call)
      ({ world with table := world.table.unlock description }.setCall call
        (.closing process description))
  | unlockInterrupted {call : ι} {error : IoError} (hkind : error.kind = interrupted) :
    LockTransition world (.unlockFails call error) world
  | notUnlocked {call : ι} {process : ℕ} {name : Name} {description : ℕ} {error : IoError}
      (hphase : world.calls call = .unlocking process name description)
      (hkind : error.kind ≠ interrupted) :
    LockTransition world (.unlockFails call error)
      (world.setCall call (.closing process description))
  | closed {call : ι} {process description : ℕ} {phase : LockPhase Name}
      (hphase : (∃ error, world.calls call = .refusing process description error) ∨
        world.calls call = .closing process description)
      (hclosed : phase.description = none) :
    LockTransition world (.closeFile call)
      ({ world with table := world.table.close process description }.setCall call phase)
  | forked (parent child : ℕ) :
    LockTransition world (.fork parent child)
      { world with
        table := world.table.fork parent child
        copies := world.copies ++ world.copiesOf parent child }
  | copyDropped {process description : ℕ} (hcopy : (process, description) ∈ world.copies) :
    LockTransition world (.dropCopy process description)
      { world with
        table := (world.table.unlock description).close process description
        copies := world.copies.erase (process, description) }
  | exited (process : ℕ) :
    LockTransition world (.exit process)
      { world with
        table := world.table.exit process
        calls := fun call ↦
          if (world.calls call).process = some process then .idle else world.calls call
        copies := world.copies.filter fun copy ↦ copy.1 ≠ process }
  | planted {name : Name} {entry : LockEntry} (hfree : world.entries name = none) :
    LockTransition world (.plant name entry)
      { world with
        entries := Function.update world.entries name (some entry)
        nextFile := max world.nextFile entry.nextFile }

variable {display} {world world' : LockWorld Name ι}

omit [DecidableEq ι] in
/-- What is put at a free name leaves what is at the others. -/
theorem entries_planted {name : Name} {entry : LockEntry} (hfree : world.entries name = none)
    (other : Name) (entry' : LockEntry) (hother : world.entries other = some entry') :
    Function.update world.entries name (some entry) other = some entry' := by
  have hne : other ≠ name := by
    rintro rfl
    exact absurd (hfree.symm.trans hother) (Option.some_ne_none _).symm
  exact (Function.update_of_ne hne _ _).trans hother

theorem transition_of_openAt {call : ι} {process : ℕ} {name : Name}
    (hclosed : (world.calls call).description = none) :
    LockTransition world (.openFile call process name)
      (world.openAt display call process name) := by
  unfold LockWorld.openAt
  cases hentry : world.entries name with
  | none =>
    refine .opened hclosed (Function.update_self _ _ _) (entries_planted hentry)
      (Nat.le_succ _) fun other inode hother ↦ ?_
    by_cases hne : other = name
    · rw [hne, Function.update_self, Option.some.injEq, LockEntry.file.injEq] at hother
      exact Or.inr (hother ▸ Nat.lt_succ_self _)
    · exact Or.inl ((Function.update_of_ne hne _ _).symm.trans hother)
  | some entry =>
    cases entry with
    | file inode =>
      exact .opened hclosed hentry (fun _ _ hother ↦ hother) (le_refl _) fun _ _ ↦ Or.inl
    | symbolicLink => exact .notOpened _ hclosed

/-- There are no other steps. -/
theorem lockTransition_of_step {event : LockEvent Name ι}
    (hstep : lockStep display world event = some world') :
    LockTransition world event world' := by
  unfold lockStep at hstep
  cases event with
  | openFile call process name =>
    dsimp only at hstep
    split at hstep
    · next hphase =>
      obtain rfl := Option.some.inj hstep
      exact transition_of_openAt (by rw [hphase]; rfl)
    · next hphase =>
      obtain rfl := Option.some.inj hstep
      exact transition_of_openAt (by rw [hphase]; rfl)
    · exact nomatch hstep
  | openFails call name error =>
    dsimp only at hstep
    split at hstep
    · next hphase =>
      obtain rfl := Option.some.inj hstep
      exact .notOpened _ (by rw [hphase]; rfl)
    · next hphase =>
      obtain rfl := Option.some.inj hstep
      exact .notOpened _ (by rw [hphase]; rfl)
    · exact nomatch hstep
  | lockFile call =>
    dsimp only at hstep
    split at hstep
    · next hphase =>
      split at hstep
      · next hlocked =>
        obtain rfl := Option.some.inj hstep
        exact .locked hphase hlocked
      · obtain rfl := Option.some.inj hstep
        exact .notLocked _ hphase (Or.inl rfl)
    · exact nomatch hstep
  | lockFails call error =>
    dsimp only at hstep
    split at hstep
    · next hphase =>
      obtain rfl := Option.some.inj hstep
      exact .notLocked _ hphase (Or.inr ⟨_, rfl⟩)
    · exact nomatch hstep
  | dropGuard call =>
    dsimp only at hstep
    split at hstep
    · next hphase =>
      obtain rfl := Option.some.inj hstep
      exact .guardDropped hphase
    · exact nomatch hstep
  | unlockFile call =>
    dsimp only at hstep
    split at hstep
    · next hphase =>
      obtain rfl := Option.some.inj hstep
      exact .unlocked hphase
    · exact nomatch hstep
  | unlockFails call error =>
    dsimp only at hstep
    split at hstep
    · next hphase =>
      split_ifs at hstep with hkind
      · obtain rfl := Option.some.inj hstep
        exact .unlockInterrupted hkind
      · obtain rfl := Option.some.inj hstep
        exact .notUnlocked hphase hkind
    · exact nomatch hstep
  | closeFile call =>
    dsimp only at hstep
    split at hstep
    · next hphase =>
      obtain rfl := Option.some.inj hstep
      exact .closed (Or.inl ⟨_, hphase⟩) rfl
    · next hphase =>
      obtain rfl := Option.some.inj hstep
      exact .closed (Or.inr hphase) rfl
    · exact nomatch hstep
  | fork parent child =>
    obtain rfl := Option.some.inj hstep
    exact .forked parent child
  | dropCopy process description =>
    obtain ⟨hcopy, hworld⟩ := Option.ite_none_right_eq_some.mp hstep
    obtain rfl := Option.some.inj hworld
    exact .copyDropped hcopy
  | exit process =>
    obtain rfl := Option.some.inj hstep
    exact .exited process
  | plant name entry =>
    dsimp only at hstep
    split at hstep
    · exact nomatch hstep
    · next hfree =>
      obtain rfl := Option.some.inj hstep
      exact .planted hfree

end System

end SoftwareKeyCore.StatePersistence
