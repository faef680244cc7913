import SoftwareKeyCore.Foundation.CrashDisk
import SoftwareKeyCore.Foundation.TransitionSystem
import SoftwareKeyCore.StatePersistence.FilePath
import SoftwareKeyCore.StatePersistence.Schedule

/-!
# Replacement of a state file

`replace_file_atomically` as a transition system: calls with one path, one after the other, on a
disk whose system calls may each succeed or fail, with restarts of the process and crashes of the
machine at any moment. A step is one system call; `Machine.phase` is where the present call is.

`Machine.calls` and `Machine.original` are no part of the program: they record the images passed so
far, the last one first, and what was at the path at the beginning.
-/

set_option autoImplicit false
set_option relaxedAutoImplicit false

namespace SoftwareKeyCore.StatePersistence

open CrashDisk

/-- The path that is passed to all the calls, and the file it denotes. -/
structure Destination (D : Type) where
  volume : Volume D
  path : Path
  directory : D
  name : FileName
  located : volume.locate path = some (directory, name)

variable {D : Type} [DecidableEq D]

/-- The name of a path's file in the directory of the destination. -/
def Destination.nameOf (destination : Destination D) (path : Path) : Option FileName :=
  (destination.volume.locate path).bind fun (directory, name) ↦
    if directory = destination.directory then some name else none

@[simp] theorem Destination.nameOf_path (destination : Destination D) :
    destination.nameOf destination.path = some destination.name := by
  rw [nameOf, destination.located]
  exact if_pos rfl

theorem Destination.nameOf_withExtension (destination : Destination D) (extension : ByteString) :
    destination.nameOf (destination.path.withExtension extension) =
      if destination.name.BecomesParent then none
      else some (destination.name.withExtension extension) := by
  rw [nameOf, Volume.locate_withExtension destination.located]
  split_ifs
  · rfl
  · exact if_pos rfl

/-! ### The machine -/

/-- A call: its image, and whether it has returned `Ok`. -/
structure Call where
  image : ByteString
  returnedOk : Bool
  deriving DecidableEq, Repr

/-- Where a call is: before its temporary file is created, while the image is written (`rest` is
what is left to write), with the file synced, after the rename, with the directory opened, before
the removal of the temporary file after an error, and at its end. -/
inductive Phase (D : Type)
  | idle
  | creating (encoded : ByteString)
  | writing (temporary : Path) (inode : ℕ) (encoded rest : ByteString)
  | fileSynced (temporary : Path) (inode : ℕ)
  | renamed (temporary : Path)
  | directoryOpen (temporary : Path) (directory : D)
  | failing (temporary : Path) (error : IoError)
  | returned (result : Except IoError Unit)

/-- The disk, the process that makes the calls, and where it is. -/
structure Machine (D : Type) where
  disk : Disk FileName UInt8
  process : ℕ
  nextTemporaryFile : ℕ
  phase : Phase D
  calls : List Call
  original : Option ByteString

/-- What is at the path. -/
def Machine.contents (machine : Machine D) (destination : Destination D) : Option ByteString :=
  machine.disk.contents destination.name

/-- What happens next: a call; the next system call, which succeeds, a write with as many bytes as
are given, or fails; a call with another path in the same process, which takes a number for its
temporary file; a restart of the process; a crash of the machine. -/
inductive Happening
  | call (encoded : ByteString)
  | proceed (count : ℕ)
  | fail (error : IoError)
  | callElsewhere
  | restart (process : ℕ)
  | crash (kept : List (Operation FileName)) (left : ℕ → ByteString) (process : ℕ)

/-- `ENOENT`. -/
def notFound : IoError :=
  ⟨.unnamed 2, "No such file or directory (os error 2)"⟩

/-- The error for a path without a parent. -/
def noParent : IoError :=
  ⟨.other, "persistent state has no parent directory"⟩

/-- `format!("tmp-{}-{id}", std::process::id())`. -/
def temporaryExtension (process id : ℕ) : ByteString :=
  (s!"tmp-{process}-{id}").toUTF8.toList

/-- The call that has just returned `Ok` is marked. -/
def markOk : List Call → List Call
  | [] => []
  | call :: earlier => { call with returnedOk := true } :: earlier

variable (destination : Destination D)

/-- The path of the next temporary file. -/
def Machine.temporary (machine : Machine D) : Path :=
  destination.path.withExtension
    (temporaryExtension machine.process machine.nextTemporaryFile)

/-- The call begins. -/
def Machine.withCall (machine : Machine D) (encoded : ByteString) : Machine D :=
  { machine with phase := .creating encoded, calls := ⟨encoded, false⟩ :: machine.calls }

/-- `NEXT_TEMPORARY_FILE.fetch_add(1, Ordering::Relaxed)`. -/
def Machine.takeNumber (machine : Machine D) : Machine D :=
  { machine with nextTemporaryFile := (machine.nextTemporaryFile + 1) % 2 ^ 64 }

/-- The creation of the temporary file; a name that is taken is followed by the next one. A
directory is taken, whatever its name. -/
def create (machine : Machine D) (encoded : ByteString) : Machine D :=
  let temporary := machine.temporary destination
  let machine := machine.takeNumber
  match destination.nameOf temporary with
  | none =>
    if (destination.volume.openDirectory temporary).isSome then machine
    else { machine with phase := .returned (.error notFound) }
  | some name =>
    match machine.disk.createNew name with
    | none => machine
    | some (inode, disk) =>
      { machine with disk := disk, phase := .writing temporary inode encoded encoded }

/-- The rename of the temporary file. -/
def rename (machine : Machine D) (temporary : Path) : Machine D :=
  match destination.nameOf temporary, destination.nameOf destination.path with
  | some source, some name =>
    match machine.disk.rename source name with
    | none => { machine with phase := .failing temporary notFound }
    | some disk => { machine with disk := disk, phase := .renamed temporary }
  | _, _ => { machine with phase := .failing temporary notFound }

/-- The opening of the parent directory. -/
def openParent (machine : Machine D) (temporary : Path) : Machine D :=
  match destination.path.parent with
  | none => { machine with phase := .failing temporary noParent }
  | some parent =>
    match destination.volume.openDirectory parent with
    | none => { machine with phase := .failing temporary notFound }
    | some directory => { machine with phase := .directoryOpen temporary directory }

/-- The removal of the temporary file; its result is ignored. -/
def removeTemporary (machine : Machine D) (temporary : Path) : Disk FileName UInt8 :=
  ((destination.nameOf temporary).bind machine.disk.remove).getD machine.disk

/-- The next system call succeeds, or fails for a reason that is in the model. -/
def proceed (machine : Machine D) (count : ℕ) : Option (Machine D) :=
  match machine.phase with
  | .creating encoded => some (create destination machine encoded)
  | .writing temporary inode encoded rest =>
    if rest = [] then
      some { machine with
        disk := machine.disk.syncFile inode
        phase := .fileSynced temporary inode }
    else if 1 ≤ count ∧ count ≤ rest.length then
      some { machine with
        disk := machine.disk.append inode (rest.take count)
        phase := .writing temporary inode encoded (rest.drop count) }
    else none
  | .fileSynced temporary _ => some (rename destination machine temporary)
  | .renamed temporary => some (openParent destination machine temporary)
  | .directoryOpen _ directory =>
    some { machine with
      disk := if directory = destination.directory then machine.disk.syncDirectory
        else machine.disk
      phase := .returned (.ok ())
      calls := markOk machine.calls }
  | .failing temporary error =>
    some { machine with
      disk := removeTemporary destination machine temporary
      phase := .returned (.error error) }
  | .idle | .returned _ => none

/-- The next system call fails and has no effect. -/
def fail (machine : Machine D) (error : IoError) : Option (Machine D) :=
  match machine.phase with
  | .creating _ => some { machine.takeNumber with phase := .returned (.error error) }
  | .writing temporary _ _ _ | .fileSynced temporary _ | .renamed temporary
  | .directoryOpen temporary _ => some { machine with phase := .failing temporary error }
  | .failing _ error => some { machine with phase := .returned (.error error) }
  | .idle | .returned _ => none

/-- One step. -/
def replacementStep (machine : Machine D) : Happening → Option (Machine D)
  | .call encoded =>
    match machine.phase with
    | .idle | .returned _ => some (machine.withCall encoded)
    | _ => none
  | .proceed count => proceed destination machine count
  | .fail error => fail machine error
  | .callElsewhere => some machine.takeNumber
  | .restart process =>
    some { machine with process := process, nextTemporaryFile := 0, phase := .idle }
  | .crash kept left process =>
    if kept.Sublist machine.disk.pending then
      some { machine with
        disk := machine.disk.crash kept left
        process := process
        nextTemporaryFile := 0
        phase := .idle }
    else none

/-- At the beginning every entry of the directory and its data is on the medium. -/
structure IsStart (machine : Machine D) : Prop where
  pending : machine.disk.pending = []
  stored : ∀ name inode, machine.disk.durable name = some inode →
    inode < machine.disk.nextInode ∧ machine.disk.synced inode = true
  phase : machine.phase = .idle
  calls : machine.calls = []
  original : machine.original = machine.contents destination

/-- The calls with one path. -/
def replacement : TransitionSystem (Machine D) Happening where
  Initial := IsStart destination
  step := replacementStep destination

/-! ### What the steps do -/

/-- The temporary file of a call that has one. -/
def Phase.temporary : Phase D → Option Path
  | .writing temporary _ _ _ | .fileSynced temporary _ | .renamed temporary
  | .directoryOpen temporary _ | .failing temporary _ => some temporary
  | .idle | .creating _ | .returned _ => none

/-- The name that the next temporary file has beside the file. -/
def Machine.temporaryName (machine : Machine D) : FileName :=
  destination.name.withExtension (temporaryExtension machine.process machine.nextTemporaryFile)

theorem nameOf_temporary (machine : Machine D) :
    destination.nameOf (machine.temporary destination) =
      if destination.name.BecomesParent then none else some (machine.temporaryName destination) :=
  destination.nameOf_withExtension _

/-- A temporary file that is no file of the directory is the parent of the directory. -/
theorem becomesParent_of_nameOf_temporary {machine : Machine D}
    (hname : destination.nameOf (machine.temporary destination) = none) :
    destination.name.BecomesParent := by
  rw [nameOf_temporary] at hname
  split_ifs at hname with hparent
  exact hparent

/-- The steps there are. -/
inductive ReplacementTransition (machine : Machine D) : Happening → Machine D → Prop
  | called (encoded : ByteString) :
    ReplacementTransition machine (.call encoded) (machine.withCall encoded)
  | nameTaken {encoded : ByteString} {count : ℕ} (hphase : machine.phase = .creating encoded) :
    ReplacementTransition machine (.proceed count) machine.takeNumber
  | created {encoded : ByteString} {count : ℕ} {name : FileName}
      (hphase : machine.phase = .creating encoded)
      (hname : destination.nameOf (machine.temporary destination) = some name)
      (hfree : machine.disk.entry name = none) :
    ReplacementTransition machine (.proceed count)
      { machine.takeNumber with
        disk := machine.disk.withNew name
        phase := .writing (machine.temporary destination) machine.disk.nextInode encoded encoded }
  | appended {temporary : Path} {inode count : ℕ} {encoded rest : ByteString}
      (hphase : machine.phase = .writing temporary inode encoded rest) :
    ReplacementTransition machine (.proceed count)
      { machine with
        disk := machine.disk.append inode (rest.take count)
        phase := .writing temporary inode encoded (rest.drop count) }
  | synced {temporary : Path} {inode count : ℕ} {encoded : ByteString}
      (hphase : machine.phase = .writing temporary inode encoded []) :
    ReplacementTransition machine (.proceed count)
      { machine with
        disk := machine.disk.syncFile inode
        phase := .fileSynced temporary inode }
  | renamed {temporary : Path} {inode count : ℕ} {source : FileName} {disk : Disk FileName UInt8}
      (hphase : machine.phase = .fileSynced temporary inode)
      (hsource : destination.nameOf temporary = some source)
      (hrenamed : machine.disk.rename source destination.name = some disk) :
    ReplacementTransition machine (.proceed count)
      { machine with disk := disk, phase := .renamed temporary }
  | parentOpened {temporary parent : Path} {count : ℕ} {opened : D}
      (hphase : machine.phase = .renamed temporary)
      (hparent : destination.path.parent = some parent)
      (hopened : destination.volume.openDirectory parent = some opened) :
    ReplacementTransition machine (.proceed count)
      { machine with phase := .directoryOpen temporary opened }
  | directorySynced {temporary : Path} {count : ℕ} {opened : D}
      (hphase : machine.phase = .directoryOpen temporary opened) :
    ReplacementTransition machine (.proceed count)
      { machine with
        disk := if opened = destination.directory then machine.disk.syncDirectory
          else machine.disk
        phase := .returned (.ok ())
        calls := markOk machine.calls }
  | failed {happening : Happening} {temporary : Path} (error : IoError)
      (htemporary : machine.phase.temporary = some temporary) :
    ReplacementTransition machine happening { machine with phase := .failing temporary error }
  | removed {temporary : Path} {error : IoError} {count : ℕ}
      (hphase : machine.phase = .failing temporary error) :
    ReplacementTransition machine (.proceed count)
      { machine with
        disk := removeTemporary destination machine temporary
        phase := .returned (.error error) }
  | notRemoved {temporary : Path} {error failure : IoError}
      (hphase : machine.phase = .failing temporary error) :
    ReplacementTransition machine (.fail failure) { machine with phase := .returned (.error error) }
  | notCreated {encoded : ByteString} {error : IoError}
      (hphase : machine.phase = .creating encoded) :
    ReplacementTransition machine (.fail error)
      { machine.takeNumber with phase := .returned (.error error) }
  | numberTaken : ReplacementTransition machine .callElsewhere machine.takeNumber
  | restarted (process : ℕ) :
    ReplacementTransition machine (.restart process)
      { machine with process := process, nextTemporaryFile := 0, phase := .idle }
  | crashed {kept : List (Operation FileName)} (left : ℕ → ByteString) (process : ℕ)
      (hkept : kept.Sublist machine.disk.pending) :
    ReplacementTransition machine (.crash kept left process)
      { machine with
        disk := machine.disk.crash kept left
        process := process
        nextTemporaryFile := 0
        phase := .idle }

variable {destination} {machine machine' : Machine D}

theorem proceed_creating {encoded : ByteString} (hphase : machine.phase = .creating encoded)
    (count : ℕ) :
    proceed destination machine count = some (create destination machine encoded) := by
  unfold proceed
  rw [hphase]

theorem create_of_free {name : FileName} (encoded : ByteString)
    (hname : destination.nameOf (machine.temporary destination) = some name)
    (hfree : machine.disk.entry name = none) :
    create destination machine encoded =
      { machine.takeNumber with
        disk := machine.disk.withNew name
        phase := .writing (machine.temporary destination) machine.disk.nextInode encoded
          encoded } := by
  have hnew : machine.takeNumber.disk.createNew name =
      some (machine.disk.nextInode, machine.disk.withNew name) := by
    show machine.disk.createNew _ = _
    rw [Disk.createNew, hfree]
  unfold create
  dsimp only
  rw [hname]
  dsimp only
  rw [hnew]

theorem create_of_taken (encoded : ByteString)
    (htaken : ∀ name, destination.nameOf (machine.temporary destination) = some name →
      machine.disk.entry name ≠ none) :
    create destination machine encoded = machine.takeNumber := by
  unfold create
  dsimp only
  cases hname : destination.nameOf (machine.temporary destination) with
  | none =>
    have hopened := Volume.openDirectory_withExtension destination.located
      (becomesParent_of_nameOf_temporary destination hname)
      (temporaryExtension machine.process machine.nextTemporaryFile)
    dsimp only
    rw [Machine.temporary, hopened]
    rfl
  | some name =>
    obtain ⟨inode, hentry⟩ := Option.ne_none_iff_exists'.mp (htaken name hname)
    have hnew : machine.takeNumber.disk.createNew name = none := by
      show machine.disk.createNew _ = _
      rw [Disk.createNew, hentry]
    dsimp only
    rw [hnew]

/-- The temporary file is created, or its name is taken. -/
theorem create_cases (destination : Destination D) (machine : Machine D) :
    (∃ name, destination.nameOf (machine.temporary destination) = some name ∧
      machine.disk.entry name = none) ∨
    ∀ name, destination.nameOf (machine.temporary destination) = some name →
      machine.disk.entry name ≠ none := by
  rw [or_iff_not_imp_left]
  intro htaken name hname hfree
  exact htaken ⟨name, hname, hfree⟩

theorem transition_of_proceed {count : ℕ}
    (hstep : proceed destination machine count = some machine') :
    ReplacementTransition destination machine (.proceed count) machine' := by
  unfold proceed at hstep
  split at hstep
  · next encoded hphase =>
    obtain rfl := Option.some.inj hstep
    rcases create_cases destination machine with ⟨name, hname, hfree⟩ | htaken
    · rw [create_of_free encoded hname hfree]
      exact .created hphase hname hfree
    · rw [create_of_taken encoded htaken]
      exact .nameTaken hphase
  · next temporary inode encoded rest hphase =>
    split_ifs at hstep with hrest hcount
    · obtain rfl := Option.some.inj hstep
      rw [hrest] at hphase
      exact .synced hphase
    · obtain rfl := Option.some.inj hstep
      exact .appended hphase
  · next temporary inode hphase =>
    obtain rfl := Option.some.inj hstep
    unfold rename
    rw [destination.nameOf_path]
    cases hsource : destination.nameOf temporary with
    | none => exact .failed _ (by rw [hphase, Phase.temporary])
    | some source =>
      dsimp only
      cases hrenamed : machine.disk.rename source destination.name with
      | none => exact .failed _ (by rw [hphase, Phase.temporary])
      | some disk => exact .renamed hphase hsource hrenamed
  · next temporary hphase =>
    obtain rfl := Option.some.inj hstep
    unfold openParent
    cases hparent : destination.path.parent with
    | none => exact .failed _ (by rw [hphase, Phase.temporary])
    | some parent =>
      dsimp only
      cases hopened : destination.volume.openDirectory parent with
      | none => exact .failed _ (by rw [hphase, Phase.temporary])
      | some opened => exact .parentOpened hphase hparent hopened
  · next hphase =>
    obtain rfl := Option.some.inj hstep
    exact .directorySynced hphase
  · next hphase =>
    obtain rfl := Option.some.inj hstep
    exact .removed hphase
  · exact nomatch hstep
  · exact nomatch hstep

theorem transition_of_fail {error : IoError} (hstep : fail machine error = some machine') :
    ReplacementTransition destination machine (.fail error) machine' := by
  unfold fail at hstep
  cases hphase : machine.phase with
  | creating encoded =>
    rw [hphase] at hstep
    obtain rfl := Option.some.inj hstep
    exact .notCreated hphase
  | writing | fileSynced | renamed | directoryOpen =>
    rw [hphase] at hstep
    obtain rfl := Option.some.inj hstep
    exact .failed error (by rw [hphase, Phase.temporary])
  | failing temporary failure =>
    rw [hphase] at hstep
    obtain rfl := Option.some.inj hstep
    exact .notRemoved hphase
  | idle | returned =>
    rw [hphase] at hstep
    exact nomatch hstep

/-- There are no other steps. -/
theorem replacementTransition_of_step {happening : Happening}
    (hstep : replacementStep destination machine happening = some machine') :
    ReplacementTransition destination machine happening machine' := by
  cases happening with
  | call encoded =>
    unfold replacementStep at hstep
    dsimp only at hstep
    split at hstep
    · obtain rfl := Option.some.inj hstep
      exact .called encoded
    · obtain rfl := Option.some.inj hstep
      exact .called encoded
    · exact nomatch hstep
  | proceed count => exact transition_of_proceed hstep
  | fail error => exact transition_of_fail hstep
  | callElsewhere =>
    obtain rfl := Option.some.inj hstep
    exact .numberTaken
  | restart process =>
    obtain rfl := Option.some.inj hstep
    exact .restarted process
  | crash kept left process =>
    obtain ⟨hkept, hmachine⟩ := Option.ite_none_right_eq_some.mp hstep
    obtain rfl := Option.some.inj hmachine
    exact .crashed left process hkept

/-! ### What a call has done so far -/

/-- The image of the present call is the last one that was passed. -/
def Machine.IsCalledWith (machine : Machine D) (encoded : ByteString) (returnedOk : Bool) : Prop :=
  ∃ earlier, machine.calls = ⟨encoded, returnedOk⟩ :: earlier

/-- The path denotes an entry for the file. -/
def Machine.Denotes (destination : Destination D) (machine : Machine D) (path : Path)
    (inode : ℕ) : Prop :=
  ∃ name, destination.nameOf path = some name ∧ machine.disk.entry name = some inode

variable (destination) in
/-- What the present call has done, phase by phase. -/
def Coheres (machine : Machine D) : Prop :=
  match machine.phase with
  | .creating encoded => machine.IsCalledWith encoded false
  | .writing temporary inode encoded rest =>
    machine.IsCalledWith encoded false ∧ machine.Denotes destination temporary inode ∧
      machine.disk.data inode ++ rest = encoded
  | .fileSynced temporary inode =>
    machine.IsCalledWith (machine.disk.data inode) false ∧
      machine.Denotes destination temporary inode ∧ machine.disk.synced inode = true
  | .renamed _ =>
    ∃ encoded, machine.IsCalledWith encoded false ∧ machine.contents destination = some encoded
  | .directoryOpen _ opened =>
    opened = destination.directory ∧
      ∃ encoded, machine.IsCalledWith encoded false ∧ machine.contents destination = some encoded
  | .returned (.ok ()) =>
    ∃ encoded, machine.IsCalledWith encoded true ∧ machine.contents destination = some encoded
  | .idle | .failing _ _ | .returned (.error _) => True

theorem Coheres.next {happening : Happening} (hmachine : Coheres destination machine)
    (htransition : ReplacementTransition destination machine happening machine') :
    Coheres destination machine' := by
  have hcoheres := hmachine
  unfold Coheres at hcoheres
  cases htransition with
  | called encoded => exact ⟨machine.calls, rfl⟩
  | nameTaken hphase => exact hmachine
  | created hphase hname hfree =>
    rw [hphase] at hcoheres
    refine ⟨hcoheres, ⟨_, hname, Disk.entry_withNew_self _ _⟩, ?_⟩
    show Function.update machine.disk.data machine.disk.nextInode [] machine.disk.nextInode ++ _ = _
    rw [Function.update_self, List.nil_append]
  | @appended temporary inode count encoded rest hphase =>
    rw [hphase] at hcoheres
    obtain ⟨hcalled, hdenotes, hdata⟩ := hcoheres
    refine ⟨hcalled, hdenotes, ?_⟩
    show Function.update machine.disk.data inode _ inode ++ rest.drop count = encoded
    rw [Function.update_self, List.append_assoc, List.take_append_drop]
    exact hdata
  | @synced temporary inode count encoded hphase =>
    rw [hphase] at hcoheres
    obtain ⟨hcalled, hdenotes, hdata⟩ := hcoheres
    rw [List.append_nil] at hdata
    refine ⟨?_, hdenotes, Function.update_self _ _ _⟩
    show machine.IsCalledWith (machine.disk.data inode) false
    rw [hdata]
    exact hcalled
  | renamed hphase hsource hrenamed =>
    rw [hphase] at hcoheres
    obtain ⟨hcalled, ⟨name, hname, hentry⟩, -⟩ := hcoheres
    obtain rfl := Option.some.inj (hname.symm.trans hsource)
    obtain ⟨hmoved, hdata⟩ := Disk.entry_of_rename hrenamed hentry
    refine ⟨_, hcalled, ?_⟩
    rw [Machine.contents, Disk.contents_of_entry hmoved, hdata]
  | parentOpened hphase hparent hopened =>
    rw [hphase] at hcoheres
    obtain ⟨parent', hparent', hopened'⟩ := Volume.openDirectory_parent destination.located
    obtain rfl := Option.some.inj (hparent'.symm.trans hparent)
    rw [hopened] at hopened'
    split_ifs at hopened' with hbare
    exact ⟨Option.some.inj hopened', hcoheres⟩
  | directorySynced hphase =>
    rw [hphase] at hcoheres
    obtain ⟨rfl, encoded, ⟨earlier, hcalls⟩, hcontents⟩ := hcoheres
    refine ⟨encoded, ⟨earlier, ?_⟩, ?_⟩
    · show markOk machine.calls = _
      rw [hcalls]
      rfl
    · show (if destination.directory = destination.directory then _ else _ : Disk _ _).contents
        destination.name = some encoded
      rw [if_pos rfl]
      exact hcontents
  | numberTaken => exact hmachine
  | failed | removed | notRemoved | notCreated | restarted | crashed => exact trivial

/-- The record of the calls is right in every run. -/
theorem coheres_of_reachable (hreachable : (replacement destination).Reachable machine) :
    Coheres destination machine := by
  refine hreachable.invariant (Coheres destination) ?_ ?_
  · intro machine hstart
    unfold Coheres
    rw [hstart.phase]
    trivial
  · intro machine happening machine' _ _ hmachine hstep
    exact hmachine.next (replacementTransition_of_step hstep)

/-! ### A small machine -/

/-- The volume with one directory. -/
def flatVolume : Volume Unit where
  root := ()
  workingDirectory := ()
  child := fun _ _ ↦ none
  up := id

/-- A file in it, by its path from the root or by its bare name. -/
def flatFile (hasRoot : Bool) (name : FileName) : Destination Unit where
  volume := flatVolume
  path := ⟨hasRoot, [.normal name]⟩
  directory := ()
  name := name
  located := by cases hasRoot <;> rfl

/-- A process with an empty directory. -/
def emptyMachine (process : ℕ) : Machine Unit where
  disk := ⟨fun _ ↦ none, [], fun _ ↦ [], fun _ ↦ false, 0⟩
  process := process
  nextTemporaryFile := 0
  phase := .idle
  calls := []
  original := none

theorem isStart_emptyMachine (destination : Destination Unit) (process : ℕ) :
    IsStart destination (emptyMachine process) :=
  ⟨rfl, fun _ _ hentry ↦ (nomatch hentry), rfl, rfl, rfl⟩

end SoftwareKeyCore.StatePersistence
