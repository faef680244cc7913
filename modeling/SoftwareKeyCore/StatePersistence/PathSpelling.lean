import SoftwareKeyCore.StatePersistence.Replacement

/-!
# The spelling of a path

With every system call succeeding, `replace_file_atomically` replaces the file and returns `Ok`,
with two exceptions (`replacesFile_iff`). When its path is a bare file name, the parent is the
empty path, which cannot be opened, and the call returns an error after the rename. When the name
is two dots and an extension, every temporary file has the path of the directory's parent, which
exists, and the call tries one number after the other without end.
-/

set_option autoImplicit false
set_option relaxedAutoImplicit false

namespace SoftwareKeyCore.StatePersistence

open CrashDisk TransitionSystem

variable {D : Type} [DecidableEq D]

/-! ### Calls that nothing disturbs -/

/-- The next system call is made, and succeeds if the operating system can carry it out. -/
def Happening.IsProceed : Happening → Prop
  | .proceed _ => True
  | _ => False

/-- A call that nothing disturbs returns, and then it has returned `Ok` with the image at the
path. -/
structure ReplacesFile (destination : Destination D) (machine : Machine D)
    (encoded : ByteString) : Prop where
  returns : ∃ events final result, (∀ event ∈ events, Happening.IsProceed event) ∧
    (replacement destination).run machine (.call encoded :: events) = some final ∧
      final.phase = .returned result
  succeeds : ∀ events final result, (∀ event ∈ events, Happening.IsProceed event) →
    (replacement destination).run machine (.call encoded :: events) = some final →
      final.phase = .returned result →
        result = .ok () ∧ final.contents destination = some encoded

/-- One of the names that temporary files have beside the file is free. -/
def HasFreeName (destination : Destination D) (machine : Machine D) : Prop :=
  ∃ attempts, machine.disk.entry
    ((Machine.takeNumber^[attempts] machine).temporaryName destination) = none

/-- Where no call is under way. -/
def Phase.IsDone : Phase D → Prop
  | .idle | .returned _ => True
  | _ => False

variable (destination : Destination D)

/-- The call under way returns when nothing disturbs it. -/
def Returns (machine : Machine D) : Prop :=
  ∃ events final result, (∀ event ∈ events, Happening.IsProceed event) ∧
    (replacement destination).run machine events = some final ∧ final.phase = .returned result

variable {destination} {machine machine' : Machine D}

/-! ### The call returns -/

theorem Returns.of_returned {result : Except IoError Unit}
    (hphase : machine.phase = .returned result) : Returns destination machine :=
  ⟨[], machine, result, by simp, rfl, hphase⟩

theorem Returns.of_proceed {count : ℕ} (hstep : proceed destination machine count = some machine')
    (hreturns : Returns destination machine') : Returns destination machine := by
  obtain ⟨events, final, result, hevents, hrun, hphase⟩ := hreturns
  refine ⟨.proceed count :: events, final, result, ?_, run_cons.mpr ⟨machine', hstep, hrun⟩, hphase⟩
  rw [List.forall_mem_cons]
  exact ⟨trivial, hevents⟩

theorem returns_of_failing {temporary : Path} {error : IoError}
    (hphase : machine.phase = .failing temporary error) : Returns destination machine := by
  have hstep : proceed destination machine 0 =
      some { machine with
        disk := removeTemporary destination machine temporary
        phase := .returned (.error error) } := by
    unfold proceed
    rw [hphase]
  exact .of_proceed hstep (.of_returned rfl)

theorem returns_of_directoryOpen {temporary : Path} {opened : D}
    (hphase : machine.phase = .directoryOpen temporary opened) : Returns destination machine := by
  have hstep : proceed destination machine 0 =
      some { machine with
        disk := if opened = destination.directory then machine.disk.syncDirectory
          else machine.disk
        phase := .returned (.ok ())
        calls := markOk machine.calls } := by
    unfold proceed
    rw [hphase]
  exact .of_proceed hstep (.of_returned rfl)

theorem returns_of_renamed {temporary : Path} (hphase : machine.phase = .renamed temporary) :
    Returns destination machine := by
  have hstep : proceed destination machine 0 = some (openParent destination machine temporary) := by
    unfold proceed
    rw [hphase]
  refine .of_proceed hstep ?_
  unfold openParent
  split
  · exact returns_of_failing rfl
  · split
    · exact returns_of_failing rfl
    · exact returns_of_directoryOpen rfl

theorem returns_of_fileSynced {temporary : Path} {inode : ℕ}
    (hphase : machine.phase = .fileSynced temporary inode) : Returns destination machine := by
  have hstep : proceed destination machine 0 = some (rename destination machine temporary) := by
    unfold proceed
    rw [hphase]
  refine .of_proceed hstep ?_
  unfold rename
  split
  · split
    · exact returns_of_failing rfl
    · exact returns_of_renamed rfl
  · exact returns_of_failing rfl

theorem returns_of_written {temporary : Path} {inode : ℕ} {encoded : ByteString}
    (hphase : machine.phase = .writing temporary inode encoded []) :
    Returns destination machine := by
  have hstep : proceed destination machine 0 =
      some { machine with
        disk := machine.disk.syncFile inode
        phase := .fileSynced temporary inode } := by
    unfold proceed
    rw [hphase]
    exact if_pos rfl
  exact .of_proceed hstep (returns_of_fileSynced rfl)

theorem returns_of_writing {temporary : Path} {inode : ℕ} {encoded rest : ByteString}
    (hphase : machine.phase = .writing temporary inode encoded rest) :
    Returns destination machine := by
  by_cases hrest : rest = []
  · rw [hrest] at hphase
    exact returns_of_written hphase
  · have hstep : proceed destination machine rest.length =
        some { machine with
          disk := machine.disk.append inode (rest.take rest.length)
          phase := .writing temporary inode encoded (rest.drop rest.length) } := by
      unfold proceed
      rw [hphase]
      dsimp only
      rw [if_neg hrest, if_pos ⟨List.length_pos_iff.mpr hrest, le_refl _⟩]
    rw [List.drop_length] at hstep
    exact .of_proceed hstep (returns_of_written rfl)

/-- The temporary file is beside the file. -/
theorem nameOf_temporary_of_not (hparent : ¬ destination.name.BecomesParent)
    (machine : Machine D) :
    destination.nameOf (machine.temporary destination) =
      some (machine.temporaryName destination) := by
  rw [nameOf_temporary, if_neg hparent]

theorem returns_of_creating {encoded : ByteString} (hphase : machine.phase = .creating encoded)
    (hparent : ¬ destination.name.BecomesParent) (hfree : HasFreeName destination machine) :
    Returns destination machine := by
  obtain ⟨attempts, hattempts⟩ := hfree
  induction attempts generalizing machine with
  | zero =>
    refine .of_proceed (proceed_creating hphase 0) ?_
    rw [create_of_free encoded (nameOf_temporary_of_not hparent machine) hattempts]
    exact returns_of_writing rfl
  | succ attempts ih =>
    refine .of_proceed (proceed_creating hphase 0) ?_
    rcases create_cases destination machine with ⟨name, hname, hunused⟩ | htaken
    · rw [create_of_free encoded hname hunused]
      exact returns_of_writing rfl
    · rw [create_of_taken encoded htaken]
      rw [Function.iterate_succ_apply] at hattempts
      exact ih hphase hattempts

/-- When the temporary files have the path of a directory, the call goes on creating. -/
theorem isCreating_of_proceed {encoded : ByteString} {count : ℕ}
    (hparent : destination.name.BecomesParent) (hphase : machine.phase = .creating encoded)
    (hstep : proceed destination machine count = some machine') :
    machine'.phase = .creating encoded := by
  rw [proceed_creating hphase] at hstep
  obtain rfl := Option.some.inj hstep
  rw [create_of_taken encoded fun name hname ↦ ?_]
  · exact hphase
  · rw [nameOf_temporary, if_pos hparent] at hname
    exact nomatch hname

/-! ### What the call returns -/

/-- No error has occurred. -/
def Phase.IsOnTrack : Phase D → Prop
  | .idle | .failing _ _ | .returned (.error _) => False
  | .creating _ | .writing _ _ _ _ | .fileSynced _ _ | .renamed _ | .directoryOpen _ _
  | .returned (.ok _) => True

/-- The parent directory was not opened. -/
def Phase.IsClosed : Phase D → Prop
  | .directoryOpen _ _ | .returned (.ok _) => False
  | .idle | .creating _ | .writing _ _ _ _ | .fileSynced _ _ | .renamed _ | .failing _ _
  | .returned (.error _) => True

/-- A rename under way finds the temporary file. -/
theorem Coheres.rename_ne_none {temporary : Path} {inode : ℕ}
    (hmachine : Coheres destination machine)
    (hphase : machine.phase = .fileSynced temporary inode) :
    ∃ disk, rename destination machine temporary =
      { machine with disk := disk, phase := .renamed temporary } := by
  unfold Coheres at hmachine
  rw [hphase] at hmachine
  obtain ⟨-, ⟨name, hname, hentry⟩, -⟩ := hmachine
  unfold rename
  rw [hname, destination.nameOf_path]
  dsimp only
  cases hrenamed : machine.disk.rename name destination.name with
  | some disk => exact ⟨disk, rfl⟩
  | none =>
    rw [Disk.rename, hentry] at hrenamed
    dsimp only at hrenamed
    split_ifs at hrenamed

/-- Unless the path is a bare file name, no error occurs. -/
theorem isOnTrack_of_proceed {count : ℕ} (hbare : ¬ destination.path.IsBare)
    (hmachine : Coheres destination machine) (htrack : machine.phase.IsOnTrack)
    (hstep : proceed destination machine count = some machine') : machine'.phase.IsOnTrack := by
  unfold proceed at hstep
  cases hphase : machine.phase with
  | creating encoded =>
    rw [hphase] at hstep
    obtain rfl := Option.some.inj hstep
    rcases create_cases destination machine with ⟨name, hname, hfree⟩ | htaken
    · rw [create_of_free encoded hname hfree]
      trivial
    · rw [create_of_taken encoded htaken]
      exact htrack
  | writing temporary inode encoded rest =>
    rw [hphase] at hstep
    dsimp only at hstep
    split_ifs at hstep
    · obtain rfl := Option.some.inj hstep
      trivial
    · obtain rfl := Option.some.inj hstep
      trivial
  | fileSynced temporary inode =>
    rw [hphase] at hstep
    obtain rfl := Option.some.inj hstep
    obtain ⟨disk, hrenamed⟩ := hmachine.rename_ne_none hphase
    rw [hrenamed]
    trivial
  | renamed temporary =>
    rw [hphase] at hstep
    obtain rfl := Option.some.inj hstep
    obtain ⟨parent, hparent, hopened⟩ := Volume.openDirectory_parent destination.located
    rw [if_neg hbare] at hopened
    unfold openParent
    rw [hparent]
    dsimp only
    rw [hopened]
    trivial
  | directoryOpen temporary opened =>
    rw [hphase] at hstep
    obtain rfl := Option.some.inj hstep
    trivial
  | failing temporary error =>
    rw [hphase] at htrack
    exact htrack.elim
  | idle | returned =>
    rw [hphase] at hstep
    exact nomatch hstep

/-- At a bare file name the parent directory is not opened. -/
theorem isClosed_of_proceed {count : ℕ} (hbare : destination.path.IsBare)
    (hclosed : machine.phase.IsClosed)
    (hstep : proceed destination machine count = some machine') : machine'.phase.IsClosed := by
  cases transition_of_proceed hstep with
  | parentOpened hphase hparent hopened =>
    obtain ⟨parent, hparent', hopened'⟩ := Volume.openDirectory_parent destination.located
    obtain rfl := Option.some.inj (hparent'.symm.trans hparent)
    rw [hopened, if_pos hbare] at hopened'
    exact nomatch hopened'
  | directorySynced hphase =>
    rw [hphase] at hclosed
    exact hclosed.elim
  | nameTaken => exact hclosed
  | created | appended | synced | renamed | failed | removed => exact trivial

/-- The image of the call that is under way, or of the last one. -/
def Machine.image (machine : Machine D) : Option ByteString :=
  machine.calls.head?.map Call.image

theorem image_of_proceed {count : ℕ} (hstep : proceed destination machine count = some machine') :
    machine'.image = machine.image := by
  cases transition_of_proceed hstep with
  | directorySynced hphase =>
    unfold Machine.image
    cases machine.calls <;> rfl
  | nameTaken | created | appended | synced | renamed | parentOpened | failed | removed => rfl

/-- What undisturbed steps keep holds at the end of an undisturbed run. -/
theorem run_proceed (property : Machine D → Prop)
    (hkept : ∀ machine machine' count, property machine →
      proceed destination machine count = some machine' → property machine')
    {events : List Happening} {final : Machine D}
    (hevents : ∀ event ∈ events, Happening.IsProceed event) (hmachine : property machine)
    (hrun : (replacement destination).run machine events = some final) : property final := by
  induction events generalizing machine with
  | nil =>
    obtain rfl := Option.some.inj hrun
    exact hmachine
  | cons event events ih =>
    rw [List.forall_mem_cons] at hevents
    obtain ⟨middle, hstep, hrest⟩ := run_cons.mp hrun
    cases event with
    | proceed count => exact ih hevents.2 (hkept _ _ count hmachine hstep) hrest
    | call | fail | callElsewhere | restart | crash => exact hevents.1.elim

omit [DecidableEq D] in
/-- The beginning of a call takes no name. -/
theorem HasFreeName.withCall (hfree : HasFreeName destination machine) (encoded : ByteString) :
    HasFreeName destination (machine.withCall encoded) := by
  obtain ⟨attempts, hattempts⟩ := hfree
  refine ⟨attempts, ?_⟩
  have hcommutes : Function.Semiconj (fun machine : Machine D ↦ machine.withCall encoded)
      Machine.takeNumber Machine.takeNumber := fun _ ↦ rfl
  rw [← hcommutes.iterate_right attempts machine]
  exact hattempts

variable (destination) in
/-- Where no call is under way, one begins. -/
theorem replacementStep_call (hdone : machine.phase.IsDone) (encoded : ByteString) :
    replacementStep destination machine (.call encoded) = some (machine.withCall encoded) := by
  unfold replacementStep
  cases hphase : machine.phase with
  | idle => rfl
  | returned result => rfl
  | creating | writing | fileSynced | renamed | directoryOpen | failing =>
    rw [hphase] at hdone
    exact hdone.elim

/-- A run that begins with the call goes on from where the call has begun. -/
theorem run_of_run_call (hdone : machine.phase.IsDone) {encoded : ByteString}
    {events : List Happening} {final : Machine D}
    (hrun : (replacement destination).run machine (.call encoded :: events) = some final) :
    (replacement destination).run (machine.withCall encoded) events = some final := by
  obtain ⟨called, hcalled, hrest⟩ := run_cons.mp hrun
  obtain rfl := Option.some.inj
    ((replacementStep_call destination hdone encoded).symm.trans hcalled)
  exact hrest

/-- At a bare file name the call returns no `Ok`. -/
theorem not_isBare_of_replacesFile (hdone : machine.phase.IsDone) {encoded : ByteString}
    (hreplaces : ReplacesFile destination machine encoded) : ¬ destination.path.IsBare := by
  intro hbare
  obtain ⟨events, final, result, hevents, hrun, hphase⟩ := hreplaces.returns
  obtain ⟨rfl, -⟩ := hreplaces.succeeds events final result hevents hrun hphase
  have hcalling : (machine.withCall encoded).phase.IsClosed := trivial
  have hclosed := run_proceed (fun machine ↦ machine.phase.IsClosed)
    (fun _ _ _ hclosed hstep ↦ isClosed_of_proceed hbare hclosed hstep) hevents hcalling
    (run_of_run_call hdone hrun)
  rw [hphase] at hclosed
  exact hclosed

/-- At a name of two dots and an extension the call does not return. -/
theorem not_becomesParent_of_replacesFile (hdone : machine.phase.IsDone) {encoded : ByteString}
    (hreplaces : ReplacesFile destination machine encoded) : ¬ destination.name.BecomesParent := by
  intro hparent
  obtain ⟨events, final, result, hevents, hrun, hphase⟩ := hreplaces.returns
  have hcreating := run_proceed (fun machine ↦ machine.phase = .creating encoded)
    (fun _ _ _ hcreating hstep ↦ isCreating_of_proceed hparent hcreating hstep) hevents rfl
    (run_of_run_call hdone hrun)
  exact nomatch hphase.symm.trans hcreating

/-- Elsewhere a call that returns has returned `Ok`, with the image at the path. -/
theorem replaced_of_returned (hbare : ¬ destination.path.IsBare) {encoded : ByteString}
    {events : List Happening} {final : Machine D} {result : Except IoError Unit}
    (hevents : ∀ event ∈ events, Happening.IsProceed event)
    (hrun : (replacement destination).run (machine.withCall encoded) events = some final)
    (hphase : final.phase = .returned result) :
    result = .ok () ∧ final.contents destination = some encoded := by
  have hcalling : Coheres destination (machine.withCall encoded) := ⟨machine.calls, rfl⟩
  have hbegun : (machine.withCall encoded).phase.IsOnTrack := trivial
  obtain ⟨hcoheres, htrack, himage⟩ := run_proceed
    (fun machine ↦ Coheres destination machine ∧ machine.phase.IsOnTrack ∧
      machine.image = some encoded)
    (fun _ _ _ hkept hstep ↦ ⟨hkept.1.next (transition_of_proceed hstep),
      isOnTrack_of_proceed hbare hkept.1 hkept.2.1 hstep,
      (image_of_proceed hstep).trans hkept.2.2⟩) hevents ⟨hcalling, hbegun, rfl⟩ hrun
  unfold Coheres at hcoheres
  rw [hphase] at hcoheres htrack
  cases result with
  | error error => exact htrack.elim
  | ok value =>
    obtain ⟨image, ⟨earlier, hcalls⟩, hcontents⟩ := hcoheres
    rw [Machine.image, hcalls] at himage
    exact ⟨rfl, hcontents.trans himage⟩

/-- A call that nothing disturbs replaces the file and returns `Ok` exactly when its path is not a
bare file name and its file name is not two dots and an extension without a dot. Assumes that no
call is under way, and that one of the names for the temporary file is free. -/
theorem replacesFile_iff (destination : Destination D) (machine : Machine D)
    (encoded : ByteString) (hdone : machine.phase.IsDone)
    (hfree : HasFreeName destination machine) :
    ReplacesFile destination machine encoded ↔
      ¬ destination.path.IsBare ∧ ¬ destination.name.BecomesParent := by
  constructor
  · intro hreplaces
    exact ⟨not_isBare_of_replacesFile hdone hreplaces,
      not_becomesParent_of_replacesFile hdone hreplaces⟩
  · rintro ⟨hbare, hparent⟩
    refine ⟨?_, ?_⟩
    · obtain ⟨events, final, result, hevents, hrun, hphase⟩ :=
        returns_of_creating rfl hparent (hfree.withCall encoded)
      exact ⟨events, final, result, hevents,
        run_cons.mpr ⟨_, replacementStep_call destination hdone encoded, hrun⟩, hphase⟩
    · intro events final result hevents hrun hphase
      exact replaced_of_returned hbare hevents (run_of_run_call hdone hrun) hphase

/-- `/state.bin`. -/
def rootedFile : Destination Unit :=
  flatFile true "state.bin".toUTF8.toList

/-- `state.bin`. -/
def bareFile : Destination Unit :=
  flatFile false "state.bin".toUTF8.toList

/-- `/..bin`. -/
def dottedFile : Destination Unit :=
  flatFile true "..bin".toUTF8.toList

/-- `/state.bin` is replaced, `state.bin` and `/..bin` in the same directory are not. -/
theorem replacesFile_iff_state :
    ReplacesFile rootedFile (emptyMachine 7) [1, 2, 3] ∧
      ¬ ReplacesFile bareFile (emptyMachine 7) [1, 2, 3] ∧
      ¬ ReplacesFile dottedFile (emptyMachine 7) [1, 2, 3] := by
  refine ⟨?_, ?_, ?_⟩
  · exact (replacesFile_iff rootedFile (emptyMachine 7) [1, 2, 3] trivial ⟨0, rfl⟩).mpr
      (by decide +kernel)
  · rw [replacesFile_iff bareFile (emptyMachine 7) [1, 2, 3] trivial ⟨0, rfl⟩]
    decide
  · rw [replacesFile_iff dottedFile (emptyMachine 7) [1, 2, 3] trivial ⟨0, rfl⟩]
    decide +kernel

/-- The error that a call has returned. -/
def Phase.error? : Phase D → Option IoError
  | .returned (.error error) => some error
  | _ => none

/-- With the bare name `state.bin` the call puts the image at the path and returns an error. -/
theorem not_replacesFile_bareFile :
    ((replacement bareFile).run (emptyMachine 7) [.call [1, 2, 3], .proceed 0, .proceed 3,
      .proceed 0, .proceed 0, .proceed 0, .proceed 0]).map
        (fun machine ↦ (machine.phase.error?, machine.contents bareFile)) =
        some (some notFound, some [1, 2, 3]) ∧
      ¬ ReplacesFile bareFile (emptyMachine 7) [1, 2, 3] := by
  have hfinal : ((replacement bareFile).run (emptyMachine 7) [.call [1, 2, 3], .proceed 0,
      .proceed 3, .proceed 0, .proceed 0, .proceed 0, .proceed 0]).map
        (fun machine ↦ (machine.phase.error?, machine.contents bareFile)) =
        some (some notFound, some [1, 2, 3]) := by decide +kernel
  refine ⟨hfinal, fun hreplaces ↦ ?_⟩
  obtain ⟨machine, hrun, hmachine⟩ := Option.map_eq_some_iff.mp hfinal
  have herror := (Prod.mk.inj hmachine).1
  unfold Phase.error? at herror
  split at herror
  · next error hphase =>
    have hevents : ∀ event ∈ ([.proceed 0, .proceed 3, .proceed 0, .proceed 0, .proceed 0,
        .proceed 0] : List Happening), Happening.IsProceed event := by
      simp [Happening.IsProceed]
    exact nomatch (hreplaces.succeeds _ _ _ hevents hrun hphase).1
  · exact nomatch herror

end SoftwareKeyCore.StatePersistence
