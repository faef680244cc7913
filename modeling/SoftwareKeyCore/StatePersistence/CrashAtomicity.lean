import SoftwareKeyCore.StatePersistence.Replacement

/-!
# Crash atomicity of the replacement

`candidates` are the images of the calls since the last that returned `Ok`, that one included; when
there is none, also what was at the path at the beginning. In every run whose temporary files are
not created at the path itself, the path has one of them, at any moment and after any crash
(`isAtomic_of_createsBeside`).

A temporary file has the name of the path with the extension `tmp-{process}-{number}`. When the
path has this extension already and nothing is there, the temporary file is created at the path, and
a crash may leave anything in it (`not_isAtomic_of_temporary_path`).
-/

set_option autoImplicit false
set_option relaxedAutoImplicit false

namespace SoftwareKeyCore.StatePersistence

open CrashDisk TransitionSystem

variable {D : Type} [DecidableEq D]

/-! ### What may be at the path -/

/-- The images that may be at the path. -/
def candidates (original : Option ByteString) : List Call → List (Option ByteString)
  | [] => [original]
  | call :: earlier =>
    some call.image :: if call.returnedOk then [] else candidates original earlier

/-- The images that may be at the path of the machine. -/
def Machine.candidates (machine : Machine D) : List (Option ByteString) :=
  StatePersistence.candidates machine.original machine.calls

/-- The step creates no temporary file at the path itself. -/
def CreatesBeside (destination : Destination D) (machine : Machine D) (happening : Happening) :
    Prop :=
  ∀ encoded count, machine.phase = .creating encoded → happening = .proceed count →
    destination.nameOf (machine.temporary destination) = some destination.name →
      machine.disk.entry destination.name ≠ none

/-- The step is a rename that succeeds, or a crash. -/
def RenamesOrCrashes (machine : Machine D) (happening : Happening) : Prop :=
  (∃ temporary inode count, machine.phase = .fileSynced temporary inode ∧
    happening = .proceed count) ∨
  ∃ kept left process, happening = .crash kept left process

/-- The path has a candidate, now and after a crash, and until the next rename or crash it keeps
what it has. -/
structure IsAtomic (destination : Destination D) (machine : Machine D) : Prop where
  present : machine.contents destination ∈ machine.candidates
  recovered : ∀ kept left process machine',
    replacementStep destination machine (.crash kept left process) = some machine' →
      machine'.contents destination ∈ machine.candidates
  unchanged : ∀ machine', ((replacement destination).startingAt machine).ReachableBy
    (fun machine happening ↦ CreatesBeside destination machine happening ∧
      ¬ RenamesOrCrashes machine happening) machine' →
        machine'.contents destination = machine.contents destination

/-! ### The invariant -/

/-- The file that a call writes. -/
def Phase.writes : Phase D → Option ℕ
  | .writing _ inode _ _ => some inode
  | _ => none

/-- An entry whose file is a candidate, on the medium and not written any more. -/
structure IsSettled (machine : Machine D) (entry : Option ℕ) : Prop where
  candidate : entry.map machine.disk.data ∈ machine.candidates
  synced : ∀ inode, entry = some inode → machine.disk.synced inode = true
  unwritten : ∀ inode, entry = some inode → machine.phase.writes ≠ some inode

/-- Every entry that the path may have after a crash is settled. -/
structure IsSafe (destination : Destination D) (machine : Machine D) : Prop where
  coheres : Coheres destination machine
  allocated : ∀ name inode, machine.disk.Possible name (some inode) →
    inode < machine.disk.nextInode
  settled : ∀ entry, machine.disk.Possible destination.name entry → IsSettled machine entry
  beside : ∀ temporary, machine.phase.temporary = some temporary →
    destination.nameOf temporary ≠ some destination.name

variable {destination : Destination D} {machine machine' : Machine D}

theorem IsSafe.present (hmachine : IsSafe destination machine) :
    machine.contents destination ∈ machine.candidates :=
  (hmachine.settled _ (Disk.possible_entry _ _)).candidate

omit [DecidableEq D] in
/-- An entry stays settled while its file is left alone. -/
theorem IsSettled.of_data {entry : Option ℕ} (hentry : IsSettled machine entry)
    (hcandidates : machine.candidates ⊆ machine'.candidates)
    (hdata : ∀ inode, entry = some inode → machine'.disk.data inode = machine.disk.data inode)
    (hsynced : ∀ inode, entry = some inode → machine.disk.synced inode = true →
      machine'.disk.synced inode = true)
    (hunwritten : ∀ inode, entry = some inode → machine'.phase.writes ≠ some inode) :
    IsSettled machine' entry where
  candidate := by
    have hsame : entry.map machine'.disk.data = entry.map machine.disk.data := by
      cases entry with
      | none => rfl
      | some inode => rw [Option.map_some, Option.map_some, hdata inode rfl]
    rw [hsame]
    exact hcandidates hentry.candidate
  synced := fun inode hinode ↦ hsynced inode hinode (hentry.synced inode hinode)
  unwritten := hunwritten

/-- A step that leaves the disk keeps the invariant when it only adds candidates and begins no
write. -/
theorem IsSafe.of_same (hmachine : IsSafe destination machine)
    (hcoheres : Coheres destination machine') (hdisk : machine'.disk = machine.disk)
    (hcandidates : machine.candidates ⊆ machine'.candidates)
    (hwrites : ∀ inode, machine'.phase.writes = some inode → machine.phase.writes = some inode)
    (htemporary : ∀ temporary, machine'.phase.temporary = some temporary →
      machine.phase.temporary = some temporary) : IsSafe destination machine' where
  coheres := hcoheres
  allocated := hdisk ▸ hmachine.allocated
  settled := by
    rw [hdisk]
    intro entry hentry
    have hsettled := hmachine.settled entry hentry
    refine hsettled.of_data hcandidates ?_ ?_ ?_
    · rw [hdisk]
      exact fun _ _ ↦ rfl
    · rw [hdisk]
      exact fun _ _ hsynced ↦ hsynced
    · exact fun inode hinode hwritten ↦ hsettled.unwritten inode hinode (hwrites inode hwritten)
  beside := fun temporary hphase ↦ hmachine.beside temporary (htemporary temporary hphase)

theorem beside_of_eq_none {phase : Phase D} (hnone : phase.temporary = none) :
    ∀ temporary, phase.temporary = some temporary →
      destination.nameOf temporary ≠ some destination.name :=
  fun _ htemporary ↦ absurd (hnone.symm.trans htemporary) (Option.some_ne_none _).symm

/-- A step that leaves the disk keeps the invariant when it ends the work on a file. -/
theorem IsSafe.of_same_of_none (hmachine : IsSafe destination machine)
    (hcoheres : Coheres destination machine') (hdisk : machine'.disk = machine.disk)
    (hcandidates : machine.candidates ⊆ machine'.candidates)
    (hwrites : machine'.phase.writes = none) (htemporary : machine'.phase.temporary = none) :
    IsSafe destination machine' := by
  refine hmachine.of_same hcoheres hdisk hcandidates ?_ ?_
  · rw [hwrites]
    exact fun _ hwritten ↦ absurd hwritten (Option.some_ne_none _).symm
  · rw [htemporary]
    exact fun _ hpresent ↦ absurd hpresent (Option.some_ne_none _).symm

theorem IsSafe.beside_of_eq {phase : Phase D} (hmachine : IsSafe destination machine)
    (hsame : phase.temporary = machine.phase.temporary) :
    ∀ temporary, phase.temporary = some temporary →
      destination.nameOf temporary ≠ some destination.name :=
  fun temporary htemporary ↦ hmachine.beside temporary (hsame.symm.trans htemporary)

/-- The temporary file is created beside the path. -/
theorem IsSafe.created {encoded : ByteString} {name : FileName}
    (hmachine : IsSafe destination machine) (hcoheres : Coheres destination machine')
    (hname : destination.nameOf (machine.temporary destination) = some name)
    (hbeside : name ≠ destination.name)
    (hmachine' : machine' =
      { machine.takeNumber with
        disk := machine.disk.withNew name
        phase := .writing (machine.temporary destination) machine.disk.nextInode encoded
          encoded }) : IsSafe destination machine' := by
  subst hmachine'
  refine ⟨hcoheres, ?_, ?_, ?_⟩
  · intro name inode hinode
    show inode < machine.disk.nextInode + 1
    rcases Disk.possible_withNew.mp hinode with hbefore | ⟨-, hlinked⟩
    · exact (hmachine.allocated name inode hbefore).trans (Nat.lt_succ_self _)
    · rw [Option.some.inj hlinked]
      exact Nat.lt_succ_self _
  · intro entry hentry
    have hbefore : machine.disk.Possible destination.name entry :=
      (Disk.possible_withNew.mp hentry).resolve_right fun hlinked ↦ hbeside hlinked.1.symm
    have hfresh : ∀ inode, entry = some inode → inode ≠ machine.disk.nextInode := by
      rintro inode rfl
      exact (hmachine.allocated _ _ hbefore).ne
    refine (hmachine.settled entry hbefore).of_data (List.Subset.refl _) ?_ ?_ ?_
    · intro inode hinode
      exact Disk.data_withNew_of_ne (hfresh inode hinode)
    · intro inode hinode hsynced
      exact (Disk.synced_withNew_of_ne (hfresh inode hinode)).trans hsynced
    · intro inode hinode hwritten
      exact hfresh inode hinode (Option.some.inj hwritten).symm
  · intro temporary htemporary
    obtain rfl := Option.some.inj htemporary
    rw [hname]
    exact fun hsame ↦ hbeside (Option.some.inj hsame)

/-- A file that is written is not at the path. -/
theorem IsSafe.appended {temporary : Path} {inode : ℕ} {encoded rest bytes rest' : ByteString}
    (hmachine : IsSafe destination machine)
    (hphase : machine.phase = .writing temporary inode encoded rest)
    (hcoheres : Coheres destination machine')
    (hmachine' : machine' =
      { machine with
        disk := machine.disk.append inode bytes
        phase := .writing temporary inode encoded rest' }) : IsSafe destination machine' := by
  subst hmachine'
  refine ⟨hcoheres, hmachine.allocated, ?_, ?_⟩
  · intro entry hentry
    have hsettled := hmachine.settled entry hentry
    have hother : ∀ other, entry = some other → other ≠ inode := by
      rintro other hentry' rfl
      exact hsettled.unwritten other hentry' (by rw [hphase, Phase.writes])
    refine hsettled.of_data (List.Subset.refl _) ?_ ?_ ?_
    · intro other hentry'
      exact Function.update_of_ne (hother other hentry') _ _
    · intro other hentry' hsynced
      exact (Function.update_of_ne (hother other hentry') _ _).trans hsynced
    · intro other hentry' hwritten
      exact hother other hentry' (Option.some.inj hwritten).symm
  · exact hmachine.beside_of_eq (by rw [hphase]; rfl)

/-- The sync of a file leaves every file synced that was. -/
theorem IsSafe.synced {temporary : Path} {inode : ℕ} {encoded rest : ByteString}
    (hmachine : IsSafe destination machine)
    (hphase : machine.phase = .writing temporary inode encoded rest)
    (hcoheres : Coheres destination machine')
    (hmachine' : machine' =
      { machine with
        disk := machine.disk.syncFile inode
        phase := .fileSynced temporary inode }) : IsSafe destination machine' := by
  subst hmachine'
  refine ⟨hcoheres, hmachine.allocated, ?_, ?_⟩
  · intro entry hentry
    refine (hmachine.settled entry hentry).of_data (List.Subset.refl _) (fun _ _ ↦ rfl) ?_ ?_
    · intro other _ hsynced
      show Function.update machine.disk.synced inode true other = true
      rw [Function.update_apply]
      split_ifs
      · rfl
      · exact hsynced
    · exact fun _ _ ↦ (Option.some_ne_none _).symm
  · exact hmachine.beside_of_eq (by rw [hphase]; rfl)

/-- The rename moves a synced file with the whole image to the path. -/
theorem IsSafe.renamed {temporary : Path} {inode : ℕ} {source : FileName}
    {disk : Disk FileName UInt8} (hmachine : IsSafe destination machine)
    (hphase : machine.phase = .fileSynced temporary inode)
    (hsource : destination.nameOf temporary = some source)
    (hrenamed : machine.disk.rename source destination.name = some disk)
    (hcoheres : Coheres destination machine')
    (hmachine' : machine' = { machine with disk := disk, phase := .renamed temporary }) :
    IsSafe destination machine' := by
  subst hmachine'
  have hbefore := hmachine.coheres
  unfold Coheres at hbefore
  rw [hphase] at hbefore
  obtain ⟨⟨earlier, hcalls⟩, ⟨name, hname, hentry⟩, hsynced⟩ := hbefore
  obtain rfl := Option.some.inj (hname.symm.trans hsource)
  have hbeside : name ≠ destination.name := by
    rintro rfl
    exact hmachine.beside temporary (by rw [hphase, Phase.temporary]) hname
  obtain ⟨moved, hmoved, ⟨habsurd, -⟩ | ⟨-, rfl⟩⟩ := Disk.rename_eq_some hrenamed
  · exact absurd habsurd hbeside
  obtain rfl := Option.some.inj (hentry.symm.trans hmoved)
  have hpossible : machine.disk.Possible name (some inode) := hentry ▸ Disk.possible_entry _ _
  refine ⟨hcoheres, ?_, ?_, ?_⟩
  · intro other inode' hinode
    rcases Disk.possible_perform.mp hinode with hold | heffect
    · exact hmachine.allocated other inode' hold
    · rw [Disk.eq_of_effect_rename heffect]
      exact hmachine.allocated name inode hpossible
  · intro entry hnew
    rcases Disk.possible_perform.mp hnew with hold | heffect
    · exact (hmachine.settled entry hold).of_data (List.Subset.refl _) (fun _ _ ↦ rfl)
        (fun _ _ hsynced ↦ hsynced) fun _ _ ↦ (Option.some_ne_none _).symm
    · rw [Disk.effect_rename_destination] at heffect
      obtain rfl := Option.some.inj heffect
      refine ⟨?_, ?_, fun _ _ ↦ (Option.some_ne_none _).symm⟩
      · show some (machine.disk.data inode) ∈ StatePersistence.candidates _ machine.calls
        rw [hcalls, StatePersistence.candidates]
        exact List.mem_cons_self
      · intro inode' hinode
        obtain rfl := Option.some.inj hinode
        exact hsynced
  · exact hmachine.beside_of_eq (by rw [hphase]; rfl)

/-- With the directory synced, only the image of the call that returns may be at the path. -/
theorem IsSafe.directorySynced {temporary : Path} {opened : D}
    (hmachine : IsSafe destination machine)
    (hphase : machine.phase = .directoryOpen temporary opened)
    (hcoheres : Coheres destination machine')
    (hmachine' : machine' =
      { machine with
        disk := if opened = destination.directory then machine.disk.syncDirectory
          else machine.disk
        phase := .returned (.ok ())
        calls := markOk machine.calls }) : IsSafe destination machine' := by
  subst hmachine'
  have hbefore := hmachine.coheres
  unfold Coheres at hbefore
  rw [hphase] at hbefore
  obtain ⟨rfl, encoded, ⟨earlier, hcalls⟩, hcontents⟩ := hbefore
  have hentry : ∀ entry, machine.disk.entry destination.name = entry →
      IsSettled machine entry := by
    rintro entry rfl
    exact hmachine.settled _ (Disk.possible_entry _ _)
  rw [if_pos rfl] at hcoheres ⊢
  refine ⟨hcoheres, ?_, ?_, beside_of_eq_none rfl⟩
  · intro name inode hinode
    exact hmachine.allocated name inode
      (Disk.possible_syncDirectory.mp hinode ▸ Disk.possible_entry _ _)
  · intro entry hpossible
    have hsame := Disk.possible_syncDirectory.mp hpossible
    refine ⟨?_, (hentry entry hsame).synced, fun _ _ ↦ (Option.some_ne_none _).symm⟩
    show entry.map machine.disk.data ∈ StatePersistence.candidates _ (markOk machine.calls)
    rw [hcalls, markOk, StatePersistence.candidates, if_pos rfl, ← hsame]
    exact List.mem_singleton.mpr hcontents

/-- The temporary file that is removed is not at the path. -/
theorem IsSafe.removed {temporary : Path} {error : IoError}
    (hmachine : IsSafe destination machine) (hphase : machine.phase = .failing temporary error)
    (hmachine' : machine' =
      { machine with
        disk := removeTemporary destination machine temporary
        phase := .returned (.error error) }) : IsSafe destination machine' := by
  have hunchanged : IsSafe destination { machine with phase := .returned (.error error) } :=
    hmachine.of_same_of_none trivial rfl (List.Subset.refl _) rfl rfl
  subst hmachine'
  unfold removeTemporary
  cases hremoved : (destination.nameOf temporary).bind machine.disk.remove with
  | none => exact hunchanged
  | some disk =>
    obtain ⟨name, hname, hdisk⟩ := Option.bind_eq_some_iff.mp hremoved
    obtain rfl := Disk.remove_eq_some hdisk
    have hbeside : destination.name ≠ name := by
      rintro rfl
      exact hmachine.beside temporary (by rw [hphase, Phase.temporary]) hname
    refine ⟨trivial, ?_, ?_, beside_of_eq_none rfl⟩
    · intro other inode hinode
      exact hmachine.allocated other inode
        ((Disk.possible_perform.mp hinode).resolve_right (Disk.effect_unlink_ne _ _ _))
    · intro entry hpossible
      have hbefore : machine.disk.Possible destination.name entry := by
        refine (Disk.possible_perform.mp hpossible).resolve_right ?_
        rw [Disk.effect_unlink_of_ne hbeside]
        exact (Option.some_ne_none _).symm
      exact (hmachine.settled entry hbefore).of_data (List.Subset.refl _) (fun _ _ ↦ rfl)
        (fun _ _ hsynced ↦ hsynced) fun _ _ ↦ (Option.some_ne_none _).symm

/-- A crash leaves a possible entry, and its file is on the medium. -/
theorem IsSafe.crashed {kept : List (Operation FileName)} {left : ℕ → ByteString}
    {process : ℕ} (hmachine : IsSafe destination machine)
    (hkept : kept.Sublist machine.disk.pending)
    (hmachine' : machine' =
      { machine with
        disk := machine.disk.crash kept left
        process := process
        nextTemporaryFile := 0
        phase := .idle }) : IsSafe destination machine' := by
  subst hmachine'
  refine ⟨trivial, ?_, ?_, beside_of_eq_none rfl⟩
  · intro name inode hinode
    exact hmachine.allocated name inode (Disk.possible_of_crash hkept hinode)
  · intro entry hpossible
    have hsettled := hmachine.settled entry (Disk.possible_of_crash hkept hpossible)
    refine hsettled.of_data (List.Subset.refl _) ?_ (fun _ _ _ ↦ rfl)
      fun _ _ ↦ (Option.some_ne_none _).symm
    intro inode hinode
    exact if_pos (hsettled.synced inode hinode)

/-- Every step that creates no temporary file at the path keeps the invariant. -/
theorem IsSafe.next {happening : Happening} (hmachine : IsSafe destination machine)
    (hbeside : CreatesBeside destination machine happening)
    (htransition : ReplacementTransition destination machine happening machine') :
    IsSafe destination machine' := by
  have hcoheres := hmachine.coheres.next htransition
  cases htransition with
  | called encoded =>
    exact hmachine.of_same_of_none hcoheres rfl (List.subset_cons_self _ _) rfl rfl
  | @created encoded count name hphase hname hfree =>
    refine hmachine.created hcoheres hname ?_ rfl
    rintro rfl
    exact hbeside encoded count hphase rfl hname hfree
  | appended hphase => exact hmachine.appended hphase hcoheres rfl
  | synced hphase => exact hmachine.synced hphase hcoheres rfl
  | renamed hphase hsource hrenamed => exact hmachine.renamed hphase hsource hrenamed hcoheres rfl
  | parentOpened hphase hparent hopened =>
    refine hmachine.of_same hcoheres rfl (List.Subset.refl _)
      (fun _ hwritten ↦ absurd hwritten (Option.some_ne_none _).symm) ?_
    rw [hphase]
    exact fun _ htemporary ↦ htemporary
  | directorySynced hphase => exact hmachine.directorySynced hphase hcoheres rfl
  | failed error htemporary =>
    refine hmachine.of_same hcoheres rfl (List.Subset.refl _)
      (fun _ hwritten ↦ absurd hwritten (Option.some_ne_none _).symm) ?_
    rw [htemporary]
    exact fun _ htemporary ↦ htemporary
  | removed hphase => exact hmachine.removed hphase rfl
  | nameTaken | numberTaken =>
    exact hmachine.of_same hcoheres rfl (List.Subset.refl _) (fun _ hwritten ↦ hwritten)
      fun _ htemporary ↦ htemporary
  | notRemoved | notCreated | restarted =>
    exact hmachine.of_same_of_none hcoheres rfl (List.Subset.refl _) rfl rfl
  | crashed left process hkept => exact hmachine.crashed hkept rfl

/-- The invariant holds at the beginning. -/
theorem isSafe_of_isStart (hstart : IsStart destination machine) :
    IsSafe destination machine := by
  have hdurable : ∀ name entry, machine.disk.Possible name entry →
      machine.disk.durable name = entry := by
    intro name entry hpossible
    refine hpossible.resolve_right ?_
    rw [hstart.pending]
    rintro ⟨operation, hmem, -⟩
    exact absurd hmem List.not_mem_nil
  refine ⟨?_, ?_, ?_, ?_⟩
  · unfold Coheres
    rw [hstart.phase]
    trivial
  · intro name inode hinode
    exact (hstart.stored name inode (hdurable name _ hinode)).1
  · intro entry hentry
    have hpresent : machine.disk.entry destination.name = entry :=
      (hdurable _ _ (Disk.possible_entry _ _)).symm.trans (hdurable _ _ hentry)
    refine ⟨?_, ?_, ?_⟩
    · rw [Machine.candidates, hstart.calls, hstart.original, ← hpresent]
      exact List.mem_singleton_self _
    · rintro inode rfl
      exact (hstart.stored _ inode (hdurable _ _ hentry)).2
    · rw [hstart.phase]
      exact fun _ _ ↦ (Option.some_ne_none _).symm
  · rw [hstart.phase]
    exact beside_of_eq_none rfl

theorem isSafe_of_reachable
    (hreachable : (replacement destination).ReachableBy (CreatesBeside destination) machine) :
    IsSafe destination machine := by
  refine hreachable.invariant (IsSafe destination) (fun _ hstart ↦ isSafe_of_isStart hstart) ?_
  intro machine happening machine' _ hbeside hmachine hstep
  exact hmachine.next hbeside (replacementTransition_of_step hstep)

/-! ### Steps that leave the path alone -/

omit [DecidableEq D] in
theorem contents_eq (hentry : machine'.disk.entry destination.name =
      machine.disk.entry destination.name)
    (hdata : ∀ inode, machine.disk.entry destination.name = some inode →
      machine'.disk.data inode = machine.disk.data inode) :
    machine'.contents destination = machine.contents destination := by
  unfold Machine.contents Disk.contents
  rw [hentry]
  cases hfile : machine.disk.entry destination.name with
  | none => rfl
  | some inode => rw [Option.map_some, Option.map_some, hdata inode hfile]

/-- Only a rename and a crash change what is at the path. -/
theorem IsSafe.contents_next {happening : Happening} (hmachine : IsSafe destination machine)
    (hbeside : CreatesBeside destination machine happening)
    (hunchanged : ¬ RenamesOrCrashes machine happening)
    (htransition : ReplacementTransition destination machine happening machine') :
    machine'.contents destination = machine.contents destination := by
  have hpossible := Disk.possible_entry machine.disk destination.name
  cases htransition with
  | @created encoded count name hphase hname hfree =>
    have hother : destination.name ≠ name := by
      rintro rfl
      exact hbeside encoded count hphase rfl hname hfree
    refine contents_eq (Disk.entry_withNew_of_ne hother) fun inode hentry ↦ ?_
    rw [hentry] at hpossible
    exact Disk.data_withNew_of_ne (hmachine.allocated _ _ hpossible).ne
  | @appended temporary inode count encoded rest hphase =>
    refine contents_eq rfl fun other hentry ↦ ?_
    have hother : other ≠ inode := by
      rintro rfl
      exact (hmachine.settled _ hpossible).unwritten other hentry (by rw [hphase, Phase.writes])
    exact Function.update_of_ne hother _ _
  | renamed hphase hsource hrenamed => exact absurd (Or.inl ⟨_, _, _, hphase, rfl⟩) hunchanged
  | directorySynced hphase =>
    apply contents_eq
    · dsimp only
      split_ifs <;> rfl
    · intro inode _
      dsimp only
      split_ifs <;> rfl
  | @removed temporary error count hphase =>
    unfold Machine.contents removeTemporary
    cases hremoved : (destination.nameOf temporary).bind machine.disk.remove with
    | none => rfl
    | some disk =>
      obtain ⟨name, hname, hdisk⟩ := Option.bind_eq_some_iff.mp hremoved
      obtain rfl := Disk.remove_eq_some hdisk
      have hname : destination.name ≠ name := by
        rintro rfl
        exact hmachine.beside temporary (by rw [hphase, Phase.temporary]) hname
      exact contents_eq (Disk.entry_perform_of_none (Disk.effect_unlink_of_ne hname)) fun _ _ ↦ rfl
  | crashed left process hkept => exact absurd (Or.inr ⟨_, _, _, rfl⟩) hunchanged
  | called | nameTaken | synced | parentOpened | failed | notRemoved | notCreated | numberTaken
  | restarted => exact contents_eq rfl fun _ _ ↦ rfl

theorem IsSafe.isAtomic (hmachine : IsSafe destination machine) :
    IsAtomic destination machine where
  present := hmachine.present
  recovered := by
    intro kept left process machine' hstep
    have htransition := replacementTransition_of_step hstep
    have hbeside : CreatesBeside destination machine (.crash kept left process) :=
      fun _ _ _ hproceeds ↦ nomatch hproceeds
    have hrecovered := (hmachine.next hbeside htransition).present
    cases htransition with
    | failed => exact hrecovered
    | crashed => exact hrecovered
  unchanged := by
    intro machine' hreachable
    refine (hreachable.invariant (fun machine' ↦ IsSafe destination machine' ∧
      machine'.contents destination = machine.contents destination) ?_ ?_).2
    · rintro _ rfl
      exact ⟨hmachine, rfl⟩
    · rintro middle happening machine' _ ⟨hbeside, hunchanged⟩ ⟨hmiddle, hcontents⟩ hstep
      have htransition := replacementTransition_of_step hstep
      exact ⟨hmiddle.next hbeside htransition,
        (hmiddle.contents_next hbeside hunchanged htransition).trans hcontents⟩

/-! ### Temporary files at the path -/

/-- A crash may leave anything in a file at the path that is not synced. -/
theorem not_isAtomic_of_unsynced {inode : ℕ}
    (hentry : machine.disk.entry destination.name = some inode)
    (hunsynced : machine.disk.synced inode = false) : ¬ IsAtomic destination machine := by
  intro hatomic
  obtain ⟨bytes, hbytes⟩ :=
    Infinite.exists_notMem_finset machine.candidates.reduceOption.toFinset
  rw [List.mem_toFinset, List.reduceOption_mem_iff] at hbytes
  apply hbytes
  have hleft : ((machine.disk.crash machine.disk.pending fun _ ↦ bytes).entry destination.name).map
      (machine.disk.crash machine.disk.pending fun _ ↦ bytes).data = some bytes := by
    show (machine.disk.entry destination.name).map _ = some bytes
    rw [hentry, Option.map_some]
    show some (if machine.disk.synced inode then _ else bytes) = some bytes
    rw [hunsynced]
    rfl
  rw [← hleft]
  exact hatomic.recovered machine.disk.pending (fun _ ↦ bytes) machine.process _
    (if_pos (List.Sublist.refl _))

/-- A temporary file that is created at the path is such a file. -/
theorem not_isAtomic_of_createdAt {happening : Happening}
    (hinside : ¬ CreatesBeside destination machine happening)
    (hstep : replacementStep destination machine happening = some machine') :
    ¬ IsAtomic destination machine' := by
  unfold CreatesBeside at hinside
  push Not at hinside
  obtain ⟨encoded, count, hphase, rfl, hname, hfree⟩ := hinside
  obtain rfl := Option.some.inj (hstep.symm.trans (proceed_creating hphase count))
  rw [create_of_free encoded hname hfree]
  apply not_isAtomic_of_unsynced
  · exact Disk.entry_withNew_self _ _
  · exact Function.update_self _ _ _

/-- In every run that creates no temporary file at the path itself, the replacement is atomic; the
creation of one there ends that. -/
theorem isAtomic_of_createsBeside (destination : Destination D) :
    (∀ machine : Machine D,
      (replacement destination).ReachableBy (CreatesBeside destination) machine →
        IsAtomic destination machine) ∧
    ∀ (machine machine' : Machine D) (happening : Happening),
      ¬ CreatesBeside destination machine happening →
        replacementStep destination machine happening = some machine' →
          ¬ IsAtomic destination machine' :=
  ⟨fun _ hreachable ↦ (isSafe_of_reachable hreachable).isAtomic,
    fun _ _ _ hinside hstep ↦ not_isAtomic_of_createdAt hinside hstep⟩

/-- A path without an extension is never the name of its temporary file. -/
theorem createsBeside_of_fileStem (hstem : destination.name.fileStem = destination.name)
    (machine : Machine D) (happening : Happening) :
    CreatesBeside destination machine happening := by
  intro encoded count _ _ hname
  rw [nameOf_temporary] at hname
  split_ifs at hname
  have hlength := congrArg List.length (Option.some.inj hname)
  rw [Machine.temporaryName, FileName.withExtension, hstem, List.length_append,
    List.length_cons] at hlength
  omega

/-- `/state.tmp-7-0`. -/
def temporaryFile : Destination Unit :=
  flatFile true "state.tmp-7-0".toUTF8.toList

/-- `/state`. -/
def plainFile : Destination Unit :=
  flatFile true "state".toUTF8.toList

/-- The process with the number 7 replaces `/state.tmp-7-0`, where nothing is yet, by three bytes,
and has written one of them. -/
theorem not_isAtomic_of_temporary_path :
    ¬ ∀ machine, (replacement temporaryFile).Reachable machine →
      IsAtomic temporaryFile machine := by
  intro hclaim
  have htruncated : (((replacement temporaryFile).run (emptyMachine 7)
      [.call [1, 2, 3], .proceed 0, .proceed 1]).map fun machine ↦
        (machine.contents temporaryFile, machine.candidates)) =
      some (some [1], [some [1, 2, 3], none]) := by decide +kernel
  obtain ⟨machine, hrun, hmachine⟩ := Option.map_eq_some_iff.mp htruncated
  obtain ⟨hcontents, hcandidates⟩ := Prod.mk.inj hmachine
  have hstart : (replacement temporaryFile).Reachable (emptyMachine 7) :=
    .start (isStart_emptyMachine _ 7)
  have hpresent := (hclaim machine (hstart.run hrun)).present
  rw [hcontents, hcandidates] at hpresent
  exact absurd hpresent (by decide)

/-- `/state` is replaced by three bytes; the rename of a second image is not synced yet. -/
def replacedTwice : List Happening :=
  [.call [1, 2, 3], .proceed 0, .proceed 1, .proceed 2, .proceed 0, .proceed 0, .proceed 0,
    .proceed 0, .call [4], .proceed 0, .proceed 1, .proceed 0, .proceed 0]

/-- At `/state` there is the first image or the second, whatever a crash keeps; at the path of a
temporary file there may be anything. -/
theorem isAtomic_of_createsBeside_state :
    (∃ machine, (replacement plainFile).run (emptyMachine 7) replacedTwice =
        some machine ∧ machine.candidates = [some [4], some [1, 2, 3]] ∧
        IsAtomic plainFile machine) ∧
      ∃ machine, (replacement temporaryFile).run (emptyMachine 7)
          [.call [1, 2, 3], .proceed 0] = some machine ∧
        ¬ IsAtomic temporaryFile machine := by
  constructor
  · have hfinal : ((replacement plainFile).run (emptyMachine 7)
        replacedTwice).map Machine.candidates = some [some [4], some [1, 2, 3]] := by
      decide +kernel
    obtain ⟨machine, hrun, hcandidates⟩ := Option.map_eq_some_iff.mp hfinal
    refine ⟨machine, hrun, hcandidates, (isAtomic_of_createsBeside _).1 machine ?_⟩
    refine ReachableBy.run (.start (isStart_emptyMachine _ 7)) ?_ hrun
    intro happening _ machine
    exact createsBeside_of_fileStem (by decide +kernel) machine happening
  · have hsome : ((replacement temporaryFile).run (emptyMachine 7)
        [.call [1, 2, 3], .proceed 0]).isSome = true := by decide +kernel
    obtain ⟨machine, hrun⟩ := Option.isSome_iff_exists.mp hsome
    refine ⟨machine, hrun, ?_⟩
    obtain ⟨called, hcalled, hrest⟩ := run_cons.mp hrun
    obtain ⟨created, hcreated, hlast⟩ := run_cons.mp hrest
    obtain rfl := Option.some.inj hlast
    refine (isAtomic_of_createsBeside _).2 called created (.proceed 0) ?_ hcreated
    obtain rfl := Option.some.inj hcalled
    exact fun hbeside ↦ hbeside [1, 2, 3] 0 rfl rfl (by decide +kernel) rfl

end SoftwareKeyCore.StatePersistence
