import SoftwareKeyCore.StatePersistence.StateLock

/-!
# Mutual exclusion by the state lock

At most one guard is alive for a file, in every run in which no forked child drops its copy of a
guard (`stateLock_exclusive`). While, moreover, no process ends with a guard and guards are given
back, a call is refused only because of a guard that is alive, whatever descriptors children have
inherited (`stateLock_refused_iff`).

`LockWorld.Sound` is the invariant: the kernel has what the calls rely on, phase by phase, and each
call has opened a description of its own. A step changes the table for one description, so what the
other calls rely on stays (`LockWorld.Supports.frame`).
-/

set_option autoImplicit false
set_option relaxedAutoImplicit false

namespace SoftwareKeyCore.StatePersistence

variable {Name ι : Type} [DecidableEq Name] [DecidableEq ι] {display : Name → String}
  {world world' : LockWorld Name ι}

/-! ### The invariant -/

/-- What the kernel has for a call, phase by phase. -/
def LockWorld.Supports (world : LockWorld Name ι) : LockPhase Name → Prop
  | .opened process name description =>
    (process, description) ∈ world.table.descriptors ∧
      world.entries name = some (.file (world.table.file description))
  | .held process name description | .unlocking process name description =>
    (process, description) ∈ world.table.descriptors ∧
      world.entries name = some (.file (world.table.file description)) ∧
      world.table.locked (world.table.file description) = some description
  | .refusing process description _ | .closing process description =>
    (process, description) ∈ world.table.descriptors
  | .idle | .refused _ => True

/-- The kernel has what the calls rely on, and each call has opened a description of its own. -/
structure LockWorld.Sound (world : LockWorld Name ι) : Prop where
  table : world.table.Consistent
  supported : ∀ call, world.Supports (world.calls call)
  distinct : ∀ call other description, (world.calls call).description = some description →
    (world.calls other).description = some description → call = other

omit [DecidableEq Name] [DecidableEq ι] in
theorem LockWorld.Supports.isOpen {phase : LockPhase Name} (hphase : world.Supports phase)
    {description : ℕ} (hdescription : phase.description = some description) :
    ∃ process, phase.process = some process ∧
      (process, description) ∈ world.table.descriptors := by
  cases phase with
  | idle => exact nomatch hdescription
  | refused error => exact nomatch hdescription
  | refusing process opened error =>
    obtain rfl := Option.some.inj hdescription
    exact ⟨process, rfl, hphase⟩
  | closing process opened =>
    obtain rfl := Option.some.inj hdescription
    exact ⟨process, rfl, hphase⟩
  | opened process name opened =>
    obtain rfl := Option.some.inj hdescription
    exact ⟨process, rfl, hphase.1⟩
  | held process name opened =>
    obtain rfl := Option.some.inj hdescription
    exact ⟨process, rfl, hphase.1⟩
  | unlocking process name opened =>
    obtain rfl := Option.some.inj hdescription
    exact ⟨process, rfl, hphase.1⟩

omit [DecidableEq Name] [DecidableEq ι] in
/-- What a call relies on stays while its descriptor, its file and its lock do. -/
theorem LockWorld.Supports.frame {phase : LockPhase Name} (hphase : world.Supports phase)
    (hentries : ∀ name entry, world.entries name = some entry → world'.entries name = some entry)
    (hkept : ∀ process description, phase.process = some process →
      phase.description = some description → (process, description) ∈ world.table.descriptors →
        (process, description) ∈ world'.table.descriptors ∧
        world'.table.file description = world.table.file description ∧
        ∀ file, world.table.locked file = some description →
          world'.table.locked file = some description) : world'.Supports phase := by
  cases phase with
  | idle => trivial
  | refused error => trivial
  | refusing process description error => exact (hkept process description rfl rfl hphase).1
  | closing process description => exact (hkept process description rfl rfl hphase).1
  | opened process name description =>
    obtain ⟨hopen, hfile, -⟩ := hkept process description rfl rfl hphase.1
    refine ⟨hopen, ?_⟩
    rw [hfile]
    exact hentries _ _ hphase.2
  | held process name description =>
    obtain ⟨hopen, hfile, hlocked⟩ := hkept process description rfl rfl hphase.1
    refine ⟨hopen, ?_, ?_⟩
    · rw [hfile]
      exact hentries _ _ hphase.2.1
    · rw [hfile]
      exact hlocked _ hphase.2.2
  | unlocking process name description =>
    obtain ⟨hopen, hfile, hlocked⟩ := hkept process description rfl rfl hphase.1
    refine ⟨hopen, ?_, ?_⟩
    · rw [hfile]
      exact hentries _ _ hphase.2.1
    · rw [hfile]
      exact hlocked _ hphase.2.2

omit [DecidableEq Name] [DecidableEq ι] in
/-- The description of a call is no other call's. -/
theorem LockWorld.Sound.ne_description (hworld : world.Sound) {call other : ι}
    (hother : other ≠ call) {description : ℕ}
    (hdescription : (world.calls call).description = some description) :
    (world.calls other).description ≠ some description :=
  fun hsame ↦ hother (hworld.distinct _ _ _ hsame hdescription)

omit [DecidableEq Name] [DecidableEq ι] in
/-- No call has opened the next description. -/
theorem LockWorld.Sound.ne_nextDescription (hworld : world.Sound) (call : ι) :
    (world.calls call).description ≠ some world.table.nextDescription := by
  intro hdescription
  obtain ⟨process, -, hopen⟩ := (hworld.supported call).isOpen hdescription
  exact lt_irrefl _ (hworld.table.allocated _ ⟨process, hopen⟩)

omit [DecidableEq Name] in
/-- A call moves on, with its own description or another that no call has. -/
theorem LockWorld.Sound.setCall (hworld : world.Sound) {call : ι} {phase : LockPhase Name}
    (htable : world'.table.Consistent) (hcalls : world'.calls = world.calls)
    (hothers : ∀ other ≠ call, world'.Supports (world.calls other))
    (hphase : world'.Supports phase)
    (hdistinct : ∀ description, phase.description = some description → ∀ other ≠ call,
      (world.calls other).description ≠ some description) :
    (world'.setCall call phase).Sound := by
  have hself : (world'.setCall call phase).calls call = phase := Function.update_self _ _ _
  have hother : ∀ other ≠ call, (world'.setCall call phase).calls other = world.calls other := by
    intro other hne
    exact (Function.update_of_ne hne _ _).trans (congrFun hcalls other)
  refine ⟨htable, ?_, ?_⟩
  · intro other
    by_cases hne : other = call
    · subst hne
      rw [hself]
      cases phase <;> exact hphase
    · rw [hother other hne]
      have hsupports := hothers other hne
      cases hcase : world.calls other <;> rw [hcase] at hsupports <;> exact hsupports
  · intro first second description hfirst hsecond
    by_cases hfirst' : first = call
    · by_cases hsecond' : second = call
      · rw [hfirst', hsecond']
      · subst hfirst'
        rw [hself] at hfirst
        rw [hother second hsecond'] at hsecond
        exact absurd hsecond (hdistinct description hfirst second hsecond')
    · by_cases hsecond' : second = call
      · subst hsecond'
        rw [hself] at hsecond
        rw [hother first hfirst'] at hfirst
        exact absurd hfirst (hdistinct description hsecond first hfirst')
      · rw [hother first hfirst'] at hfirst
        rw [hother second hsecond'] at hsecond
        exact hworld.distinct first second description hfirst hsecond

omit [DecidableEq Name] in
/-- A call that leaves the kernel alone. -/
theorem LockWorld.Sound.moved (hworld : world.Sound) {call : ι} {phase : LockPhase Name}
    (hphase : world.Supports phase) (hdescription : phase.description = none ∨
      phase.description = (world.calls call).description) : (world.setCall call phase).Sound := by
  refine hworld.setCall hworld.table rfl (fun other _ ↦ hworld.supported other) hphase ?_
  intro description hopened other hother
  rcases hdescription with hnone | hsame
  · exact absurd (hnone.symm.trans hopened) (Option.some_ne_none _).symm
  · exact hworld.ne_description hother (hsame.symm.trans hopened)

omit [DecidableEq Name] in
theorem LockWorld.Sound.opened (hworld : world.Sound) {call : ι} {process : ℕ} {name : Name}
    {inode nextFile : ℕ} {entries : Name → Option LockEntry}
    (hfile : entries name = some (.file inode))
    (hentries : ∀ name entry, world.entries name = some entry → entries name = some entry) :
    ({ world with
      entries := entries
      nextFile := nextFile
      table := world.table.openFile process inode }.setCall call
        (.opened process name world.table.nextDescription)).Sound := by
  refine hworld.setCall (hworld.table.openFile process inode) rfl ?_ ?_ ?_
  · intro other _
    refine (hworld.supported other).frame hentries fun process' description _ _ hopen ↦ ?_
    have hold := hworld.table.allocated description ⟨process', hopen⟩
    exact ⟨List.mem_cons_of_mem _ hopen, Function.update_of_ne hold.ne _ _, fun _ hlocked ↦ hlocked⟩
  · refine ⟨List.mem_cons_self, ?_⟩
    show entries name = some (.file (Function.update world.table.file _ inode _))
    rw [Function.update_self]
    exact hfile
  · intro description hdescription other _
    obtain rfl := Option.some.inj hdescription
    exact hworld.ne_nextDescription other

omit [DecidableEq Name] in
/-- The lock is taken by one call, and no other call has it. -/
theorem LockWorld.Sound.locked (hworld : world.Sound) {call : ι} {process : ℕ} {name : Name}
    {description : ℕ} {table : LockTable ℕ}
    (hphase : world.calls call = .opened process name description)
    (hlocked : world.table.lockExclusive description = some table) :
    ({ world with table := table }.setCall call (.held process name description)).Sound := by
  have hdescription : (world.calls call).description = some description := by rw [hphase]; rfl
  have hsupports := hworld.supported call
  rw [hphase] at hsupports
  obtain ⟨hopen, hname⟩ := hsupports
  obtain ⟨hfile, hdescriptors, -, htaken, hothers⟩ := LockTable.lockExclusive_eq_some hlocked
  refine hworld.setCall (hworld.table.lockExclusive ⟨process, hopen⟩ hlocked) rfl ?_ ?_ ?_
  · intro other hother
    refine (hworld.supported other).frame (fun _ _ hentry ↦ hentry) ?_
    intro process' description' _ hdescription' hopen'
    refine ⟨hdescriptors ▸ hopen', congrFun hfile _, fun file hholder ↦ ?_⟩
    have hne : description' ≠ description := by
      rintro rfl
      exact hworld.ne_description hother hdescription hdescription'
    by_cases hsame : file = world.table.file description
    · subst hsame
      refine absurd (LockTable.lockExclusive_eq_none_iff.mpr ⟨description', hne, hholder⟩) ?_
      rw [hlocked]
      exact Option.some_ne_none _
    · exact (hothers file hsame).trans hholder
  · refine ⟨hdescriptors ▸ hopen, ?_, ?_⟩
    · rw [hfile]
      exact hname
    · rw [hfile]
      exact htaken
  · intro description' hsame other hother
    obtain rfl := Option.some.inj hsame
    exact hworld.ne_description hother hdescription

omit [DecidableEq Name] in
theorem LockWorld.Sound.unlocked (hworld : world.Sound) {call : ι} {process : ℕ} {name : Name}
    {description : ℕ} (hphase : world.calls call = .unlocking process name description) :
    ({ world with table := world.table.unlock description }.setCall call
      (.closing process description)).Sound := by
  have hdescription : (world.calls call).description = some description := by rw [hphase]; rfl
  have hsupports := hworld.supported call
  rw [hphase] at hsupports
  refine hworld.setCall (hworld.table.unlock description) rfl ?_ hsupports.1 ?_
  · intro other hother
    refine (hworld.supported other).frame (fun _ _ hentry ↦ hentry) ?_
    intro process' description' _ hdescription' hopen'
    refine ⟨hopen', rfl, fun file hholder ↦ LockTable.locked_unlock.mpr ⟨hholder, ?_⟩⟩
    rintro rfl
    exact hworld.ne_description hother hdescription hdescription'
  · intro description' hsame other hother
    obtain rfl := Option.some.inj hsame
    exact hworld.ne_description hother hdescription

omit [DecidableEq Name] in
theorem LockWorld.Sound.closed (hworld : world.Sound) {call : ι} {process description : ℕ}
    {phase : LockPhase Name} (hdescription : (world.calls call).description = some description)
    (hclosed : phase.description = none) :
    ({ world with table := world.table.close process description }.setCall call phase).Sound := by
  refine hworld.setCall (hworld.table.close process description) rfl ?_ ?_ ?_
  · intro other hother
    refine (hworld.supported other).frame (fun _ _ hentry ↦ hentry) ?_
    intro process' description' _ hdescription' hopen'
    have hne : description' ≠ description := by
      rintro rfl
      exact hworld.ne_description hother hdescription hdescription'
    have hkept : (process', description') ∈ world.table.descriptors.erase (process, description) :=
      (List.mem_erase_of_ne fun hsame ↦ hne (Prod.mk.inj hsame).2).mpr hopen'
    exact ⟨hkept, rfl, fun file hholder ↦
      LockTable.locked_withDescriptors.mpr ⟨hholder, process', hkept⟩⟩
  · cases phase with
    | idle => trivial
    | refused error => trivial
    | _ => exact nomatch hclosed
  · intro description' hsame
    exact absurd (hclosed.symm.trans hsame) (Option.some_ne_none _).symm

omit [DecidableEq Name] [DecidableEq ι] in
theorem LockWorld.Sound.forked (hworld : world.Sound) (parent child : ℕ)
    (copies : List (ℕ × ℕ)) :
    ({ world with
      table := world.table.fork parent child
      copies := copies } : LockWorld Name ι).Sound where
  table := hworld.table.fork parent child
  supported call := (hworld.supported call).frame (fun _ _ hentry ↦ hentry)
    fun _ _ _ _ hopen ↦ ⟨List.mem_append_left _ hopen, rfl, fun _ hlocked ↦ hlocked⟩
  distinct := hworld.distinct

omit [DecidableEq Name] [DecidableEq ι] in
/-- A process ends with its calls, and the other processes keep their descriptors. -/
theorem LockWorld.Sound.exited (hworld : world.Sound) (process : ℕ) (copies : List (ℕ × ℕ)) :
    ({ world with
      table := world.table.exit process
      calls := fun call ↦
        if (world.calls call).process = some process then .idle else world.calls call
      copies := copies } : LockWorld Name ι).Sound := by
  refine ⟨hworld.table.exit process, ?_, ?_⟩
  · intro call
    dsimp only
    split_ifs with hprocess
    · trivial
    · refine (hworld.supported call).frame (fun _ _ hentry ↦ hentry) ?_
      intro process' description hprocess' _ hopen
      have hkept : (process', description) ∈ world.table.descriptors.filter
          (fun descriptor ↦ descriptor.1 ≠ process) := by
        refine List.mem_filter.mpr ⟨hopen, decide_eq_true ?_⟩
        rintro rfl
        exact hprocess hprocess'
      exact ⟨hkept, rfl, fun file hholder ↦
        LockTable.locked_withDescriptors.mpr ⟨hholder, process', hkept⟩⟩
  · intro call other description hcall hother
    dsimp only at hcall hother
    split_ifs at hcall hother
    · exact nomatch hcall
    · exact nomatch hcall
    · exact nomatch hother
    · exact hworld.distinct call other description hcall hother

/-- The step is not that a forked child drops its copy of a guard. -/
def LockWorld.DropsNoCopy (_ : LockWorld Name ι) (event : LockEvent Name ι) : Prop :=
  ∀ process description, event ≠ .dropCopy process description

/-- Every step keeps the invariant, unless a child gives back the lock of its parent. -/
theorem LockWorld.Sound.next {event : LockEvent Name ι} (hworld : world.Sound)
    (hkept : world.DropsNoCopy event) (htransition : LockTransition world event world') :
    world'.Sound := by
  cases htransition with
  | notOpened error hclosed => exact hworld.moved trivial (Or.inl rfl)
  | opened hclosed hfile hentries hnextFile hallocated => exact hworld.opened hfile hentries
  | locked hphase hlocked => exact hworld.locked hphase hlocked
  | @notLocked event call process name description error hphase hevent =>
    have hsupports := hworld.supported call
    rw [hphase] at hsupports
    exact hworld.moved hsupports.1 (Or.inr (by rw [hphase]; rfl))
  | @guardDropped call process name description hphase =>
    have hsupports := hworld.supported call
    rw [hphase] at hsupports
    exact hworld.moved hsupports (Or.inr (by rw [hphase]; rfl))
  | unlocked hphase => exact hworld.unlocked hphase
  | unlockInterrupted hkind => exact hworld
  | @notUnlocked call process name description error hphase hkind =>
    have hsupports := hworld.supported call
    rw [hphase] at hsupports
    exact hworld.moved hsupports.1 (Or.inr (by rw [hphase]; rfl))
  | closed hphase hclosed =>
    refine hworld.closed ?_ hclosed
    rcases hphase with ⟨error, hphase⟩ | hphase
    · rw [hphase]
      rfl
    · rw [hphase]
      rfl
  | forked parent child => exact hworld.forked parent child _
  | copyDropped hcopy => exact absurd rfl (hkept _ _)
  | exited process => exact hworld.exited process _
  | @planted name entry hfree =>
    refine ⟨hworld.table, fun call ↦ (hworld.supported call).frame ?_ ?_, hworld.distinct⟩
    · exact entries_planted hfree
    · exact fun _ _ _ _ hopen ↦ ⟨hopen, rfl, fun _ hlocked ↦ hlocked⟩

theorem LockWorld.sound_of_reachable {allowed : LockWorld Name ι → LockEvent Name ι → Prop}
    (hallowed : ∀ world event, allowed world event → world.DropsNoCopy event)
    (hreachable : (stateLocks display).ReachableBy allowed world) : world.Sound := by
  refine hreachable.invariant LockWorld.Sound ?_ ?_
  · intro world hstart
    refine ⟨⟨?_, ?_⟩, ?_, ?_⟩
    · intro file description hlocked
      exact absurd ((hstart.locked file).symm.trans hlocked) (Option.some_ne_none _).symm
    · rintro description ⟨process, hmem⟩
      rw [hstart.descriptors] at hmem
      exact absurd hmem List.not_mem_nil
    · intro call
      rw [hstart.calls]
      trivial
    · intro call other description hcall
      rw [hstart.calls] at hcall
      exact nomatch hcall
  · intro world event world' _ hevent hworld hstep
    exact hworld.next (hallowed world event hevent) (lockTransition_of_step hstep)

/-! ### Mutual exclusion -/

omit [DecidableEq Name] [DecidableEq ι] in
/-- A guard has the lock of the file of its name. -/
theorem LockWorld.Sound.locked_of_guarded (hworld : world.Sound) {call : ι} {name : Name}
    (hguarded : (world.calls call).guarded = some name) :
    ∃ description, (world.calls call).description = some description ∧
      world.entries name = some (.file (world.table.file description)) ∧
      world.table.locked (world.table.file description) = some description := by
  have hsupports := hworld.supported call
  cases hphase : world.calls call with
  | held process held description =>
    rw [hphase] at hsupports hguarded
    obtain rfl := Option.some.inj hguarded
    exact ⟨description, rfl, hsupports.2⟩
  | unlocking process held description =>
    rw [hphase] at hsupports hguarded
    obtain rfl := Option.some.inj hguarded
    exact ⟨description, rfl, hsupports.2⟩
  | _ =>
    rw [hphase] at hguarded
    exact nomatch hguarded

/-- No step removes what is at a name. -/
theorem entries_of_step {event : LockEvent Name ι}
    (hstep : lockStep display world event = some world') {name : Name} {entry : LockEntry}
    (hentry : world.entries name = some entry) : world'.entries name = some entry := by
  cases lockTransition_of_step hstep with
  | opened hclosed hfile hentries hnextFile hallocated => exact hentries name entry hentry
  | planted hfree => exact entries_planted hfree name entry hentry
  | _ => exact hentry

/-- The files at the names are allocated. -/
def LockWorld.Allocated (world : LockWorld Name ι) : Prop :=
  ∀ name inode, world.entries name = some (.file inode) → inode < world.nextFile

theorem LockWorld.allocated_of_reachable (hreachable : (stateLocks display).Reachable world) :
    world.Allocated := by
  refine hreachable.invariant LockWorld.Allocated (fun _ hstart ↦ LockWorld.IsStart.allocated hstart)
    ?_
  intro world event world' _ _ hworld hstep name inode hentry
  cases lockTransition_of_step hstep with
  | opened hclosed hfile hentries hnextFile hallocated =>
    rcases hallocated name inode hentry with hold | hnew
    · exact (hworld name inode hold).trans_le hnextFile
    · exact hnew
  | @planted planted entry hfree =>
    dsimp only at hentry ⊢
    by_cases hname : name = planted
    · rw [hname, Function.update_self, Option.some.injEq] at hentry
      rw [hentry]
      exact lt_max_of_lt_right (Nat.lt_succ_self _)
    · rw [Function.update_of_ne hname] at hentry
      exact lt_max_of_lt_left (hworld name inode hentry)
  | _ => exact hworld name inode hentry

/-- In every run in which no forked child drops its copy of a guard, whatever processes fork,
execute other programs and end, and whichever system calls fail: two guards that were not given back
are not for the same file, under one name or two; the lock file of a guard is a file, never a
symbolic link, and it stays at its name. -/
theorem stateLock_exclusive (display : Name → String) {world : LockWorld Name ι}
    (hreachable : (stateLocks display).ReachableBy LockWorld.DropsNoCopy world) :
    (∀ call other name name', (world.calls call).guarded = some name →
      (world.calls other).guarded = some name' → world.entries name = world.entries name' →
        call = other) ∧
    ∀ call name, (world.calls call).guarded = some name →
      ∃ inode, world.entries name = some (.file inode) ∧
        ∀ events world', (stateLocks display).run world events = some world' →
          world'.entries name = some (.file inode) := by
  have hworld := LockWorld.sound_of_reachable (fun _ _ ↦ id) hreachable
  constructor
  · intro call other name name' hcall hother hsame
    obtain ⟨description, hdescription, hentry, hlocked⟩ := hworld.locked_of_guarded hcall
    obtain ⟨description', hdescription', hentry', hlocked'⟩ := hworld.locked_of_guarded hother
    rw [hentry, hentry', Option.some.injEq, LockEntry.file.injEq] at hsame
    rw [hsame, hlocked', Option.some.injEq] at hlocked
    rw [← hlocked] at hdescription
    exact hworld.distinct call other description' hdescription hdescription'
  · intro call name hcall
    obtain ⟨description, -, hentry, -⟩ := hworld.locked_of_guarded hcall
    refine ⟨world.table.file description, hentry, fun events world' hrun ↦ ?_⟩
    exact TransitionSystem.run_keeps
      (fun state ↦ state.entries name = some (.file (world.table.file description)))
      (fun _ _ _ hstate hstep ↦ entries_of_step hstep hstate) hentry hrun

/-- A directory with a symbolic link at `true` and nothing at `false`. -/
def emptyLocks : LockWorld Bool ℕ where
  entries := fun name ↦ if name then some .symbolicLink else none
  nextFile := 0
  table := ⟨fun _ ↦ 0, [], fun _ ↦ none, 0⟩
  calls := fun _ ↦ .idle
  copies := []

theorem isStart_emptyLocks : emptyLocks.IsStart where
  allocated := by
    rintro (_ | _) inode hentry
    · exact nomatch hentry
    · exact nomatch hentry
  descriptors := rfl
  locked := fun _ ↦ rfl
  calls := fun _ ↦ rfl
  copies := rfl

/-- The path of a lock file, as errors show it. -/
def lockPath (name : Bool) : String :=
  if name then "/link.lock" else "/device.lock"

/-- A process locks the file, forks, and another process opens the file. -/
def contendedRun : List (LockEvent Bool ℕ) :=
  [.openFile 0 7 false, .lockFile 0, .fork 7 8, .openFile 1 9 false]

/-- The first process has the only guard. -/
theorem stateLock_exclusive_contendedRun :
    ∃ world, (stateLocks lockPath).run emptyLocks contendedRun = some world ∧
      world.calls 0 = .held 7 false 0 ∧ world.calls 1 = .opened 9 false 1 ∧
      ∀ other name, (world.calls other).guarded = some name →
        world.entries false = world.entries name → 0 = other := by
  have hfinal : ((stateLocks lockPath).run emptyLocks contendedRun).map
      (fun world ↦ (world.calls 0, world.calls 1)) =
      some (.held 7 false 0, .opened 9 false 1) := by decide +kernel
  obtain ⟨world, hrun, hcalls⟩ := Option.map_eq_some_iff.mp hfinal
  obtain ⟨hfirst, hsecond⟩ := Prod.mk.inj hcalls
  have hreachable : (stateLocks lockPath).ReachableBy LockWorld.DropsNoCopy world := by
    refine TransitionSystem.ReachableBy.run (.start isStart_emptyLocks) ?_ hrun
    intro event hevent state process description
    fin_cases hevent <;> nofun
  refine ⟨world, hrun, hfirst, hsecond, fun other name hother hsame ↦ ?_⟩
  exact (stateLock_exclusive lockPath hreachable).1 0 other false name
    (by rw [hfirst]; rfl) hother hsame

/-- Once the child has dropped its copy of that guard, the other process gets one too. -/
example : ((stateLocks lockPath).run emptyLocks
      (contendedRun ++ [.dropCopy 8 0, .lockFile 1])).map
    (fun world ↦ (world.calls 0, world.calls 1)) =
      some (.held 7 false 0, .held 9 false 1) := by
  decide +kernel

/-! ### Release -/

/-- No process ends with a guard, no forked child drops its copy of one, and giving a lock back
fails for no other reason than that it was interrupted. -/
def LockWorld.Orderly (world : LockWorld Name ι) : LockEvent Name ι → Prop
  | .exit process => ∀ call, (world.calls call).process = some process →
      (world.calls call).guarded = none
  | .unlockFails _ error => error.kind = interrupted
  | .dropCopy _ _ => False
  | _ => True

omit [DecidableEq Name] [DecidableEq ι] in
theorem LockWorld.Orderly.dropsNoCopy {event : LockEvent Name ι} (horderly : world.Orderly event) :
    world.DropsNoCopy event := by
  rintro process description rfl
  exact horderly

/-- Every lock is that of a guard that is alive. -/
def LockWorld.Guarded (world : LockWorld Name ι) : Prop :=
  ∀ file description, world.table.locked file = some description →
    ∃ call name, (world.calls call).description = some description ∧
      (world.calls call).guarded = some name

omit [DecidableEq Name] in
/-- A call moves on that is not the guard of a lock that is left. -/
theorem LockWorld.Guarded.setCall (hworld : world.Guarded) {call : ι} {phase : LockPhase Name}
    (hcalls : world'.calls = world.calls)
    (hlocked : ∀ file description, world'.table.locked file = some description →
      world.table.locked file = some description ∧
        ((world.calls call).description = some description → (world.calls call).guarded = none)) :
    (world'.setCall call phase).Guarded := by
  intro file description hholder
  obtain ⟨hbefore, hunguarded⟩ := hlocked file description hholder
  obtain ⟨guard, name, hdescription, hguarded⟩ := hworld file description hbefore
  have hne : guard ≠ call := by
    rintro rfl
    exact absurd ((hunguarded hdescription).symm.trans hguarded) (Option.some_ne_none _).symm
  have hsame : (world'.setCall call phase).calls guard = world.calls guard :=
    (Function.update_of_ne hne _ _).trans (congrFun hcalls guard)
  exact ⟨guard, name, hsame ▸ hdescription, hsame ▸ hguarded⟩

/-- Orderly steps leave no lock without a guard. -/
theorem LockWorld.Guarded.next {event : LockEvent Name ι} (hworld : world.Guarded)
    (horderly : world.Orderly event) (htransition : LockTransition world event world') :
    world'.Guarded := by
  cases htransition with
  | notOpened error hclosed =>
    exact hworld.setCall rfl fun _ _ hlocked ↦ ⟨hlocked, fun hopen ↦
      absurd (hclosed.symm.trans hopen) (Option.some_ne_none _).symm⟩
  | opened hclosed hfile hentries hnextFile hallocated =>
    exact hworld.setCall rfl fun _ _ hlocked ↦ ⟨hlocked, fun hopen ↦
      absurd (hclosed.symm.trans hopen) (Option.some_ne_none _).symm⟩
  | @locked call process name description table hphase hlocked =>
    obtain ⟨-, -, -, htaken, hothers⟩ := LockTable.lockExclusive_eq_some hlocked
    intro file holder hholder
    by_cases hsame : file = world.table.file description
    · subst hsame
      obtain rfl := Option.some.inj (htaken.symm.trans hholder)
      refine ⟨call, name, ?_, ?_⟩ <;> exact congrArg _ (Function.update_self call _ _)
    · rw [LockWorld.setCall, hothers file hsame] at hholder
      obtain ⟨guard, guarded, hdescription, hguarded⟩ := hworld file holder hholder
      have hne : guard ≠ call := by
        rintro rfl
        rw [hphase] at hguarded
        exact nomatch hguarded
      have hkept := Function.update_of_ne hne (.held process name description) world.calls
      exact ⟨guard, guarded, (congrArg _ hkept).trans hdescription,
        (congrArg _ hkept).trans hguarded⟩
  | notLocked error hphase =>
    exact hworld.setCall rfl fun _ _ hlocked ↦ ⟨hlocked, fun _ ↦ by rw [hphase]; rfl⟩
  | @guardDropped call process name description hphase =>
    intro file holder hholder
    obtain ⟨guard, guarded, hdescription, hguarded⟩ := hworld file holder hholder
    by_cases hne : guard = call
    · subst hne
      rw [hphase] at hdescription
      refine ⟨guard, name, ?_, ?_⟩
      · exact (congrArg _ (Function.update_self guard _ _)).trans hdescription
      · exact congrArg _ (Function.update_self guard _ _)
    · have hkept := Function.update_of_ne hne (.unlocking process name description) world.calls
      exact ⟨guard, guarded, (congrArg _ hkept).trans hdescription,
        (congrArg _ hkept).trans hguarded⟩
  | @unlocked call process name description hphase =>
    refine hworld.setCall rfl fun file holder hholder ↦ ?_
    obtain ⟨hbefore, hne⟩ := LockTable.locked_unlock.mp hholder
    refine ⟨hbefore, fun hdescription ↦ absurd ?_ hne⟩
    rw [hphase] at hdescription
    exact (Option.some.inj hdescription).symm
  | unlockInterrupted hkind => exact hworld
  | notUnlocked hphase hkind => exact absurd horderly hkind
  | closed hphase hclosed =>
    refine hworld.setCall rfl fun _ _ hlocked ↦
      ⟨(LockTable.locked_withDescriptors.mp hlocked).1, fun _ ↦ ?_⟩
    rcases hphase with ⟨error, hphase⟩ | hphase
    · rw [hphase]
      rfl
    · rw [hphase]
      rfl
  | forked parent child => exact hworld
  | copyDropped hcopy => exact horderly.elim
  | exited process =>
    intro file holder hholder
    obtain ⟨guard, name, hdescription, hguarded⟩ :=
      hworld file holder (LockTable.locked_withDescriptors.mp hholder).1
    have hprocess : (world.calls guard).process ≠ some process := by
      intro hprocess
      exact absurd ((horderly guard hprocess).symm.trans hguarded) (Option.some_ne_none _).symm
    refine ⟨guard, name, ?_⟩
    dsimp only
    rw [if_neg hprocess]
    exact ⟨hdescription, hguarded⟩
  | planted hfree => exact hworld

theorem LockWorld.guarded_of_reachable
    (hreachable : (stateLocks display).ReachableBy LockWorld.Orderly world) : world.Guarded := by
  refine hreachable.invariant LockWorld.Guarded ?_ ?_
  · intro world hstart file description hlocked
    exact absurd ((hstart.locked file).symm.trans hlocked) (Option.some_ne_none _).symm
  · intro world event world' _ horderly hworld hstep
    exact hworld.next horderly (lockTransition_of_step hstep)

/-- A call that has opened its file stays there until its own `flock`, or ends with its process. -/
theorem calls_of_opened {event : LockEvent Name ι} {call : ι} {process : ℕ} {name : Name}
    {description : ℕ} (hphase : world.calls call = .opened process name description)
    (hstep : lockStep display world event = some world') :
    world'.calls call = world.calls call ∨ event = .lockFile call ∨
      (∃ error, event = .lockFails call error) ∨ event = .exit process := by
  have hother : ∀ other phase, world.calls other ≠ world.calls call →
      Function.update world.calls other phase call = world.calls call := by
    intro other phase hne
    exact Function.update_of_ne (fun hsame ↦ hne (by rw [hsame])) _ _
  cases lockTransition_of_step hstep with
  | notOpened error hclosed | opened hclosed hfile hentries hnextFile hallocated =>
    refine Or.inl (hother _ _ fun hsame ↦ ?_)
    rw [hsame, hphase] at hclosed
    exact nomatch hclosed
  | @locked other process' name' description' table hopened =>
    by_cases hsame : call = other
    · exact Or.inr (Or.inl (by rw [hsame]))
    · exact Or.inl (Function.update_of_ne hsame _ _)
  | @notLocked event other process' name' description' error hopened hevent =>
    by_cases hsame : call = other
    · rw [hsame]
      exact Or.inr (hevent.imp_right Or.inl)
    · exact Or.inl (Function.update_of_ne hsame _ _)
  | guardDropped hheld | unlocked hheld | notUnlocked hheld =>
    exact Or.inl (hother _ _ (by rw [hheld, hphase]; nofun))
  | unlockInterrupted hkind => exact Or.inl rfl
  | closed hclosing =>
    refine Or.inl (hother _ _ ?_)
    rcases hclosing with ⟨error, hclosing⟩ | hclosing
    · rw [hclosing, hphase]
      nofun
    · rw [hclosing, hphase]
      nofun
  | forked parent child => exact Or.inl rfl
  | copyDropped hcopy => exact Or.inl rfl
  | exited ended =>
    dsimp only
    split_ifs with hended
    · rw [hphase] at hended
      obtain rfl := Option.some.inj hended
      exact Or.inr (Or.inr (Or.inr rfl))
    · exact Or.inl rfl
  | planted hfree => exact Or.inl rfl

/-- In every run in which no process ends with a guard, no forked child drops its copy of one, and
locks can be given back: a call that has opened its file goes on by its `flock` only, and this is
refused exactly when a guard for that file is alive, and has one otherwise, unless it fails for a
reason of its own. Descriptors that children have inherited keep nothing locked. -/
theorem stateLock_refused_iff (display : Name → String) {world : LockWorld Name ι}
    (hreachable : (stateLocks display).ReachableBy LockWorld.Orderly world) {call : ι}
    {process : ℕ} {name : Name} {description : ℕ}
    (hphase : world.calls call = .opened process name description) :
    (∃ world', lockStep display world (.lockFile call) = some world' ∧
      (world'.calls call = .refusing process description
          (lockError (display name) "acquire" wouldBlock) ↔
        ∃ other guarded, (world.calls other).guarded = some guarded ∧
          world.entries guarded = world.entries name) ∧
      (world'.calls call = .held process name description ↔
        ¬ ∃ other guarded, (world.calls other).guarded = some guarded ∧
          world.entries guarded = world.entries name)) ∧
    ∀ event world', lockStep display world event = some world' →
      world'.calls call = world.calls call ∨ event = .lockFile call ∨
        (∃ error, event = .lockFails call error) ∨ event = .exit process := by
  refine ⟨?_, fun event world' hstep ↦ calls_of_opened hphase hstep⟩
  have hworld := LockWorld.sound_of_reachable
    (fun _ _ horderly ↦ LockWorld.Orderly.dropsNoCopy horderly) hreachable
  have hguards := LockWorld.guarded_of_reachable hreachable
  have hsupports := hworld.supported call
  rw [hphase] at hsupports
  have hfree : (∃ other guarded, (world.calls other).guarded = some guarded ∧
      world.entries guarded = world.entries name) ↔
        world.table.lockExclusive description = none := by
    rw [LockTable.lockExclusive_eq_none_iff]
    constructor
    · rintro ⟨other, guarded, hguarded, hsame⟩
      obtain ⟨holder, hholder, hentry, hlocked⟩ := hworld.locked_of_guarded hguarded
      rw [hentry, hsupports.2, Option.some.injEq, LockEntry.file.injEq] at hsame
      refine ⟨holder, ?_, hsame ▸ hlocked⟩
      rintro rfl
      have hcall : (world.calls call).description = some holder := by rw [hphase]; rfl
      obtain rfl := hworld.distinct other call holder hholder hcall
      rw [hphase] at hguarded
      exact nomatch hguarded
    · rintro ⟨holder, -, hlocked⟩
      obtain ⟨other, guarded, hdescription, hguarded⟩ := hguards _ holder hlocked
      obtain ⟨holder', hholder', hentry, -⟩ := hworld.locked_of_guarded hguarded
      obtain rfl := Option.some.inj (hdescription.symm.trans hholder')
      refine ⟨other, guarded, hguarded, ?_⟩
      rw [hentry, hsupports.2, (hworld.table.locked _ holder hlocked).1]
  rw [hfree]
  unfold lockStep
  dsimp only
  rw [hphase]
  dsimp only
  cases hlock : world.table.lockExclusive description with
  | none =>
    refine ⟨_, rfl, ?_, ?_⟩ <;> simp [LockWorld.setCall]
  | some table =>
    refine ⟨_, rfl, ?_, ?_⟩ <;> simp [LockWorld.setCall]

/-- The guard is dropped, its release interrupted once, while a child has the descriptor. -/
def releasedRun : List (LockEvent Bool ℕ) :=
  contendedRun ++ [.dropGuard 0, .unlockFails 0 ⟨interrupted, "Interrupted system call"⟩,
    .unlockFile 0, .closeFile 0]

/-- Then the other process gets its guard, and no guard was left before. -/
theorem stateLock_refused_iff_releasedRun :
    ∃ world world', (stateLocks lockPath).run emptyLocks releasedRun = some world ∧
      world.table.descriptors = [(9, 1), (8, 0)] ∧
      lockStep lockPath world (.lockFile 1) = some world' ∧
      world'.calls 1 = .held 9 false 1 ∧
      ¬ ∃ other guarded, (world.calls other).guarded = some guarded ∧
        world.entries guarded = world.entries false := by
  have hfinal : ((stateLocks lockPath).run emptyLocks releasedRun).map
      (fun world ↦ (world.calls 1, world.table.descriptors,
        (lockStep lockPath world (.lockFile 1)).map fun world' ↦ world'.calls 1)) =
      some (.opened 9 false 1, [(9, 1), (8, 0)], some (.held 9 false 1)) := by decide +kernel
  obtain ⟨world, hrun, hcalls⟩ := Option.map_eq_some_iff.mp hfinal
  obtain ⟨hopened, hrest⟩ := Prod.mk.inj hcalls
  obtain ⟨hdescriptors, hlocked⟩ := Prod.mk.inj hrest
  have hreachable : (stateLocks lockPath).ReachableBy LockWorld.Orderly world := by
    refine TransitionSystem.ReachableBy.run (.start isStart_emptyLocks) ?_ hrun
    intro event hevent state
    fin_cases hevent <;> trivial
  obtain ⟨⟨world', hstep, -, hheld⟩, -⟩ := stateLock_refused_iff lockPath hreachable hopened
  rw [hstep] at hlocked
  have hguard := Option.some.inj hlocked
  exact ⟨world, world', hrun, hdescriptors, hstep, hguard, hheld.mp hguard⟩

end SoftwareKeyCore.StatePersistence
