import Mathlib

/-!
# A directory that survives crashes

A directory of files with a cache in front of the medium. Operations on names are queued until the
directory is synced, and the data of a file stays in the cache until the file is synced. A crash
keeps any of the queued operations, each as a whole, and leaves anything at all in files that were
not synced (`Disk.crash`).

`Disk.Possible name` are the entries that a name may have after a crash. The entry that lookups see
is possible (`possible_entry`), so is each entry that a crash leaves (`possible_of_crash`), and each
operation changes the possible entries only of the names it is about.
-/

set_option autoImplicit false
set_option relaxedAutoImplicit false

namespace SoftwareKeyCore.CrashDisk

variable {Name Byte : Type} [DecidableEq Name]

/-- Which file a name stands for. -/
abbrev Entries (Name : Type) := Name → Option ℕ

/-- An operation on the names of a directory. -/
inductive Operation (Name : Type)
  | link (name : Name) (inode : ℕ)
  | rename (source destination : Name) (inode : ℕ)
  | unlink (name : Name)
  deriving DecidableEq, Repr

/-- What the operation makes of a name; `none` when it leaves the name alone. -/
def Operation.effect (name : Name) : Operation Name → Option (Option ℕ)
  | .link linked inode => if name = linked then some (some inode) else none
  | .rename source destination inode =>
    if name = destination then some (some inode)
    else if name = source then some none
    else none
  | .unlink removed => if name = removed then some none else none

/-- The entries after the operation. -/
def Operation.apply (operation : Operation Name) (entries : Entries Name) : Entries Name :=
  fun name ↦ (operation.effect name).getD (entries name)

/-- The entries after operations in their order. -/
def replay (entries : Entries Name) (operations : List (Operation Name)) : Entries Name :=
  operations.foldl (fun entries operation ↦ operation.apply entries) entries

theorem replay_append (entries : Entries Name) (operations : List (Operation Name))
    (operation : Operation Name) :
    replay entries (operations ++ [operation]) = operation.apply (replay entries operations) := by
  rw [replay, List.foldl_append]
  rfl

/-- An entry after operations is that of before, or one of them made it. -/
theorem replay_eq_or (entries : Entries Name) (operations : List (Operation Name)) (name : Name) :
    replay entries operations name = entries name ∨
      ∃ operation ∈ operations, operation.effect name = some (replay entries operations name) := by
  induction operations using List.reverseRecOn with
  | nil => exact Or.inl rfl
  | append_singleton operations operation ih =>
    rw [replay_append]
    cases heffect : operation.effect name with
    | some entry =>
      refine Or.inr ⟨operation, by simp, ?_⟩
      rw [Operation.apply, heffect, Option.getD_some]
    | none =>
      have hsame : operation.apply (replay entries operations) name =
          replay entries operations name := by
        rw [Operation.apply, heffect, Option.getD_none]
      rw [hsame]
      refine ih.imp_right ?_
      rintro ⟨earlier, hmem, hearlier⟩
      exact ⟨earlier, List.mem_append_left _ hmem, hearlier⟩

/-- A directory and its files. -/
structure Disk (Name Byte : Type) where
  /-- The entries on the medium. -/
  durable : Entries Name
  /-- The operations since the last sync of the directory, in order. -/
  pending : List (Operation Name)
  /-- The data of the files, as reads see it. -/
  data : ℕ → List Byte
  /-- The files whose data is on the medium. -/
  synced : ℕ → Bool
  /-- The first file that was never allocated. -/
  nextInode : ℕ

namespace Disk

variable (disk : Disk Name Byte)

/-- The entries that lookups see. -/
def entry : Entries Name :=
  replay disk.durable disk.pending

/-- The data of the file of a name. -/
def contents (name : Name) : Option (List Byte) :=
  (disk.entry name).map disk.data

/-! ### Operations -/

/-- One more operation on the names. -/
def perform (operation : Operation Name) : Disk Name Byte :=
  { disk with pending := disk.pending ++ [operation] }

/-- The disk with a new, empty file of the name. -/
def withNew (name : Name) : Disk Name Byte :=
  { disk.perform (.link name disk.nextInode) with
    data := Function.update disk.data disk.nextInode []
    synced := Function.update disk.synced disk.nextInode false
    nextInode := disk.nextInode + 1 }

/-- A new file, unless the name is taken. -/
def createNew (name : Name) : Option (ℕ × Disk Name Byte) :=
  match disk.entry name with
  | some _ => none
  | none => some (disk.nextInode, disk.withNew name)

/-- More data at the end of a file. -/
def append (inode : ℕ) (bytes : List Byte) : Disk Name Byte :=
  { disk with
    data := Function.update disk.data inode (disk.data inode ++ bytes)
    synced := Function.update disk.synced inode false }

/-- The sync of a file. -/
def syncFile (inode : ℕ) : Disk Name Byte :=
  { disk with synced := Function.update disk.synced inode true }

/-- The rename of a file within the directory; a rename to the same name does nothing. -/
def rename (source destination : Name) : Option (Disk Name Byte) :=
  match disk.entry source with
  | none => none
  | some inode =>
    if source = destination then some disk
    else some (disk.perform (.rename source destination inode))

/-- The removal of a name. -/
def remove (name : Name) : Option (Disk Name Byte) :=
  match disk.entry name with
  | none => none
  | some _ => some (disk.perform (.unlink name))

/-- The sync of the directory. -/
def syncDirectory : Disk Name Byte :=
  { disk with durable := disk.entry, pending := [] }

/-- A crash that keeps some of the pending operations and leaves anything in the files that were
not synced. -/
def crash (kept : List (Operation Name)) (left : ℕ → List Byte) : Disk Name Byte :=
  { disk with
    durable := replay disk.durable kept
    pending := []
    data := fun inode ↦ if disk.synced inode then disk.data inode else left inode
    synced := fun _ ↦ true }

/-! ### The entries a crash may leave -/

/-- The name may have the entry after a crash. -/
def Possible (name : Name) (entry : Option ℕ) : Prop :=
  disk.durable name = entry ∨ ∃ operation ∈ disk.pending, operation.effect name = some entry

variable {disk} {name : Name} {entry : Option ℕ}

theorem possible_entry (disk : Disk Name Byte) (name : Name) :
    disk.Possible name (disk.entry name) :=
  (replay_eq_or disk.durable disk.pending name).imp_left Eq.symm

/-- What a crash leaves was possible. -/
theorem possible_of_crash {kept : List (Operation Name)} {left : ℕ → List Byte}
    (hkept : kept.Sublist disk.pending) (hpossible : (disk.crash kept left).Possible name entry) :
    disk.Possible name entry := by
  rcases hpossible with rfl | ⟨operation, hmem, -⟩
  · refine (replay_eq_or disk.durable kept name).imp Eq.symm ?_
    rintro ⟨operation, hmem, heffect⟩
    exact ⟨operation, hkept.subset hmem, heffect⟩
  · exact absurd hmem List.not_mem_nil

theorem possible_perform {operation : Operation Name} :
    (disk.perform operation).Possible name entry ↔
      disk.Possible name entry ∨ operation.effect name = some entry := by
  unfold Possible perform
  simp only [List.mem_append, List.mem_singleton, or_and_right, exists_or, exists_eq_left, or_assoc]

/-- Only the entry that lookups see is possible after a sync of the directory. -/
theorem possible_syncDirectory :
    disk.syncDirectory.Possible name entry ↔ disk.entry name = entry := by
  unfold Possible syncDirectory
  simp

theorem entry_perform (operation : Operation Name) :
    (disk.perform operation).entry = operation.apply disk.entry :=
  replay_append _ _ _

theorem contents_of_entry {inode : ℕ} (hentry : disk.entry name = some inode) :
    disk.contents name = some (disk.data inode) := by
  rw [contents, hentry, Option.map_some]

/-! ### The entries and the data after an operation -/

section Effects

variable {other : Name} {inode : ℕ}

/-- An operation that is not about a name leaves its entry. -/
theorem entry_perform_of_none {operation : Operation Name}
    (heffect : operation.effect name = none) :
    (disk.perform operation).entry name = disk.entry name := by
  rw [entry_perform, Operation.apply, heffect, Option.getD_none]

/-- An operation that is about a name makes its entry. -/
theorem entry_perform_of_some {operation : Operation Name}
    (heffect : operation.effect name = some entry) :
    (disk.perform operation).entry name = entry := by
  rw [entry_perform, Operation.apply, heffect, Option.getD_some]

theorem effect_link_self : (Operation.link name inode).effect name = some (some inode) :=
  if_pos rfl

theorem effect_link_of_ne (hname : name ≠ other) :
    (Operation.link other inode).effect name = none :=
  if_neg hname

theorem effect_rename_destination :
    (Operation.rename other name inode).effect name = some (some inode) :=
  if_pos rfl

/-- A rename makes entries for the file that it moves only. -/
theorem eq_of_effect_rename {source destination : Name} {moved : ℕ}
    (heffect : (Operation.rename source destination moved).effect name = some (some inode)) :
    inode = moved := by
  rw [Operation.effect] at heffect
  split_ifs at heffect with hdestination hsource
  · exact (Option.some.inj (Option.some.inj heffect)).symm
  · exact nomatch Option.some.inj heffect

/-- A removal makes no entry. -/
theorem effect_unlink_ne (name other : Name) (inode : ℕ) :
    (Operation.unlink other).effect name ≠ some (some inode) := by
  rw [Operation.effect]
  split_ifs
  · exact fun heffect ↦ nomatch Option.some.inj heffect
  · exact fun heffect ↦ nomatch heffect

theorem effect_unlink_of_ne (hname : name ≠ other) : (Operation.unlink other).effect name = none :=
  if_neg hname

theorem entry_withNew_self (disk : Disk Name Byte) (name : Name) :
    (disk.withNew name).entry name = some disk.nextInode := by
  show (disk.perform (.link name disk.nextInode)).entry name = some disk.nextInode
  exact entry_perform_of_some effect_link_self

/-- A new file leaves the other names. -/
theorem entry_withNew_of_ne (hname : name ≠ other) :
    (disk.withNew other).entry name = disk.entry name := by
  show (disk.perform (.link other disk.nextInode)).entry name = disk.entry name
  exact entry_perform_of_none (effect_link_of_ne hname)

/-- A new file adds one possible entry, of its name. -/
theorem possible_withNew :
    (disk.withNew other).Possible name entry ↔
      disk.Possible name entry ∨ name = other ∧ entry = some disk.nextInode := by
  show (disk.perform (.link other disk.nextInode)).Possible name entry ↔ _
  rw [possible_perform, Operation.effect, Option.ite_none_right_eq_some, Option.some.injEq,
    eq_comm (a := entry)]

omit [DecidableEq Name] in
theorem data_withNew_of_ne (hinode : inode ≠ disk.nextInode) :
    (disk.withNew name).data inode = disk.data inode :=
  Function.update_of_ne hinode _ _

omit [DecidableEq Name] in
theorem synced_withNew_of_ne (hinode : inode ≠ disk.nextInode) :
    (disk.withNew name).synced inode = disk.synced inode :=
  Function.update_of_ne hinode _ _

/-- A rename moves the file of the source, unless the names are the same. -/
theorem rename_eq_some {source destination : Name} {disk' : Disk Name Byte}
    (hrenamed : disk.rename source destination = some disk') :
    ∃ inode, disk.entry source = some inode ∧
      (source = destination ∧ disk' = disk ∨
        source ≠ destination ∧ disk' = disk.perform (.rename source destination inode)) := by
  unfold rename at hrenamed
  cases hentry : disk.entry source with
  | none =>
    rw [hentry] at hrenamed
    exact nomatch hrenamed
  | some inode =>
    rw [hentry] at hrenamed
    dsimp only at hrenamed
    refine ⟨inode, rfl, ?_⟩
    split_ifs at hrenamed with hsame
    · exact Or.inl ⟨hsame, (Option.some.inj hrenamed).symm⟩
    · exact Or.inr ⟨hsame, (Option.some.inj hrenamed).symm⟩

theorem remove_eq_some {disk' : Disk Name Byte} (hremoved : disk.remove name = some disk') :
    disk' = disk.perform (.unlink name) := by
  unfold remove at hremoved
  split at hremoved
  · exact nomatch hremoved
  · exact (Option.some.inj hremoved).symm

/-- After a rename the destination stands for the file of the source. -/
theorem entry_of_rename {source destination : Name} {disk' : Disk Name Byte}
    (hrenamed : disk.rename source destination = some disk')
    (hentry : disk.entry source = some inode) :
    disk'.entry destination = some inode ∧ disk'.data = disk.data := by
  obtain ⟨moved, hmoved, hcases⟩ := rename_eq_some hrenamed
  obtain rfl := Option.some.inj (hmoved.symm.trans hentry)
  rcases hcases with ⟨rfl, rfl⟩ | ⟨-, rfl⟩
  · exact ⟨hentry, rfl⟩
  · exact ⟨entry_perform_of_some effect_rename_destination, rfl⟩

end Effects

end Disk

end SoftwareKeyCore.CrashDisk
