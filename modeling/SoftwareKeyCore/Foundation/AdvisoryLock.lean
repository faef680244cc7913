import Mathlib

/-!
# Advisory locks of open file descriptions

Exclusive locks on files as the kernel keeps them for `flock`: a lock belongs to an open file
description, and processes have descriptors of descriptions. A fork gives the child descriptors of
the same descriptions. A lock ends when it is given back through any of its descriptors, or when
the last one is closed.

`Consistent` is what holds of every table: a locked file has a description of it that is open.
-/

set_option autoImplicit false
set_option relaxedAutoImplicit false

namespace SoftwareKeyCore

/-- The file of each description, the descriptors of the processes, and the description that has
the lock of a file. -/
structure LockTable (Process : Type) where
  file : ℕ → ℕ
  descriptors : List (Process × ℕ)
  locked : ℕ → Option ℕ
  nextDescription : ℕ

namespace LockTable

variable {Process : Type} (table : LockTable Process)

/-- A process has a descriptor of the description. -/
def IsOpen (description : ℕ) : Prop :=
  ∃ process, (process, description) ∈ table.descriptors

/-- Other descriptors; a lock without any descriptor of its description ends. -/
def withDescriptors (descriptors : List (Process × ℕ)) : LockTable Process :=
  { table with
    descriptors := descriptors
    locked := fun file ↦ (table.locked file).filter fun description ↦
      descriptors.any fun descriptor ↦ descriptor.2 = description }

/-- The process opens a file: a new description, and a descriptor of it. -/
def openFile (process : Process) (file : ℕ) : LockTable Process :=
  { table with
    file := Function.update table.file table.nextDescription file
    descriptors := (process, table.nextDescription) :: table.descriptors
    nextDescription := table.nextDescription + 1 }

/-- `flock` with `LOCK_EX | LOCK_NB`: nothing when another description has the lock. -/
def lockExclusive (description : ℕ) : Option (LockTable Process) :=
  match table.locked (table.file description) with
  | none => some { table with
      locked := Function.update table.locked (table.file description) (some description) }
  | some holder => if holder = description then some table else none

/-- `flock` with `LOCK_UN`. -/
def unlock (description : ℕ) : LockTable Process :=
  { table with
    locked := fun file ↦ (table.locked file).filter fun holder ↦ holder ≠ description }

/-- `close`. -/
def close [DecidableEq Process] (process : Process) (description : ℕ) : LockTable Process :=
  table.withDescriptors (table.descriptors.erase (process, description))

/-- `fork`: the child has descriptors of the same descriptions. -/
def fork [DecidableEq Process] (parent child : Process) : LockTable Process :=
  { table with
    descriptors := table.descriptors ++
      (table.descriptors.filter fun descriptor ↦ descriptor.1 = parent).map
        fun descriptor ↦ (child, descriptor.2) }

/-- The process ends, or executes another program, which closes its descriptors. -/
def exit [DecidableEq Process] (process : Process) : LockTable Process :=
  table.withDescriptors (table.descriptors.filter fun descriptor ↦ descriptor.1 ≠ process)

/-- Only open descriptions have locks, of their own files, and no open description is new. -/
structure Consistent : Prop where
  locked : ∀ file description, table.locked file = some description →
    table.file description = file ∧ table.IsOpen description
  allocated : ∀ description, table.IsOpen description → description < table.nextDescription

variable {table} {process : Process} {file description : ℕ}

/-! ### Whose lock it is after an operation -/

theorem locked_withDescriptors {descriptors : List (Process × ℕ)} :
    (table.withDescriptors descriptors).locked file = some description ↔
      table.locked file = some description ∧
        ∃ process, (process, description) ∈ descriptors := by
  simp [withDescriptors, Option.filter_eq_some_iff]

theorem locked_unlock {holder : ℕ} :
    (table.unlock description).locked file = some holder ↔
      table.locked file = some holder ∧ holder ≠ description := by
  simp [unlock, Option.filter_eq_some_iff]

/-- A description takes the lock of its file, or has it already. -/
theorem lockExclusive_eq_some {table' : LockTable Process}
    (hlocked : table.lockExclusive description = some table') :
    table'.file = table.file ∧ table'.descriptors = table.descriptors ∧
      table'.nextDescription = table.nextDescription ∧
      table'.locked (table.file description) = some description ∧
      ∀ file ≠ table.file description, table'.locked file = table.locked file := by
  unfold lockExclusive at hlocked
  split at hlocked
  · obtain rfl := Option.some.inj hlocked
    exact ⟨rfl, rfl, rfl, Function.update_self _ _ _, fun file hfile ↦
      Function.update_of_ne hfile _ _⟩
  · next holder hholder =>
    obtain ⟨rfl, htable⟩ := Option.ite_none_right_eq_some.mp hlocked
    obtain rfl := Option.some.inj htable
    exact ⟨rfl, rfl, rfl, hholder, fun _ _ ↦ rfl⟩

/-- The lock is refused exactly when another description has it. -/
theorem lockExclusive_eq_none_iff :
    table.lockExclusive description = none ↔
      ∃ holder ≠ description, table.locked (table.file description) = some holder := by
  unfold lockExclusive
  split
  · next hfree => simp [hfree]
  · next holder hholder =>
    rw [hholder]
    simp

/-! ### Consistency -/

namespace Consistent

variable (htable : table.Consistent)
include htable

theorem withDescriptors {descriptors : List (Process × ℕ)}
    (hopen : ∀ process description, (process, description) ∈ descriptors →
      table.IsOpen description) : (table.withDescriptors descriptors).Consistent where
  locked file description hlocked := by
    obtain ⟨hbefore, hopen'⟩ := locked_withDescriptors.mp hlocked
    exact ⟨(htable.locked file description hbefore).1, hopen'⟩
  allocated := fun description ⟨process, hmem⟩ ↦
    htable.allocated description (hopen process description hmem)

theorem openFile (process : Process) (file : ℕ) : (table.openFile process file).Consistent where
  locked other description hlocked := by
    obtain ⟨hfile, process', hmem⟩ := htable.locked other description hlocked
    have hold := htable.allocated description ⟨process', hmem⟩
    exact ⟨(Function.update_of_ne hold.ne _ _).trans hfile, process', List.mem_cons_of_mem _ hmem⟩
  allocated := by
    rintro description ⟨process', hmem⟩
    rcases List.mem_cons.mp hmem with hnew | hold
    · obtain ⟨-, rfl⟩ := Prod.mk.inj hnew
      exact Nat.lt_succ_self _
    · exact (htable.allocated description ⟨process', hold⟩).trans (Nat.lt_succ_self _)

theorem lockExclusive {table' : LockTable Process} (hopen : table.IsOpen description)
    (hlocked : table.lockExclusive description = some table') : table'.Consistent := by
  obtain ⟨hfile, hdescriptors, hnext, htaken, hothers⟩ := lockExclusive_eq_some hlocked
  constructor
  · intro file holder hholder
    rw [hfile, IsOpen, hdescriptors]
    by_cases hsame : file = table.file description
    · subst hsame
      rw [htaken] at hholder
      obtain rfl := Option.some.inj hholder
      exact ⟨rfl, hopen⟩
    · rw [hothers file hsame] at hholder
      exact htable.locked file holder hholder
  · intro other hother
    rw [IsOpen, hdescriptors] at hother
    rw [hnext]
    exact htable.allocated other hother

theorem unlock (description : ℕ) : (table.unlock description).Consistent where
  locked file holder hlocked := htable.locked file holder (locked_unlock.mp hlocked).1
  allocated := htable.allocated

variable [DecidableEq Process]

theorem close (process : Process) (description : ℕ) :
    (table.close process description).Consistent :=
  htable.withDescriptors fun process' _ hmem ↦ ⟨process', List.mem_of_mem_erase hmem⟩

theorem fork (parent child : Process) : (table.fork parent child).Consistent where
  locked file description hlocked := by
    obtain ⟨hfile, process, hmem⟩ := htable.locked file description hlocked
    exact ⟨hfile, process, List.mem_append_left _ hmem⟩
  allocated := by
    rintro description ⟨process, hmem⟩
    rcases List.mem_append.mp hmem with hold | hchild
    · exact htable.allocated description ⟨process, hold⟩
    · obtain ⟨⟨parent', description'⟩, hinherited, hdescriptor⟩ := List.mem_map.mp hchild
      obtain ⟨-, rfl⟩ := Prod.mk.inj hdescriptor
      exact htable.allocated _ ⟨parent', (List.mem_filter.mp hinherited).1⟩

theorem exit (process : Process) : (table.exit process).Consistent :=
  htable.withDescriptors fun process' _ hmem ↦ ⟨process', (List.mem_filter.mp hmem).1⟩

end Consistent

end LockTable

end SoftwareKeyCore
