import SoftwareKeyCore.Foundation.ByteString

/-!
# File paths

`std::path::Path` on Unix by its components, the operations that `replace_file_atomically` makes
with it, and what paths denote to the operating system: a walk through directories from the root or
from the working directory, symbolic links to directories being children like others.

`locate_withExtension` is that a new extension leaves a file in its directory, unless what is left
of its name without the extension is `..`: then the path denotes the parent of the directory
(`openDirectory_withExtension`). The parent of a path denotes the directory of the file too, unless
the path is a bare file name: its parent is the empty path, which denotes no directory
(`openDirectory_parent`).
-/

set_option autoImplicit false
set_option relaxedAutoImplicit false

namespace SoftwareKeyCore.StatePersistence

/-- The name of a file, an `OsStr`. -/
abbrev FileName := ByteString

namespace FileName

/-- The byte `.`. -/
def dot : UInt8 := 0x2e

/-- `Path::file_stem` of a file name: what is before its last dot, unless there is nothing. -/
def fileStem (name : FileName) : FileName :=
  if dot ∈ name then
    let before := ((name.reverse.dropWhile (· ≠ dot)).drop 1).reverse
    if before = [] then name else before
  else name

/-- The file name with another extension, one that is not empty. -/
def withExtension (name : FileName) (extension : ByteString) : FileName :=
  fileStem name ++ dot :: extension

/-- The name is two dots and an extension without a dot: without the extension it is `..`, the
parent of a directory. -/
def BecomesParent (name : FileName) : Prop :=
  fileStem name = [dot]

instance (name : FileName) : Decidable name.BecomesParent :=
  inferInstanceAs (Decidable (_ = _))

end FileName

/-- `std::path::Component`, the root apart. -/
inductive Component
  | curDir
  | parentDir
  | normal (name : FileName)
  deriving DecidableEq, Repr

/-- `std::path::Path`, for paths that do not end with a separator. The last component of such a path
is what its bytes end with. -/
structure Path where
  hasRoot : Bool
  components : List Component
  deriving DecidableEq, Repr

namespace Path

/-- `Path::file_name`. -/
def fileName (path : Path) : Option FileName :=
  match path.components.getLast? with
  | some (.normal name) => some name
  | _ => none

/-- `Path::parent`. -/
def parent (path : Path) : Option Path :=
  if path.components = [] then none
  else some { path with components := path.components.dropLast }

/-- `Path::with_extension`, for an extension that is not empty. It copies the path up to the dot
before its extension and calls `PathBuf::set_extension`, which leaves a path as it is that has no
file name, as one that ends with `..` has none. -/
def withExtension (path : Path) (extension : ByteString) : Path :=
  match path.fileName with
  | none => path
  | some name =>
    { path with
      components := path.components.dropLast ++
        [if name.BecomesParent then .parentDir else .normal (name.withExtension extension)] }

/-- The path has no bytes. -/
def IsEmpty (path : Path) : Prop :=
  path.hasRoot = false ∧ path.components = []

/-- The path is a file name alone, relative to the working directory. -/
def IsBare (path : Path) : Prop :=
  path.hasRoot = false ∧ path.components.length = 1

instance (path : Path) : Decidable path.IsEmpty := inferInstanceAs (Decidable (_ ∧ _))

instance (path : Path) : Decidable path.IsBare := inferInstanceAs (Decidable (_ ∧ _))

theorem components_of_fileName {path : Path} {name : FileName} (hname : path.fileName = some name) :
    path.components = path.components.dropLast ++ [.normal name] := by
  unfold fileName at hname
  split at hname
  · next last hlast =>
    obtain rfl := Option.some.inj hname
    exact (List.dropLast_append_getLast? _ hlast).symm
  · exact nomatch hname

theorem withExtension_eq {path : Path} {name : FileName} (hname : path.fileName = some name)
    (extension : ByteString) : path.withExtension extension =
      { path with
        components := path.components.dropLast ++
          [if name.BecomesParent then .parentDir
            else .normal (name.withExtension extension)] } := by
  rw [withExtension, hname]

theorem fileName_withExtension {path : Path} {name : FileName}
    (hname : path.fileName = some name) (extension : ByteString) :
    (path.withExtension extension).fileName =
      if name.BecomesParent then none else some (name.withExtension extension) := by
  rw [withExtension_eq hname, fileName, List.getLast?_concat]
  split_ifs <;> rfl

end Path

/-! ### What paths denote -/

/-- The directories of a machine, as the operating system walks through them. -/
structure Volume (D : Type) where
  root : D
  workingDirectory : D
  child : D → FileName → Option D
  up : D → D

namespace Volume

variable {D : Type} (volume : Volume D)

/-- Where a walk along the path starts. -/
def start (path : Path) : D :=
  if path.hasRoot then volume.root else volume.workingDirectory

/-- One step of a walk. -/
def enter (directory : D) : Component → Option D
  | .curDir => some directory
  | .parentDir => some (volume.up directory)
  | .normal name => volume.child directory name

/-- The directory that `File::open` finds; there is none at the empty path. -/
def openDirectory (path : Path) : Option D :=
  if path.IsEmpty then none else path.components.foldlM volume.enter (volume.start path)

/-- The directory and the name in it of a file, whether or not the file exists. -/
def locate (path : Path) : Option (D × FileName) :=
  match path.fileName with
  | none => none
  | some name =>
    (path.components.dropLast.foldlM volume.enter (volume.start path)).map fun directory ↦
      (directory, name)

variable {volume} {path : Path} {directory : D} {name : FileName}

theorem locate_eq_some_iff :
    volume.locate path = some (directory, name) ↔ path.fileName = some name ∧
      path.components.dropLast.foldlM volume.enter (volume.start path) = some directory := by
  unfold locate
  cases path.fileName with
  | none => simp
  | some name' => simp [Option.map_eq_some_iff, and_comm]

/-- A file with another extension is in the same directory, if there is something of its name left
before the extension. -/
theorem locate_withExtension (hlocate : volume.locate path = some (directory, name))
    (extension : ByteString) :
    volume.locate (path.withExtension extension) =
      if name.BecomesParent then none else some (directory, name.withExtension extension) := by
  obtain ⟨hname, hwalk⟩ := locate_eq_some_iff.mp hlocate
  have hfileName := Path.fileName_withExtension hname extension
  split_ifs at hfileName ⊢ with hparent
  · rw [locate, hfileName]
  · rw [locate_eq_some_iff]
    refine ⟨hfileName, ?_⟩
    rw [Path.withExtension_eq hname]
    dsimp only
    rw [List.dropLast_concat]
    exact hwalk

/-- Otherwise the path with the extension denotes the parent of the directory. -/
theorem openDirectory_withExtension (hlocate : volume.locate path = some (directory, name))
    (hparent : name.BecomesParent) (extension : ByteString) :
    volume.openDirectory (path.withExtension extension) = some (volume.up directory) := by
  obtain ⟨hname, hwalk⟩ := locate_eq_some_iff.mp hlocate
  rw [Path.withExtension_eq hname, if_pos hparent, openDirectory, if_neg]
  · rw [List.foldlM_append]
    show (path.components.dropLast.foldlM volume.enter (volume.start path)).bind _ = _
    rw [hwalk]
    rfl
  · exact fun hempty ↦ List.concat_ne_nil _ _ hempty.2

/-- The parent of a path denotes the directory of the file, unless the path is a bare name; then
it denotes none. -/
theorem openDirectory_parent (hlocate : volume.locate path = some (directory, name)) :
    ∃ parent, path.parent = some parent ∧
      volume.openDirectory parent = if path.IsBare then none else some directory := by
  obtain ⟨hname, hwalk⟩ := locate_eq_some_iff.mp hlocate
  have hcomponents := Path.components_of_fileName hname
  have hnonempty : path.components ≠ [] := by
    rw [hcomponents]
    exact List.concat_ne_nil _ _
  refine ⟨_, if_neg hnonempty, ?_⟩
  unfold openDirectory
  by_cases hbare : path.IsBare
  · have hempty : path.components.dropLast = [] := by
      apply List.eq_nil_of_length_eq_zero
      rw [List.length_dropLast, hbare.2]
    rw [if_pos hbare, if_pos ⟨hbare.1, hempty⟩]
  · rw [if_neg hbare, if_neg]
    · exact hwalk
    · rintro ⟨hroot, hempty⟩
      refine hbare ⟨hroot, ?_⟩
      rw [hcomponents, show path.components.dropLast = [] from hempty]
      rfl

end Volume

end SoftwareKeyCore.StatePersistence
