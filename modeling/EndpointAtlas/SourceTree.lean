import EndpointAtlas.FileTree.Basic
import EndpointAtlas.Text.Upper

/-!
# Source trees

The source files of one side lie in one directory tree, each in a directory that is named for its
version. A source tree is read whole: the files with the right extension, in the order of the tree, and
the number of those that could not be read. Directories and files are opened by their paths, which are
spelled from the root, and not all of them can be: a path may be too long, and a file may be locked. -/

namespace EndpointAtlas

/-- The sides of the gateway. -/
inductive Side where
  | northbound
  | southbound
  deriving DecidableEq, Repr

/-- A source file. -/
structure SourceFile where
  path : Bytes
  version : Text
  baseName : Text
  text : Text
  deriving DecidableEq, Repr

/-- The files of a source tree, and how many could not be read. -/
structure SourceTree where
  files : List SourceFile
  skipped : Nat
  deriving DecidableEq, Repr

/-- The version of a file: the name of the directory that holds it, which the southbound side writes in
    capitals. A name that is no text tells no version. -/
def Side.version? (side : Side) (path : Bytes) : Option Text := do
  let directory ← Text.decode? (← (← (Path.ofBytes path).parent?).lastName?)
  match side with
  | .northbound => return directory
  | .southbound => return Text.upper directory

/-- The path that spells a place below a root. -/
def Place.path (root : Bytes) (p : Place) : Bytes := p.foldl joinPath root

/-- The last name has the extension. -/
def Place.HasExtension (p : Place) (extension : Text) : Prop :=
  (p.getLast?.bind fun name => (splitExtension name).2.bind Text.decode?) = some extension

instance (p : Place) (extension : Text) : Decidable (p.HasExtension extension) :=
  inferInstanceAs (Decidable (_ = _))

namespace FileTree

/-- Whether the directory at a place below a root can be listed: it is opened by its path. -/
def isListed (t : FileTree) (root : Bytes) (p : Place) : Bool := (t.directory? (p.path root)).isSome

/-- What a walk meets below a root that leads to `place`: all that lies in directories that can be
    listed. -/
def met (t : FileTree) (root : Bytes) (place : Place) : List (Place × Entry) :=
  (t.entriesBelow place).filter fun (p, _) => t.isListed root p.dropLast

end FileTree

namespace SourceTree

/-- The files with an extension that a walk meets, by name if they are to be sorted. -/
def candidates (t : FileTree) (root : Bytes) (place : Place) (extension : Text) (sorted : Bool) : List Place :=
  let found := (t.met root place).filter fun (p, e) => e ≠ .directory ∧ p.HasExtension extension
  if sorted then (found.map (·.1)).mergeSort else found.map (·.1)

/-- The directories that a walk meets and cannot list. -/
def unlisted (t : FileTree) (root : Bytes) (place : Place) : List Place :=
  ((t.met root place).filter fun (p, e) => e = .directory ∧ !t.isListed root p).map (·.1)

/-- The order in which a tree is read changes neither its files nor their number. -/
theorem candidates_perm (t : FileTree) (root : Bytes) (place : Place) (extension : Text) (sorted : Bool) :
    (candidates t root place extension sorted).Perm (candidates t root place extension false) := by
  cases sorted with
  | false => exact List.Perm.refl _
  | true => exact List.mergeSort_perm _ _

/-- The tree with one more file: a file without a version is passed over, one that cannot be read as text is
    counted. -/
def addFile (t : FileTree) (root : Bytes) (side : Side) (tree : SourceTree) (p : Place) : SourceTree :=
  let path := p.path root
  match side.version? path with
  | none => tree
  | some version =>
    match t.readText path with
    | .error _ => { tree with skipped := tree.skipped + 1 }
    | .ok text =>
      let stem := (Path.ofBytes path).lastName?.map fun name => (splitExtension name).1
      { tree with files := tree.files ++ [⟨path, version, (stem.bind Text.decode?).getD [], Text.unifyLineEnds text⟩] }

/-- Reads the source tree below a root, which has to be a directory. A directory that cannot be listed counts
    like a file that cannot be read. -/
def collect (t : FileTree) (root : Bytes) (extension : Text) (side : Side) (sorted : Bool) : Except Fault SourceTree :=
  match t.directory? root with
  | none => .error (.missingRoot (Text.display root))
  | some place =>
    .ok ((candidates t root place extension sorted).foldl (addFile t root side) ⟨[], (unlisted t root place).length⟩)

end SourceTree

end EndpointAtlas
