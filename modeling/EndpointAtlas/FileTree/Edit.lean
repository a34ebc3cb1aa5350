import EndpointAtlas.FileTree.Basic
import EndpointAtlas.Run

/-!
# Writing to file trees

An edit changes a file tree and may fail; what it changed before it failed stays. A file can be written
wherever its directory is there. A store of documents below a base directory makes the directories that
are missing first. -/

namespace EndpointAtlas

/-- Changes a file tree, whether it succeeds or fails. -/
abbrev Edit := ExceptT FileError (StateM FileTree) Unit

namespace FileTree

/-- The tree with a file that a path leads to, whether it was there before or not. -/
def write (t : FileTree) (path : Bytes) (content : Bytes) : Except FileError FileTree := do
  match ← t.target path with
  | .directory _ => throw .isDirectory
  | .named parent name slashed =>
    if slashed then throw .isDirectory
    else
      match t.lookup parent name with
      | .ok .directory => throw .isDirectory
      | .ok .locked => throw .permissionDenied
      | .ok (.file _) | .error .notFound => return t.put (parent ++ [name]) (.file content)
      | .error e => throw e

/-- The tree with a new directory that a path leads to. -/
def makeDirectory (t : FileTree) (path : Bytes) : Except FileError FileTree := do
  match ← t.target path with
  | .directory _ => throw .exists
  | .named parent name _ =>
    match t.lookup parent name with
    | .ok _ => throw .exists
    | .error .notFound => return t.put (parent ++ [name]) .directory
    | .error e => throw e

/-- Makes a change. -/
def edit (change : FileTree → Except FileError FileTree) : Edit := do
  let t ← get
  match change t with
  | .ok u => set u
  | .error e => throw e

/-- Makes the directory that a path leads to. It is enough that there is one when this is over. -/
def requireDirectory (path : Bytes) : Edit :=
  tryCatch (edit (·.makeDirectory path)) fun e => do
    unless ((← get).directory? path).isSome do throw e

/-- Makes a directory and those above it that are missing. The parts of its path come last part first. -/
def makeDirectories : List Part → Edit
  | [] => pure ()
  | part :: above => do
    let path := Path.toBytes (part :: above).reverse
    match (← get).makeDirectory path with
    | .error .notFound =>
      makeDirectories above
      requireDirectory path
    | _ => requireDirectory path

/-- Writes a file, in a directory that is made if it is missing. -/
def writeWithin (path : Bytes) (content : Bytes) : Edit := do
  match (Path.ofBytes path).parent? with
  | some parent => makeDirectories parent.reverse
  | none => pure ()
  edit (·.write path content)

end FileTree

/-- The documents below a base directory. -/
def Storage.below (base : Text) : Storage FileTree where
  read name := do
    match (← get).read (joinPath base name) with
    | .ok content => return content
    | .error e => throw (.file e)
  write name content := (FileTree.writeWithin (joinPath base name) content).adapt Fault.file

end EndpointAtlas
