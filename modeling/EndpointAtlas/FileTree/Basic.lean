import EndpointAtlas.Fault
import EndpointAtlas.Keyed
import EndpointAtlas.Path

/-!
# File trees

A file tree has at each place a file, a directory or nothing. A place is the list of names on the way
down to it, so that the top is the empty list and always a directory. A path is followed from the
current directory or from the top, and every part of it but the last has to be a directory when its turn
comes; so a path over a name that is missing leads nowhere, even where it goes up again. -/

namespace EndpointAtlas

/-- The names on the way from the top down. -/
abbrev Place := List Bytes

/-- What can be at a place. -/
inductive Entry where
  | file (content : Bytes)
  /-- A file that may be neither read nor written. -/
  | locked
  | directory
  deriving DecidableEq, Repr

/-- Files and directories by place, and the current directory. -/
structure FileTree where
  entries : Keyed Place Entry
  current : Place
  deriving DecidableEq, Repr

/-- Where a path leads once all of it but its last part has been followed. -/
inductive Target where
  /-- A directory: the path ends at the top or in dots. -/
  | directory (place : Place)
  /-- A name in a directory, which a slash may follow. -/
  | named (parent : Place) (name : Bytes) (slashed : Bool)
  deriving DecidableEq, Repr

/-- The longest name, in bytes. -/
def maxNameLength : Nat := 255

/-- The longest path, in bytes. -/
def maxPathLength : Nat := 4095

namespace FileTree

/-- What is at a place. -/
def get? (t : FileTree) : Place → Option Entry
  | [] => some .directory
  | p => Keyed.get? p t.entries

/-- The tree with `e` at the place `p`. -/
def put (t : FileTree) (p : Place) (e : Entry) : FileTree := { t with entries := Keyed.set p e t.entries }

/-- What a name stands for in a directory. -/
def lookup (t : FileTree) (parent : Place) (name : Bytes) : Except FileError Entry :=
  if maxNameLength < name.length then .error .nameTooLong
  else
    match t.get? (parent ++ [name]) with
    | some e => .ok e
    | none => .error .notFound

/-- The directory that one piece of a path leads to from another. -/
def enter (t : FileTree) (p : Place) (piece : Bytes) : Except FileError Place :=
  if piece = [dot] then .ok p
  else if piece = [dot, dot] then .ok p.dropLast
  else do
    match ← t.lookup p piece with
    | .directory => .ok (p ++ [piece])
    | .file _ | .locked => .error .notDirectory

/-- Follows a path up to its last part. -/
def target (t : FileTree) (path : Bytes) : Except FileError Target :=
  if 0 ∈ path then .error .nulInName
  else if path = [] then .error .notFound
  else if maxPathLength < path.length then .error .nameTooLong
  else
    let start := if path.head? = some slash then [] else t.current
    let pieces := (Text.splitOn slash path).filter (· ≠ [])
    match pieces.getLast? with
    | none => .ok (.directory start)
    | some last => do
      let parent ← pieces.dropLast.foldlM t.enter start
      if last = [dot] ∨ last = [dot, dot] then return .directory (← t.enter parent last)
      else return .named parent last (path.getLast? == some slash)

/-- What a path leads to, and at which place. -/
def find (t : FileTree) (path : Bytes) : Except FileError (Place × Entry) := do
  match ← t.target path with
  | .directory p => return (p, .directory)
  | .named parent name slashed =>
    match ← t.lookup parent name with
    | .directory => return (parent ++ [name], .directory)
    | e => if slashed then throw .notDirectory else return (parent ++ [name], e)

/-- The place of the directory that a path leads to. -/
def directory? (t : FileTree) (path : Bytes) : Option Place :=
  match t.find path with
  | .ok (p, .directory) => some p
  | _ => none

/-- The content of the file that a path leads to. -/
def read (t : FileTree) (path : Bytes) : Except FileError Bytes := do
  match ← t.find path with
  | (_, .file content) => return content
  | (_, .locked) => throw .permissionDenied
  | (_, .directory) => throw .isDirectory

/-- The text of the file that a path leads to. -/
def readText (t : FileTree) (path : Bytes) : Except FileError Text := do
  match Text.decode? (← t.read path) with
  | some text => return text
  | none => throw .notText

/-- What lies below a place, each with the names on the way down to it. -/
def entriesBelow (t : FileTree) (p : Place) : List (Place × Entry) :=
  t.entries.filterMap fun (q, e) =>
    if p.length < q.length ∧ q.take p.length = p then some (q.drop p.length, e) else none

theorem get?_put (t : FileTree) {p : Place} (e : Entry) (h : p ≠ []) (q : Place) :
    (t.put p e).get? q = if q = p then some e else t.get? q := by
  cases q with
  | nil => simp [get?, Ne.symm h]
  | cons n q => simp [get?, put, Keyed.get?_set]

end FileTree

end EndpointAtlas
