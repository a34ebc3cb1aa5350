import EndpointAtlas.Text.Utf8

/-!
# Paths

A path is a list of bytes, and its parts are names: a name need not be the form of any text. A path that
is given as a text stands for the bytes of its form. Slashes only part the parts, however many there are; a
dot is a part where it comes first and says nothing anywhere else. All that is said here about a path is
said of its parts, and no file is looked at. -/

namespace EndpointAtlas

/-- A path given as a text. -/
instance : Coe Text Bytes := ⟨Text.encode⟩

/-- The byte between the parts of a path. -/
def slash : UInt8 := 47

/-- The byte before the extension of a name. -/
def dot : UInt8 := 46

/-- One part of a path. -/
inductive Part where
  /-- The top of the tree, as a leading slash names it. -/
  | top
  /-- The directory where the path begins, as a leading dot names it. -/
  | here
  /-- One directory up. -/
  | up
  /-- A name. -/
  | name (n : Bytes)
  deriving DecidableEq, Repr

/-- A path, part by part. -/
abbrev Path := List Part

/-- The part that a piece between slashes stands for, if it says anything where it stands. -/
def Part.ofPiece? (piece : Bytes) : Option Part :=
  if piece = [] ∨ piece = [dot] then none
  else if piece = [dot, dot] then some .up
  else some (.name piece)

/-- How a part is written. -/
def Part.toBytes : Part → Bytes
  | top => [slash]
  | here => [dot]
  | up => [dot, dot]
  | name n => n

namespace Path

/-- Reads a path. -/
def ofBytes (path : Bytes) : Path :=
  match Text.splitOn slash path with
  | [] => []
  | first :: pieces =>
    if first = [] ∧ pieces ≠ [] then .top :: pieces.filterMap Part.ofPiece?
    else if first = [dot] then .here :: pieces.filterMap Part.ofPiece?
    else (first :: pieces).filterMap Part.ofPiece?

/-- Writes a path. -/
def toBytes : Path → Bytes
  | .top :: p => slash :: Text.joinWith [slash] (p.map Part.toBytes)
  | p => Text.joinWith [slash] (p.map Part.toBytes)

/-- The path without its last part. The top and the empty path have none. -/
def parent? (p : Path) : Option Path :=
  match p.getLast? with
  | none | some .top => none
  | some _ => some p.dropLast

/-- The name that the path ends with. -/
def lastName? (p : Path) : Option Bytes :=
  match p.getLast? with
  | some (.name n) => some n
  | _ => none

end Path

/-- `t` as seen from `base`, with slashes between the parts of both: a `t` that begins at the top stays as
    it is. -/
def joinAt {α : Type} [DecidableEq α] (slash : α) (base t : List α) : List α :=
  if t.head? = some slash ∨ base = [] then t
  else if base.getLast? = some slash then base ++ t
  else base ++ slash :: t

/-- A path as seen from another. -/
def joinPath (base path : Bytes) : Bytes := joinAt slash base path

/-- A file name as stem and extension, parted at its last dot. A dot that comes first parts nothing, and
    neither do the two dots of the directory above. -/
def splitExtension (name : Bytes) : Bytes × Option Bytes :=
  if name = [dot, dot] then (name, none)
  else
    let extension := (name.reverse.takeWhile (· ≠ dot)).reverse
    match name.take (name.length - extension.length - 1) with
    | [] => (name, none)
    | stem => (stem, some extension)

end EndpointAtlas
