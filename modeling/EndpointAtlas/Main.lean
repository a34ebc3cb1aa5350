import EndpointAtlas.Program.CombineCsv
import EndpointAtlas.Program.RouteMapper
import Std.Time.Format

/-!
# The command line

The first word names the program, and the other words are its own. What the program may look at is read
from the disk into a file tree, the program works on that, and what it has made or changed is written
to the disk. -/

namespace EndpointAtlas.Disk

/-- The entry of the disk at a place. The disk is asked by texts, so it has to be a place of such names. -/
def entry (p : Place) : IO.FS.DirEntry :=
  let names := p.map fun name => (Text.decode? name).getD []
  ⟨"/" ++ String.ofList (Text.joinWith ['/'] names.dropLast), String.ofList (names.getLastD ['.'])⟩

/-- The tree with what is at a place of the disk. -/
def load (p : Place) (t : FileTree) : IO FileTree := do
  if (t.get? p).isSome then return t
  try
    match (← (entry p).path.metadata).type with
    | .dir => return t.put p .directory
    | .file =>
      let found ← try pure (.file (← IO.FS.readBinFile (entry p).path).toList) catch _ => pure .locked
      return t.put p found
    | _ => return t
  catch _ => return t

/-- The tree with all that is below a place of the disk. Links are not followed. -/
partial def loadBelow (p : Place) (t : FileTree) : IO FileTree := do
  if t.get? p != some .directory then return t
  let found ← try (entry p).path.readDir catch _ => pure #[]
  found.foldlM (fun t e => do
      match (← e.path.symlinkMetadata).type with
      | .dir | .file =>
        let q := p ++ [Text.encode e.fileName.toList]
        loadBelow q (← load q t)
      | _ => return t) t

/-- The tree with all that a path leads over and to. -/
def loadPath (t : FileTree) (path : Text) : IO FileTree := do
  let path : Bytes := path
  let mut t := t
  let mut p := if path.head? = some slash then [] else t.current
  for piece in Text.splitOn slash path do
    p := if piece = [] ∨ piece = [dot] then p else if piece = [dot, dot] then p.dropLast else p ++ [piece]
    t ← load p t
  loadBelow p t

/-- The directories from the top of the disk down to the current one. -/
def start : IO FileTree := do
  let here := (Text.splitOn slash (Text.encode (← IO.currentDir).toString.toList)).filter (· ≠ [])
  let mut t : FileTree := ⟨[], here⟩
  for depth in [0:here.length] do
    t := t.put (here.take (depth + 1)) .directory
  return t

/-- Writes to the disk what is new in a tree. -/
def store (old new : FileTree) : IO Unit := do
  for (p, e) in new.entries do
    if old.get? p != some e then
      match e with
      | .directory => IO.FS.createDirAll (entry p).path
      | .file content => IO.FS.writeBinFile (entry p).path ⟨content.toArray⟩
      | .locked => pure ()

/-- The values of those variables that a text may ask for. -/
def valuesOf (names : List Text) : IO Variables := do
  let values ← names.mapM fun name => do return (name, ← IO.getEnv (String.ofList name))
  return fun name => ((values.lookup name).bind id).map String.toList

/-- The names of the placeholders in the files of a tree. -/
def placeholders (t : FileTree) : List Text :=
  t.entries.flatMap fun (_, e) =>
    match e with
    | .file content =>
      (Piece.ofText 0 ((Text.decode? content).getD [])).filterMap fun
        | .placeholder name => some name
        | .char _ => none
    | .locked | .directory => []

/-- The time of day in the form that run summaries have. -/
def now : IO Text := do
  let time := Std.Time.DateTime.ofTimestamp (← Std.Time.Timestamp.now) .UTC
  return (time.format "uuuu-MM-dd'T'HH:mm:ss.SSSSSSSSS'Z'").toList

/-- Runs a tool on the disk. -/
def runTool (tool : Tool) (words : List Text) : IO UInt32 := do
  let bare ← start
  let near ← (tool.paths (fun _ => none) words bare).foldlM loadPath bare
  let vars ← valuesOf (placeholders near)
  let t ← (tool.paths vars words near).foldlM loadPath near
  let (ending, u) := (tool.program ⟨vars, ← now⟩ words).run t
  store t u
  IO.print (String.ofList ending.output)
  IO.eprint (String.ofList ending.errors)
  return UInt32.ofNat ending.status

/-- The tool with a name. -/
def tool? (name : Text) : Option Tool :=
  match String.ofList name with
  | "route-mapper" => some .routeMapper
  | "toml-mapper" => some .tomlMapper
  | "combine-csv" => some .combineCsv
  | _ => none

/-- Runs the tool that the first word names. -/
def runNamed (words : List Text) : IO UInt32 := do
  match tool? (words.headD []) with
  | some tool => runTool tool words.tail
  | none =>
    IO.eprintln "usage: route-mapper | toml-mapper | combine-csv [OPTIONS]"
    return 2

end EndpointAtlas.Disk

/-- Runs a program on the disk. -/
def main (args : List String) : IO UInt32 := EndpointAtlas.Disk.runNamed (args.map String.toList)
