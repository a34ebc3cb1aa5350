import EndpointAtlas.FileTree.Edit
import EndpointAtlas.Program.Basic

/-!
# Joining files of records

The records that a run has written can be joined again without the sources: the files of endpoints and
of backend calls are read, and the combined file is written anew. -/

namespace EndpointAtlas

/-- The options of the program. -/
def combineOptions : List OptionSpec :=
  [.text "dir" (some 'd'), .text "northbound" none, .text "southbound" none, .text "output" none,
   .flag "verbose" (some 'v'), .help]

/-- The names of the files that a command line tells. -/
structure CombineFiles where
  dir : Text
  northbound : Text
  southbound : Text
  output : Text
  deriving DecidableEq, Repr

/-- The files of a command line, those that are not told as a run names them. -/
def CombineFiles.ofGiven (given : Given) : CombineFiles :=
  let usual : DocumentNames := {}
  { dir := given.valueD "dir" "./output"
    northbound := given.valueD "northbound" usual.northbound
    southbound := given.valueD "southbound" usual.southbound
    output := given.valueD "output" usual.combined }

/-- The text of the combined file, and the number of its records. -/
def recombine (endpoints backends : Bytes) : Text × Nat :=
  let joined := join (Sheet.readEndpoints endpoints) (Sheet.readBackends backends)
  (Sheet.writeLinks joined.links, joined.links.length)

/-- What a user is told when a file could not be read or written: what was being done, and its causes
    from the outermost inwards. -/
def Ending.ofFileFault (doing name dir : Text) (f : Fault) : Ending :=
  let innermost : Text := match f with
    | .file e => e.message
    | f => f.message
  .failure 1 [] ["Error: " ++ doing ++ " " ++ name ++ " in " ++ dir, [], "Caused by:",
    "    0: " ++ f.message, "    1: " ++ innermost]

/-- Joins two files of records and writes the combined file. -/
def combineCsv : Program := fun _ words =>
  match CommandLine.ofWords combineOptions words with
  | .error f => return .rejected "combine-csv" combineOptions f
  | .ok given => do
    let files := CombineFiles.ofGiven given
    let storage := Storage.below files.dir
    match ← (storage.read files.northbound).run with
    | .error f => return .ofFileFault "reading" files.northbound files.dir f
    | .ok endpoints =>
      match ← (storage.read files.southbound).run with
      | .error f => return .ofFileFault "reading" files.southbound files.dir f
      | .ok backends =>
        let (text, count) := recombine endpoints backends
        match ← (storage.write files.output (Text.encode text)).run with
        | .error f => return .ofFileFault "writing" files.output files.dir f
        | .ok () => return .success ["✅ Combined " ++ Text.ofNat count ++ " records into " ++ files.output]

/-- The join of files of records, as a tool. -/
def Tool.combineCsv : Tool where
  program := EndpointAtlas.combineCsv
  paths _ words _ :=
    match CommandLine.ofWords combineOptions words with
    | .ok given =>
      let files := CombineFiles.ofGiven given
      [files.northbound, files.southbound, files.output].map (joinAt '/' files.dir)
    | .error _ => []

end EndpointAtlas
