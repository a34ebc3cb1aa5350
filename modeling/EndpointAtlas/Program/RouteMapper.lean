import EndpointAtlas.Mapping
import EndpointAtlas.Program.Basic
import EndpointAtlas.Settings.FromToml

/-!
# The route mapper

Two programs make the run of `EndpointAtlas.Mapping`. One takes its settings from the command line, the
other from a settings file, and that one can also show what a run would read and write. -/

namespace EndpointAtlas

/-- What a user is told when a run is over. -/
def Ending.ofRun (before : List Text) : Except Fault Text → Ending
  | .ok location =>
    let done : List Text := ["✅ Mapping completed successfully!", "📁 Output saved to: " ++ location]
    .success (before ++ done)
  | .error f =>
    .failure f.severity.exitCode before ["❌ " ++ f.report, "💡 建議: " ++ f.suggestion]

/-- What a user is told when settings do not pass their checks. -/
def Ending.ofCheck (f : Fault) : Ending := .failure 1 [] ["❌ " ++ f.report]

/-- Makes a run and tells its user how it went. -/
def Settings.runTold (s : Settings) (time : Text) (before : List Text) : StateM FileTree Ending := do
  return .ofRun before (← (s.run time).run)

/-- The options of the program that takes its settings from the command line. -/
def mapperOptions : List OptionSpec :=
  [.text "northbound-root" none, .text "southbound-root" none, .text "output-path" none,
   .text "extension" none,
   ⟨"context-pop-indent", none, .valued fun t => t.toNat64?.isSome⟩,
   .flag "sorted" none, .flag "verbose" none, .flag "monitor" none, .flag "log-json" none, .help]

/-- The settings that a command line tells. -/
def Settings.ofGiven (l : Given) : Settings :=
  let usual : Settings :=
    { northboundRoot := "./input/northbound", southboundRoot := "./input/southbound", outputPath := "./output" }
  { northboundRoot := l.valueD "northbound-root" usual.northboundRoot
    southboundRoot := l.valueD "southbound-root" usual.southboundRoot
    outputPath := l.valueD "output-path" usual.outputPath
    extension := l.valueD "extension" usual.extension
    sorted := l.has "sorted"
    popIndent := ((Keyed.get? "context-pop-indent".toList l).bind Text.toNat64?).getD usual.popIndent
    monitoring := l.has "monitor" }

/-- Makes the run that the command line describes. -/
def routeMapper : Program := fun around words =>
  match CommandLine.ofWords mapperOptions words with
  | .error f => return .rejected "route-mapper" mapperOptions f
  | .ok given =>
    let s := Settings.ofGiven given
    match s.check with
    | .error f => return .ofCheck f
    | .ok () => s.runTold around.time []

/-- The options of the program that takes its settings from a file. -/
def tomlMapperOptions : List OptionSpec :=
  let truth : OptionKind := .valued fun t => t.toBool?.isSome
  [.text "config" (some 'c'), .flag "verbose" (some 'v'), ⟨"monitor", none, truth⟩, ⟨"sorted", none, truth⟩,
   .flag "dry-run" none, .help]

/-- The settings of the file that a path leads to. -/
def Settings.ofFile (vars : Variables) (path : Text) (t : FileTree) : Except Fault Settings :=
  match t.readText path with
  | .ok text => ofToml vars text
  | .error e => .error (.file e)

namespace Settings

/-- The settings as the user is shown them. -/
def overview (s : Settings) (dryRun : Bool) : List Text :=
  let sorted : Text := if s.sorted then "true" else "false"
  let fields : List Text :=
    ["📋 Configuration Summary:",
     "  Northbound: " ++ s.northboundRoot,
     "  Southbound: " ++ s.southboundRoot,
     "  Extension: ." ++ s.extension,
     "  Sorted: " ++ sorted,
     "  Context pop indent: " ++ Text.ofNat s.popIndent,
     "  Output: " ++ s.outputPath]
  let mark : List Text := if dryRun then ["  🔍 DRY RUN MODE ENABLED"] else []
  fields ++ mark ++ [[]]

/-- A source tree as a dry run shows it. -/
def rootOverview (s : Settings) (t : FileTree) (label root : Text) : Text :=
  "  " ++ label ++ ": " ++ root ++
    match t.directory? root with
    | none => " (missing, the run would abort)"
    | some place =>
      " (" ++ Text.ofNat (SourceTree.candidates t root place s.extension false).length ++ " ." ++ s.extension ++
        " files)"

/-- What a dry run shows. -/
def dryRun (s : Settings) (t : FileTree) : List Text :=
  let trees : List Text :=
    ["🔍 Dry Run Analysis:", [],
     "📂 Source Trees:",
     s.rootOverview t "Northbound" s.northboundRoot,
     s.rootOverview t "Southbound" s.southboundRoot, [],
     "💾 Output Files:"]
  let documents : List Text := s.documents.toList.map fun name => ' ' :: ' ' :: joinAt '/' s.outputPath name
  let done : Text := "✅ Dry run analysis complete. Use --verbose for more details during actual run."
  trees ++ documents ++ [[], done]

end Settings

/-- Makes or shows the run that a settings file describes. -/
def tomlMapper : Program := fun around words =>
  match CommandLine.ofWords tomlMapperOptions words with
  | .error f => return .rejected "toml-mapper" tomlMapperOptions f
  | .ok given => do
    let path := given.valueD "config" "route-mapper.toml"
    match Settings.ofFile around.vars path (← get) with
    | .error f =>
      return .failure 1 [] ["❌ Failed to load config file '" ++ path ++ "': " ++ f.message,
        "💡 Make sure the file exists and is valid TOML format"]
    | .ok s =>
      let s := { s with sorted := ((Keyed.get? "sorted".toList given).bind Text.toBool?).getD s.sorted }
      match s.check with
      | .error f => return .ofCheck f
      | .ok () =>
        let dry := given.has "dry-run"
        if dry then return .success (s.overview dry ++ s.dryRun (← get))
        else s.runTold around.time (s.overview dry)

/-- The paths that a run looks at or writes. -/
def Settings.paths (s : Settings) : List Text :=
  [s.northboundRoot, s.southboundRoot] ++ s.documents.toList.map (joinAt '/' s.outputPath)

/-- The run with settings from the command line, as a tool. -/
def Tool.routeMapper : Tool where
  program := EndpointAtlas.routeMapper
  paths _ words _ :=
    match CommandLine.ofWords mapperOptions words with
    | .ok given => (Settings.ofGiven given).paths
    | .error _ => []

/-- The run with settings from a file, as a tool. -/
def Tool.tomlMapper : Tool where
  program := EndpointAtlas.tomlMapper
  paths vars words t :=
    match CommandLine.ofWords tomlMapperOptions words with
    | .ok given =>
      let path := given.valueD "config" "route-mapper.toml"
      match Settings.ofFile vars path t with
      | .ok s => path :: s.paths
      | .error _ => [path]
    | .error _ => []

end EndpointAtlas
