import EndpointAtlas.BackendCall.FromSource
import EndpointAtlas.Endpoint.FromSource
import EndpointAtlas.FileTree.Edit
import EndpointAtlas.Settings.Basic
import EndpointAtlas.SourceTree

/-!
# Mapping

The run that settings describe: both source trees are read, their records are joined, and the documents
are written below the output directory. Both trees have to be there before anything is read from their
files or written. -/

namespace EndpointAtlas

/-- The records of two source trees. -/
def Survey.ofTrees (popIndent : Nat) (northbound southbound : SourceTree) : Survey :=
  { endpoints := northbound.files.flatMap fun f => Endpoint.ofFile popIndent ⟨f.version, f.baseName, f.text⟩
    backends := southbound.files.flatMap fun f => BackendCall.ofFile f.version f.text
    northboundFiles := northbound.files.length
    southboundFiles := southbound.files.length
    skippedFiles := northbound.skipped + southbound.skipped }

namespace Settings

/-- The records of the source trees that the settings name. -/
def survey (s : Settings) (t : FileTree) : Except Fault Survey := do
  let northbound ← SourceTree.collect t s.northboundRoot s.extension .northbound s.sorted
  let southbound ← SourceTree.collect t s.southboundRoot s.extension .southbound s.sorted
  return Survey.ofTrees s.popIndent northbound southbound

/-- The phases of the run. -/
def phases (s : Settings) (time : Text) : Phases FileTree where
  survey := do
    match s.survey (← get) with
    | .ok found => return found
    | .error f => throw f
  atlas found := return found.atlas
  publish := Atlas.publish (Storage.below s.outputPath) s.outputPath s.documents time

/-- Makes the run. The result is where the documents are. -/
def run (s : Settings) (time : Text) : Task FileTree Text := (s.phases time).run

end Settings

end EndpointAtlas
