import EndpointAtlas.Settings.Basic
import EndpointAtlas.Settings.Placeholder
import EndpointAtlas.Toml.Reader

/-!
# Settings from TOML

A settings file has a section for each subject. Sections and fields that are not known are passed over,
if only they can be read. A section may also be given as an array that tells all its fields in their
order, of which nobody looks at the rest, and a moment stands for a section that tells nothing. -/

namespace EndpointAtlas

namespace Settings

/-- The fields that a section tells, where the known ones have the names `names`. -/
def fields? (names : List Text) : Toml.Value → Option Toml.Table
  | .table _ entries => do
    guard (entries.all fun (name, v) => names.contains name || v.isReadable)
    return entries
  | .array _ items => do
    guard (names.length ≤ items.length)
    return names.zip items
  | .moment _ => some []
  | _ => none

/-- A field that may be left out, read by `read`. -/
def optional? {α : Type} (name : Text) (read : Toml.Value → Option α) (fields : Toml.Table) :
    Option (Option α) :=
  match Keyed.get? name fields with
  | some v => (read v).map some
  | none => some none

/-- A field that has to be there, read by `read`. -/
def required? {α : Type} (name : Text) (read : Toml.Value → Option α) (fields : Toml.Table) : Option α := do
  read (← Keyed.get? name fields)

/-- A field that is a text. -/
def text? : Toml.Value → Option Text
  | .text t => some t
  | _ => none

/-- A field that is a truth value. -/
def flag? : Toml.Value → Option Bool
  | .boolean b => some b
  | _ => none

/-- A field that is a number of at most sixty-four bits. -/
def number? : Toml.Value → Option Nat
  | .integer (.ofNat n) => if n < Nat.pow 2 64 then some n else none
  | _ => none

/-- The names of the documents, those that are not told as they are by default. -/
def documents? (v : Toml.Value) : Option DocumentNames := do
  let names ← fields? ["northbound", "southbound", "combined", "summary"] v
  let usual : DocumentNames := {}
  return { northbound := (← optional? "northbound" text? names).getD usual.northbound
           southbound := (← optional? "southbound" text? names).getD usual.southbound
           combined := (← optional? "combined" text? names).getD usual.combined
           summary := (← optional? "summary" text? names).getD usual.summary }

/-- The settings that a document tells. -/
def ofTable? (document : Toml.Table) : Option Settings := do
  let document ← fields? ["input", "segmenter", "output", "monitoring"] (.table .headed document)
  let input ← required? "input" (fields? ["northbound_root", "southbound_root", "extension", "sorted"]) document
  let segmenter ← optional? "segmenter" (fields? ["context_pop_indent"]) document
  let output ← required? "output" (fields? ["path", "filenames"]) document
  let monitoring ← optional? "monitoring" (fields? ["enabled"]) document
  let told : Settings :=
    { northboundRoot := ← required? "northbound_root" text? input
      southboundRoot := ← required? "southbound_root" text? input
      outputPath := ← required? "path" text? output }
  return { told with
    extension := (← optional? "extension" text? input).getD told.extension
    sorted := (← optional? "sorted" flag? input).getD told.sorted
    popIndent := (← optional? "context_pop_indent" number? (segmenter.getD [])).getD told.popIndent
    documents := (← optional? "filenames" documents? output).getD told.documents
    monitoring := ← match monitoring with
      | some fields => required? "enabled" flag? fields
      | none => some told.monitoring }

/-- What stops a run whose settings file breaks the rules. -/
def unreadable : Fault := .settings "toml_parsing" "TOML parsing error: not a valid settings file\n"

/-- The settings that a text tells once its placeholders are filled. -/
def ofToml (vars : Variables) (t : Text) : Except Fault Settings :=
  match (Toml.ofText? (Text.fillPlaceholders vars t)).bind ofTable? with
  | some s => .ok s
  | none => .error unreadable

end Settings

end EndpointAtlas
