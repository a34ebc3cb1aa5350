import EndpointAtlas.Fault
import EndpointAtlas.Json
import EndpointAtlas.Sheet

/-!
# The atlas

An atlas is what a run finds out: the endpoints and backend calls of the sources, and how they join.
It is written as four documents: one file for each kind of record and a summary of the counts. -/

namespace EndpointAtlas

/-- The records of two source trees. -/
structure Survey where
  endpoints : List Endpoint
  backends : List BackendCall
  /-- The numbers of source files that were read, and of those that could not be. -/
  northboundFiles : Nat
  southboundFiles : Nat
  skippedFiles : Nat
  deriving DecidableEq, Repr

/-- A survey and the join of its records. -/
structure Atlas extends Survey where
  joined : Joined
  deriving DecidableEq, Repr

/-- The atlas of a survey. -/
def Survey.atlas (s : Survey) : Atlas := { s with joined := join s.endpoints s.backends }

/-- The names of the four documents. -/
structure DocumentNames where
  northbound : Text := "northbound.csv"
  southbound : Text := "southbound.csv"
  combined : Text := "combined_records.csv"
  summary : Text := "run_summary.json"
  deriving DecidableEq, Repr

/-- The names in the order in which the documents are written. -/
def DocumentNames.toList (n : DocumentNames) : List Text :=
  [n.northbound, n.southbound, n.combined, n.summary]

/-- A key in the summary. -/
def CallKey.json (k : CallKey) : Json :=
  .object [("version", .string k.version), ("method", .string k.method)]

namespace Atlas

/-- The summary of an atlas that was made at a time. -/
def summary (a : Atlas) (time : Text) : Json :=
  let count (n : Nat) : Json := .number (Text.ofNat n)
  .object
    [("generated_at", .string time),
     ("northbound_files", count a.northboundFiles),
     ("southbound_files", count a.southboundFiles),
     ("skipped_files", count a.skippedFiles),
     ("endpoint_records", count a.endpoints.length),
     ("backend_records", count a.backends.length),
     ("combined_records", count a.joined.links.length),
     ("unmatched_keys", .array (a.joined.unmatched.map CallKey.json)),
     ("orphaned_backend_keys", .array (a.joined.orphaned.map CallKey.json))]

/-- The documents of an atlas under their names, in the order in which they are written. -/
def documents (a : Atlas) (names : DocumentNames) (time : Text) : List (Text × Bytes) :=
  [(names.northbound, Text.encode (Sheet.writeEndpoints a.endpoints)),
   (names.southbound, Text.encode (Sheet.writeBackends a.backends)),
   (names.combined, Text.encode (Sheet.writeLinks a.joined.links)),
   (names.summary, Text.encode (a.summary time).pretty)]

end Atlas

end EndpointAtlas
