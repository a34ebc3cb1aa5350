import EndpointAtlas.Main
import EndpointAtlas.Proofs.Join.Relation
import EndpointAtlas.Proofs.FileTree.Parent
import EndpointAtlas.Proofs.Sheet.NormalForm
import EndpointAtlas.Proofs.FileTree.Rewrite
import EndpointAtlas.Proofs.Sheet.Rejoin
import EndpointAtlas.Proofs.Block.Line
import EndpointAtlas.Proofs.Block.Reading
import EndpointAtlas.Proofs.Block.Document
import EndpointAtlas.Proofs.Block.Slices
import EndpointAtlas.Proofs.Sheet.ReadBack
import EndpointAtlas.Proofs.Join.Permutation
import EndpointAtlas.Proofs.Join.Keys
import EndpointAtlas.Proofs.Json.Reader
import EndpointAtlas.Proofs.Json.RoundTrip
import EndpointAtlas.Proofs.Atlas.Summary
import EndpointAtlas.Proofs.Atlas.Documents
import EndpointAtlas.Proofs.Text.Find
import EndpointAtlas.Proofs.Text.Words
import EndpointAtlas.Proofs.Keyword.Scan
import EndpointAtlas.Proofs.Keyword.Closing
import EndpointAtlas.Proofs.Canonical.Declaration
import EndpointAtlas.Proofs.Canonical.Lines
import EndpointAtlas.Proofs.Canonical.Blocks
import EndpointAtlas.Proofs.Canonical.Fields
import EndpointAtlas.Proofs.Canonical.Payload
import EndpointAtlas.Proofs.Canonical.Callee
import EndpointAtlas.Proofs.Canonical.Extraction
import EndpointAtlas.Proofs.FileTree.Growth
import EndpointAtlas.Proofs.Mapping.Outcome
import EndpointAtlas.Proofs.FileTree.Alike
import EndpointAtlas.Proofs.FileTree.Retry
import EndpointAtlas.Proofs.SourceTree.Candidates
import EndpointAtlas.Proofs.Mapping.Repeat
import EndpointAtlas.Proofs.SourceTree.Accounting
import EndpointAtlas.Proofs.Block.Appending
import EndpointAtlas.Proofs.Block.Nesting
import EndpointAtlas.Proofs.Block.Insertion
import EndpointAtlas.Proofs.Mapping.Collision
import EndpointAtlas.Proofs.Keyword.Shape
import EndpointAtlas.Proofs.Block.Lockstep
import EndpointAtlas.Proofs.Block.KeyLine
import EndpointAtlas.Proofs.Block.Statements
import EndpointAtlas.Proofs.Endpoint.Parameters
import EndpointAtlas.Proofs.Endpoint.ParamsLines
import EndpointAtlas.Proofs.Endpoint.Route
import EndpointAtlas.Proofs.Block.Definitions
import EndpointAtlas.Proofs.Text.First
import EndpointAtlas.Proofs.Text.Ways
import EndpointAtlas.Proofs.BackendCall.Router
import EndpointAtlas.Proofs.BackendCall.Version
import EndpointAtlas.Proofs.Json.Spacing
import EndpointAtlas.Proofs.Payload.Declarations
import EndpointAtlas.Proofs.Payload.Renderings
import EndpointAtlas.Proofs.Payload.Flattening
import EndpointAtlas.Proofs.BackendCall.Literals
import EndpointAtlas.Proofs.Csv.Lines
import EndpointAtlas.Proofs.Settings.Template
import EndpointAtlas.Proofs.Sheet.Lines
import EndpointAtlas.Proofs.SourceTree.Collected
import EndpointAtlas.Proofs.Endpoint.LineEnds
import EndpointAtlas.Proofs.Keyword.Lines
import EndpointAtlas.Proofs.Keyword.Runs
