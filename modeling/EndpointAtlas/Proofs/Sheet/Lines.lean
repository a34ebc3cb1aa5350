import EndpointAtlas.Proofs.Csv.Lines
import EndpointAtlas.Sheet

/-! Sheets line by line. Every line tells for itself which record it is, if it is one at all: a row is read by the
    position of its fields where there are enough of them, and neither a row that is too short nor bytes that are no
    text change a record of another line. -/

namespace EndpointAtlas.Sheet
open Csv

/-- The endpoint of a line: a row with seven fields, an eighth that may be missing, and any others that are not read. -/
def lineEndpoint? : Line → Option Endpoint
  | .row (version :: apiName :: headers :: httpMethod :: path :: payload :: calleeVersion :: more) _ => some
    { version, apiName, path, payload
      headers := splitList headers
      httpMethod := HttpMethod.ofText? httpMethod
      callee := ⟨calleeVersion, more.headD []⟩ }
  | _ => none

/-- The backend call of a line: a row with nine fields, and any others that are not read. -/
def lineBackend? : Line → Option BackendCall
  | .row (version :: method :: queryParams :: microService :: operation :: backendVersion :: routerEndpoint ::
      unwrapMethod :: httpMethod :: _) _ => some
    { key := ⟨version, method⟩
      queryParams := splitList queryParams
      microService, operation, backendVersion, routerEndpoint, unwrapMethod
      httpMethod := HttpMethod.ofText? httpMethod }
  | _ => none

theorem read?_map_endpointOfRow (l : Line) : (l.read? endpointWidth).map endpointOfRow = lineEndpoint? l := by
  cases l with
  | undecodable bytes htext hplain => rfl
  | row fields hfields =>
    match fields with
    | version :: apiName :: headers :: httpMethod :: path :: payload :: calleeVersion :: more =>
      have hwide : decide (endpointWidth ≤ (version :: apiName :: headers :: httpMethod :: path :: payload ::
          calleeVersion :: more).length) = true := by simp [endpointWidth]
      simp only [Line.read?, Line.fields?, Option.filter_some, hwide, if_true, Option.map_some]
      cases more <;> rfl
    | [] | [_] | [_, _] | [_, _, _] | [_, _, _, _] | [_, _, _, _, _] | [_, _, _, _, _, _] => rfl

theorem read?_map_backendOfRow (l : Line) : (l.read? backendWidth).map backendOfRow = lineBackend? l := by
  cases l with
  | undecodable bytes htext hplain => rfl
  | row fields hfields =>
    match fields with
    | version :: method :: queryParams :: microService :: operation :: backendVersion :: routerEndpoint ::
        unwrapMethod :: httpMethod :: more =>
      have hwide : decide (backendWidth ≤ (version :: method :: queryParams :: microService :: operation ::
          backendVersion :: routerEndpoint :: unwrapMethod :: httpMethod :: more).length) = true := by simp [backendWidth]
      simp only [Line.read?, Line.fields?, Option.filter_some, hwide, if_true, Option.map_some]
      rfl
    | [] | [_] | [_, _] | [_, _, _] | [_, _, _, _] | [_, _, _, _, _] | [_, _, _, _, _, _] | [_, _, _, _, _, _, _]
    | [_, _, _, _, _, _, _, _] => rfl

/-- The records of a file are those of its lines, in order. -/
theorem read_lines (header : Header) (lines : List Line) :
    readEndpoints (file header lines) = lines.filterMap lineEndpoint? ∧
      readBackends (file header lines) = lines.filterMap lineBackend? := by
  constructor
  · simp only [readEndpoints, read_file, List.map_filterMap, read?_map_endpointOfRow]
  · simp only [readBackends, read_file, List.map_filterMap, read?_map_backendOfRow]

end EndpointAtlas.Sheet
