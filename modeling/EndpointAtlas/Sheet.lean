import EndpointAtlas.Csv.Reader
import EndpointAtlas.Csv.Writer
import EndpointAtlas.Join
import EndpointAtlas.Text.Blank

/-!
# Sheets

The layout of the three files of records: one column for each field, lists in one field with
semicolons, and a payload that looks like JSON on one line. Endpoints and backend calls can be read
back; a row is read by the position of its fields. -/

namespace EndpointAtlas.Sheet

/-! ### Fields -/

/-- A list in one field. -/
def joinList (items : List Text) : Text := Text.joinWith ";" items

/-- The list in a field; an empty field is the empty list. -/
def splitList (field : Text) : List Text := if field.isEmpty then [] else Text.splitOn ';' field

/-- A text that looks like JSON, on one line with single spaces. Any other text is left as it is. -/
def flatten (payload : Text) : Text :=
  match Text.trim payload with
  | '\x7b' :: t => Text.squeezeBlanks ('\x7b' :: t)
  | '[' :: t => Text.squeezeBlanks ('[' :: t)
  | _ => payload

/-- A method, or nothing. -/
def methodField (m : Option HttpMethod) : Text := (m.map HttpMethod.name).getD []

/-! ### Columns -/

/-- The titles of the columns of endpoints. -/
def endpointTitles : List Text :=
  ["northboundVersion", "apiName", "headers", "httpMethod", "endpoint", "bodyOrQuery",
   "southboundVersion", "southboundMethod"]

/-- The titles of the columns of backend calls. -/
def backendTitles : List Text :=
  ["southboundVersion", "methodName", "queryParams", "microService", "operation", "backendVersion",
   "routerEndpoint", "responseUnwrapMethod", "httpMethod"]

/-- The titles of the columns of links: where both sides have a column, its title tells the side. -/
def linkTitles : List Text :=
  ["northboundVersion", "apiName", "headers", "httpMethod_api", "endpoint_api", "bodyOrQuery",
   "southboundVersion", "southboundMethod", "southboundVersion_sb", "methodName", "queryParams",
   "microService", "operation", "backendVersion", "endpoint_sb", "responseUnwrapMethod",
   "httpMethod_sb"]

/-! ### Rows -/

/-- The row of an endpoint. -/
def endpointRow (e : Endpoint) : List Text :=
  [e.version, e.apiName, joinList e.headers, methodField e.httpMethod, e.path, flatten e.payload,
   e.callee.version, e.callee.method]

/-- The row of a backend call. -/
def backendRow (b : BackendCall) : List Text :=
  [b.key.version, b.key.method, joinList b.queryParams, b.microService, b.operation, b.backendVersion,
   b.routerEndpoint, b.unwrapMethod, methodField b.httpMethod]

/-- The row of a link: that of its endpoint and then that of its backend call. -/
def linkRow (l : Link) : List Text := endpointRow l.endpoint ++ backendRow l.backend

/-! ### Files -/

/-- The file of endpoints. -/
def writeEndpoints (es : List Endpoint) : Text := Csv.write (endpointTitles :: es.map endpointRow)

/-- The file of backend calls. -/
def writeBackends (bs : List BackendCall) : Text := Csv.write (backendTitles :: bs.map backendRow)

/-- The file of links. -/
def writeLinks (ls : List Link) : Text := Csv.write (linkTitles :: ls.map linkRow)

/-- The fewest fields of a row that is read as an endpoint. The name of the routine may be missing. -/
def endpointWidth : Nat := 7

/-- The fewest fields of a row that is read as a backend call. -/
def backendWidth : Nat := 9

/-- The endpoint of a row. -/
def endpointOfRow (row : List Text) : Endpoint :=
  let field (i : Nat) : Text := row.getD i []
  { version := field 0
    apiName := field 1
    headers := splitList (field 2)
    httpMethod := HttpMethod.ofText? (field 3)
    path := field 4
    payload := field 5
    callee := ⟨field 6, field 7⟩ }

/-- The backend call of a row. -/
def backendOfRow (row : List Text) : BackendCall :=
  let field (i : Nat) : Text := row.getD i []
  { key := ⟨field 0, field 1⟩
    queryParams := splitList (field 2)
    microService := field 3
    operation := field 4
    backendVersion := field 5
    routerEndpoint := field 6
    unwrapMethod := field 7
    httpMethod := HttpMethod.ofText? (field 8) }

/-- The endpoints in a file. -/
def readEndpoints (bytes : Bytes) : List Endpoint := (Csv.read endpointWidth bytes).map endpointOfRow

/-- The backend calls in a file. -/
def readBackends (bytes : Bytes) : List BackendCall := (Csv.read backendWidth bytes).map backendOfRow

end EndpointAtlas.Sheet
