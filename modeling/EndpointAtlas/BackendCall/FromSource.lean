import EndpointAtlas.BackendCall.Basic
import EndpointAtlas.Block.Definition

/-!
# Backend calls from source text

Each field of a backend call is looked for on its own in the text of a definition block. The service,
the operation and the version are an exception: they are read as one triple, all of it or nothing. -/

namespace EndpointAtlas.BackendCall

/-! ### The version of the backend -/

/-- The constant that a file may declare its backend version with. -/
def versionConstant : Text := "BACKEND_VERSION"

/-- Reads a value of the constant: an equals sign and a text in double quotes within the line. -/
def readVersionConstant? : Text.Reader Text := fun _ t => do
  let t ← Text.dropLead? versionConstant t
  let t ← Text.dropLead? "=" (Text.trimStart t)
  let (value, t) ← Text.quoted? '"' (Text.trimStart t)
  if value.contains '\n' then none else some (value, t)

/-- The backend version that a file declares, and `V1` if it declares none. -/
def versionOfFile (text : Text) : Text := (Text.first? readVersionConstant? text).getD "V1"

/-! ### The routine -/

/-- Reads the name of a defined routine, after `self.` if that stands before it. -/
def readName? : Text.Reader Text := fun _ t => do
  let t ← Text.dropLead? "def" t >>= Text.blanks?
  (Text.dropLead? "self." t >>= Text.word?) <|> Text.word? t

/-! ### Query parameters -/

/-- Reads a literal in braces that is assigned to the word `name`. -/
def readLiteral? (name : Text) : Text.Reader Text := fun before t => do
  if !Text.startsWord before then none
  let t ← Text.dropLead? name t
  let t ← Text.dropLead? "=" (Text.trimStart t)
  let t ← Text.dropLead? "\x7b" (Text.trimStart t)
  Text.upTo? '\x7d' t

/-- The keys of a query literal: what stands before the first colon of each piece between commas. -/
def queryKeys (literal : Text) : List Text :=
  ((Text.splitOn ',' literal).map fun piece => Text.trim (piece.takeWhile (· != ':'))).filter
    (!·.isEmpty)

/-- Reads a word before a colon. -/
def readKey? : Text.Reader Text := fun _ t => do
  let (key, t) ← Text.word? t
  let t ← Text.dropLead? ":" (Text.trimStart t)
  return (key, t)

/-- The keys of the first literal assigned to `query`, and then those of the first one assigned to
    `params`. -/
def queryParamsOf (block : Text) : List Text :=
  let query := Text.first? (fun before t => readLiteral? "query" before t >>= Text.nonempty?) block
  let params := Text.first? (readLiteral? "params") block
  (query.map queryKeys).getD [] ++ (params.map (Text.all readKey?)).getD []

/-! ### The router -/

/-- Where a call is routed to. -/
structure Route where
  microService : Text
  operation : Text
  version : Text
  deriving DecidableEq, Repr

/-- The path of a route. -/
def Route.path (r : Route) : Text := r.microService ++ "/" ++ r.version ++ "/" ++ r.operation

/-- Reads the name of a service. -/
def readService? : Text.Reader Text := fun _ t => do
  let t ← Text.dropLead? "micro_service:" t
  Text.quoted? '"' (Text.trimStart t) >>= Text.nonempty?

/-- Reads the name of an operation, which may be empty. -/
def readOperation? : Text.Reader Text := fun _ t => do
  let t ← Text.dropLead? "operation:" t
  Text.quoted? '"' (Text.trimStart t)

/-- Reads a backend version, quoted or a bare word. -/
def readVersion? : Text.Reader Text := fun _ t => do
  let t := Text.trimStart (← Text.dropLead? "backend_ver:" t)
  (Text.anyQuoted? t >>= Text.nonempty?) <|> Text.word? t

/-- The value of a declared version: the file's where the constant is named, and otherwise the text
    itself without quotes. -/
def resolveVersion (fileVersion declared : Text) : Text :=
  let declared := Text.trim declared
  if declared = versionConstant then fileVersion
  else declared.filter fun c => c != '"' && c != '\''

/-- The route that a block declares: the first service, the first operation behind it, and the first
    version behind that. -/
def routeOf? (fileVersion block : Text) : Option Route := do
  let (service, t) ← Text.find? readService? none block
  let (operation, t) ← Text.find? readOperation? none t
  let (version, _) ← Text.find? readVersion? none t
  return ⟨service, operation, resolveVersion fileVersion version⟩

/-! ### Response and request -/

/-- Reads, within the line, what is called on the result of a bracketed expression. -/
def readCalledOn? : Text → Option (Text × Text)
  | [] => none
  | c :: t =>
    if c = '\n' then none
    else
      match if c = ')' then Text.dropLead? "." t >>= Text.word? else none with
      | some found => some found
      | none => readCalledOn? t

/-- The classes that wrap a response. -/
def responseClasses : List (Text × Unit) :=
  [("Response.new(", ()), ("CommitResponse.new(", ()), ("ResponseV2.new(", ())]

/-- Reads what a wrapped response is unwrapped with. -/
def readUnwrap? : Text.Reader Text := fun before t => do
  if !Text.startsWord before then none
  let (_, t) ← Text.oneOf? responseClasses t
  readCalledOn? t

/-- Reads the sending of a request. -/
def readRequest? : Text.Reader HttpMethod := fun _ t => do
  let (method, t) ← Text.dropLead? "self.class." t >>= HttpMethod.read?
  let t ← Text.dropLead? "(" (Text.trimStart t)
  return (method, t)

/-! ### The record -/

/-- The backend call of a definition block in an interface version, with the version that its file
    declares. -/
def ofBlock (version fileVersion block : Text) : BackendCall :=
  let route := routeOf? fileVersion block
  { key := ⟨version, (Text.first? readName? block).getD []⟩
    queryParams := queryParamsOf block
    microService := (route.map Route.microService).getD []
    operation := (route.map Route.operation).getD []
    backendVersion := (route.map Route.version).getD []
    routerEndpoint := (route.map Route.path).getD []
    unwrapMethod := (Text.first? readUnwrap? block).getD []
    httpMethod := Text.first? readRequest? block }

/-- The backend calls that a file defines in an interface version, in order. -/
def ofFile (version text : Text) : List BackendCall :=
  (Definition.blocks text).map fun b => ofBlock version (versionOfFile text) b.text

end EndpointAtlas.BackendCall
