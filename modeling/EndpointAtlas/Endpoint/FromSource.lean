import EndpointAtlas.Block.Description
import EndpointAtlas.Endpoint.Basic
import EndpointAtlas.Payload

/-!
# Endpoints from source text

Each field of an endpoint is looked for on its own in the text of its description block, and the first
place where its pattern stands counts. A pattern that is absent leaves its field empty. -/

namespace EndpointAtlas

namespace Text

/-- The characters that lie within the first `n` bytes. -/
def takeBytes (n : Nat) : Text → Text
  | [] => []
  | c :: t => if c.utf8Size ≤ n then c :: takeBytes (n - c.utf8Size) t else []

end Text

/-- A routing file: the name of its directory, its own name without the ending, and its text. -/
structure RoutingFile where
  version : Text
  baseName : Text
  text : Text
  deriving DecidableEq, Repr

namespace Endpoint

/-! ### The description -/

/-- Reads the title of a description: `desc`, blanks and a quoted text. -/
def readTitle? : Text.Reader Text := fun _ t =>
  Text.dropLead? "desc" t >>= Text.blanks? >>= Text.anyQuoted?

/-- Reads a declared header: its quoted name, an arrow, and a literal that begins with a description. -/
def readHeader? : Text.Reader Text := fun _ t => do
  let (name, t) ← Text.anyQuoted? t >>= Text.nonempty?
  let t ← Text.dropLead? "=>" (Text.trimStart t)
  let t ← Text.dropLead? "\x7b" (Text.trimStart t)
  let t ← Text.dropLead? "description:" (Text.trimStart t)
  return (name, t)

/-! ### The route -/

/-- Reads a route at the beginning of a line: blanks, a routing verb, and the name of the route, before
    which a colon or a quote may stand. -/
def readRoute? : Text.Reader (HttpMethod × Text) := fun before t => do
  if !(before.all (· == '\n')) then none
  let (method, t) ← HttpMethod.read? (Text.trimStart t)
  let t ← Text.blanks? t
  let t := match t with
    | c :: rest => if c = ':' || c = '\'' || c = '"' then rest else t
    | [] => []
  let (name, t) ← Text.word? t
  return ((method, name), t)

/-- The path of a route below `base`. A handler that follows its verb at once has no name of its own. -/
def routePath (base name : Text) : Text :=
  base ++ "/" ++ (if name.map Char.toLower = "do" then [] else name)

/-! ### The parameters -/

/-- Reads the words that open a block of parameters. -/
def readParamsOpening? : Text.Reader Unit := fun before t => do
  if !Text.startsWord before then none
  let t ← Text.dropLead? "params" t >>= Text.blanks? >>= Text.dropLead? "do"
  if Text.endsWord t then some ((), t) else none

/-- The text of the first block of parameters, without the blanks around it. -/
def paramsBody? (block : Text) : Option Text := do
  let (_, rest) ← Text.find? readParamsOpening? none block
  let start := Text.byteLength block - Text.byteLength rest
  let close ← Keyword.matchingClose? block start
  return Text.trim (Text.takeBytes (close - start) rest)

/-! ### The backend routine -/

/-- Reads a capitalised name and the two colons behind it. -/
def readModule? (t : Text) : Option (Text × Text) := do
  let c ← t.head?
  if !isCapital c then none
  let (name, t) ← Text.word? t
  let t ← Text.dropLead? "::" t
  return (name, t)

/-- A version is a capital V and one or more digits. -/
def isVersion : Text → Bool
  | 'V' :: digits => !digits.isEmpty && digits.all isDigitChar
  | _ => false

/-- The last version among the modules of a path, of which no more than `fuel` are read. -/
def lastVersion? (fuel : Nat) (t : Text) : Option (Text × Text) :=
  match fuel with
  | 0 => none
  | fuel + 1 => do
    let (name, rest) ← readModule? t
    lastVersion? fuel rest <|> (if isVersion name then some (name, rest) else none)

/-- Reads a path of modules up to its last version, before which another module stands. -/
def readVersionedPath? (t : Text) : Option (Text × Text) := do
  let (_, rest) ← readModule? t
  lastVersion? rest.length rest

/-- Reads a versioned path at the beginning of a word. -/
def readNamespace? : Text.Reader Text := fun before t =>
  if Text.startsWord before then readVersionedPath? t else none

/-- Reads a hook that runs before each handler: `before`, and in braces a versioned path. -/
def readHook? : Text.Reader Text := fun _ t => do
  let t ← Text.dropLead? "before" t
  let t ← Text.dropLead? "\x7b" (Text.trimStart t)
  Text.find? readNamespace? '\x7b' (t.takeWhile (· != '\x7d'))

/-- Reads the making of a client of a versioned class. -/
def readCreateClient? : Text.Reader Text := fun _ t => do
  let t ← Text.dropLead? "create_client(" t
  readVersionedPath? (Text.trimStart t)

/-- The version of the interface that a block calls: the one of the file's hook, else of the client
    that the block makes, else of the first versioned path in it. -/
def calleeVersion? (block fileText : Text) : Option Text :=
  Text.first? readHook? fileText
    <|> Text.first? readCreateClient? block
    <|> Text.first? readNamespace? block

/-- Reads a call on a variable named `client`, of the handler or of its object. -/
def readClientCall? : Text.Reader Text := fun before t => do
  if before.any (fun c => isWordChar c || c == '@') then none
  let t := match t with
    | '@' :: rest => rest
    | _ => t
  Text.dropLead? "client." t >>= Text.word?

/-- Reads a call on a class whose name ends in `Client`. -/
def readClassCall? : Text.Reader Text := fun _ t => do
  let (name, t) ← Text.word? t
  if !(6 < name.length && Text.startsWith "tneilC" name.reverse) then none
  let (method, t) ← Text.dropLead? "." t >>= Text.word?
  let t ← Text.dropLead? "(" (Text.trimStart t)
  return (method, t)

/-- The routine that a block calls. -/
def calleeMethod? (block : Text) : Option Text :=
  Text.first? readClientCall? block <|> Text.first? readClassCall? block

/-! ### The record -/

/-- The endpoint that a description block declares within the resources of `context`. Outside every
    resource the name of the file begins its path. -/
def ofBlock (file : RoutingFile) (context : Option Text) (block : Text) : Endpoint :=
  let route := Text.first? readRoute? block
  let method := route.map (·.1)
  { version := file.version
    apiName := (Text.first? readTitle? block).getD []
    headers := Text.all readHeader? block
    httpMethod := method
    path := (route.map fun (_, name) => routePath (context.getD file.baseName) name).getD []
    payload := ((paramsBody? block).map (Payload.ofText · method)).getD []
    callee :=
      { version := (calleeVersion? block file.text).getD []
        method := (calleeMethod? block).getD [] } }

/-- The endpoints that a routing file declares, in order. -/
def ofFile (limit : Nat) (file : RoutingFile) : List Endpoint :=
  (Description.blocks limit file.text).map fun b => ofBlock file b.context b.text

end Endpoint

end EndpointAtlas
