import EndpointAtlas.Endpoint.FromSource
import EndpointAtlas.Proofs.Text.Lines
import EndpointAtlas.Proofs.Text.Words

/-! Routing files in their canonical form: resources, and in them endpoints that are declared with a title,
    headers, parameters and a handler that makes one call. The names and texts are free within their
    alphabets, and so is the indentation of every line. -/

namespace EndpointAtlas.Canonical
open Text

/-! ### Names and texts -/

/-- A character of a quoted text: an ASCII letter or digit, a hyphen, or a blank that ends no line. -/
def isPhraseChar (c : Char) : Bool :=
  c.isAlphanum || c == '-' || (isBlank c && c != '\n' && c != '\r')

/-- A quoted text: it begins with no blank, and it has no word `params`. -/
structure Phrase where
  text : Text
  ne_nil : text ≠ []
  chars : ∀ c ∈ text, isPhraseChar c = true
  first : ∀ c ∈ text.head?, isBlank c = false
  no_params : ("params" : Text) ∉ words text

/-- An identifier other than `do` and `end`, in capital or small letters. -/
structure Name where
  text : Text
  ne_nil : text ≠ []
  chars : ∀ c ∈ text, isIdentChar c = true
  ne_do : text.map Char.toLower ≠ "do"
  ne_end : text.map Char.toLower ≠ "end"

/-- An identifier that begins with a capital letter. -/
structure ModuleName where
  first : Char
  rest : Text
  capital : isCapital first = true
  chars : ∀ c ∈ rest, isIdentChar c = true

/-- The name as it is written. -/
def ModuleName.text (m : ModuleName) : Text := m.first :: m.rest

/-- A capital V and a number. -/
structure VersionName where
  digits : Text
  ne_nil : digits ≠ []
  chars : ∀ c ∈ digits, c.isDigit = true

/-- The version as it is written. -/
def VersionName.text (v : VersionName) : Text := 'V' :: v.digits

/-! ### Declarations -/

/-- A header that a request takes, and the indents of its three lines, counted from zero. -/
structure Header where
  name : Phrase
  description : Phrase
  indent : Nat → Nat

namespace Header
variable (h : Header)

/-- The line that names a header, without its indent. -/
def nameContent : Text := "'" ++ h.name.text ++ "' => \x7b"

/-- The line that describes a header, without its indent. -/
def descriptionContent : Text := "description: '" ++ h.description.text ++ "'"

/-- The three lines of a header. -/
def lines : List Text :=
  [indented (h.indent 0) h.nameContent, indented (h.indent 1) h.descriptionContent, indented (h.indent 2) "\x7d,"]

end Header

/-- A parameter that a request takes, and the indent of its line. -/
structure Param where
  required : Bool
  name : Name
  type : Name
  indent : Nat

namespace Param
variable (p : Param)

/-- The word that declares a parameter. -/
def keyword : Text := if p.required then "requires" else "optional"

/-- The line of a parameter, without its indent. -/
def content : Text := p.keyword ++ " :" ++ p.name.text ++ ", type: " ++ p.type.text

/-- The line of a parameter. -/
def line : Text := indented p.indent p.content

/-- The parameter that is declared. -/
def parameter : Parameter := ⟨p.name.text, .ofTypeName p.type.text⟩

end Param

/-- The class of the backend's client: one module or more, a version in them, and the class in that. -/
structure ClientClass where
  outer : ModuleName
  inner : List ModuleName
  version : VersionName
  name : ModuleName

/-- Modules, each with the colons behind it. -/
def modulePath (ms : List ModuleName) : Text := ms.flatMap fun m => m.text ++ "::"

/-- The class as it is written, with colons between its parts. -/
def ClientClass.text (c : ClientClass) : Text :=
  modulePath (c.outer :: c.inner) ++ c.version.text ++ "::" ++ c.name.text

/-- An endpoint, and the indents of its ten lines besides those of headers and parameters, counted from zero. -/
structure Declaration where
  title : Phrase
  headers : List Header
  params : List Param
  method : HttpMethod
  route : Name
  client : ClientClass
  call : Name
  indent : Nat → Nat

namespace Declaration
variable (d : Declaration)

/-- The first line of an endpoint, without its indent. -/
def titleContent : Text := "desc '" ++ d.title.text ++ "', \x7b"

/-- The lines with the headers of a request, up to the brace that closes the first line. -/
def headerLines : List Text :=
  indented (d.indent 1) "headers: \x7b" :: d.headers.flatMap Header.lines ++
    [indented (d.indent 2) "\x7d", indented (d.indent 3) "\x7d"]

/-- The lines with the parameters of a request. -/
def paramsLines : List Text :=
  indented (d.indent 4) "params do" :: d.params.map Param.line ++ [indented (d.indent 5) "end"]

/-- The first line of the handler, without its indent. -/
def verbContent : Text := d.method.verb ++ " :" ++ d.route.text ++ " do"

/-- The line that makes the client, without its indent. -/
def clientContent : Text := "client = create_client(" ++ d.client.text ++ ")"

/-- The line that calls the backend, without its indent. -/
def callContent : Text := "client." ++ d.call.text ++ "(params)"

/-- The lines of the handler. -/
def handlerLines : List Text :=
  [indented (d.indent 6) d.verbContent, indented (d.indent 7) d.clientContent,
    indented (d.indent 8) d.callContent, indented (d.indent 9) "end"]

/-- All lines of an endpoint. -/
def lines : List Text := indented (d.indent 0) d.titleContent :: d.headerLines ++ d.paramsLines ++ d.handlerLines

/-- The example payload for the declared parameters. -/
def payload : Text :=
  if d.method.carriesQuery then Payload.query (d.params.map Param.parameter)
  else (Payload.body (d.params.map Param.parameter)).pretty

/-- The endpoint that is declared in a file of some version, below the path `place`. -/
def endpoint (version place : Text) : Endpoint where
  version := version
  apiName := d.title.text
  headers := d.headers.map (·.name.text)
  httpMethod := some d.method
  path := place ++ "/" ++ d.route.text
  payload := d.payload
  callee := ⟨d.client.version.text, d.call.text⟩

end Declaration

/-! ### Documents -/

/-- A routing file: declarations, resources around more of them, and blank lines between them. An `end` that
    closes a resource is indented by at most `limit` columns. -/
inductive Document (limit : Nat) where
  | nil
  | blank (indent : Nat) (rest : Document limit)
  | unit (d : Declaration) (rest : Document limit)
  | resource (name : Name) (opening closing : Nat) (hclosing : closing ≤ limit) (inside rest : Document limit)

namespace Document
variable {limit : Nat}

/-- The lines of a file. -/
def lines : Document limit → List Text
  | nil => []
  | blank indent rest => indented indent [] :: rest.lines
  | unit d rest => d.lines ++ rest.lines
  | resource name opening closing _ inside rest =>
    indented opening ("resource :" ++ name.text ++ " do") :: inside.lines ++ indented closing "end" :: rest.lines

/-- The declarations in order, each with the names of the resources around it, outermost first. `scopes` are
    those around the document. -/
def declarations (scopes : List Text) : Document limit → List (List Text × Declaration)
  | nil => []
  | blank _ rest => rest.declarations scopes
  | unit d rest => (scopes, d) :: rest.declarations scopes
  | resource name _ _ _ inside rest => inside.declarations (scopes ++ [name.text]) ++ rest.declarations scopes

/-- The declared endpoints. Outside every resource a path begins with the name of the file. -/
def endpoints (version baseName : Text) (f : Document limit) : List Endpoint :=
  (f.declarations []).map fun (scopes, d) => d.endpoint version ((contextPath scopes).getD baseName)

end Document

end EndpointAtlas.Canonical
