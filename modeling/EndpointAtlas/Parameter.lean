import EndpointAtlas.Json
import EndpointAtlas.Text.Find

/-!
# Declared parameters

A parameter is declared on one line: `requires` or `optional`, its name as a symbol, and its type. The
type decides which sample value stands for the parameter in an example payload. -/

namespace EndpointAtlas

/-- The sample value that stands for a parameter. -/
inductive Sample where
  | text
  | boolean
  | integer
  | decimal
  /-- The type is none of the others. -/
  | other
  deriving DecidableEq, Repr

namespace Sample

/-- The sample for a type name, in capital or small ASCII letters. -/
def ofTypeName (name : Text) : Sample :=
  let name := name.map Char.toLower
  if name = "string" then text
  else if name = "boolean" then boolean
  else if name = "integer" then integer
  else if name = "float" then decimal
  else other

/-- The sample as it stands in a query string. -/
def literal : Sample → Text
  | text => "example"
  | boolean => "true"
  | integer => "123"
  | decimal => "1.23"
  | other => "value"

/-- The sample as a JSON value. -/
def json : Sample → Json
  | text => .string (literal text)
  | boolean => .bool true
  | integer => .number (literal integer)
  | decimal => .number (literal decimal)
  | other => .string (literal other)

end Sample

/-- A declared parameter. -/
structure Parameter where
  name : Text
  sample : Sample
  deriving DecidableEq, Repr

namespace Parameter

/-- The small ASCII letter that a character is a case variant of, if it is one. Two characters beyond
    ASCII are: the long s and the sign for kelvin. -/
def foldCase (c : Char) : Char :=
  if c = 'ſ' then 's' else if c = '\u212a' then 'k' else c.toLower

/-- What follows `lead`, written in any case. -/
def dropLeadFolded? : Text → Text → Option Text
  | [], t => some t
  | _ :: _, [] => none
  | a :: lead, c :: t => if a = foldCase c then dropLeadFolded? lead t else none

/-- Reads a declaration: its keyword, blanks, a symbol, a comma, `type:` and the name of the type. -/
def read? : Text.Reader Parameter := fun _ t => do
  let t ← (dropLeadFolded? "optional" t <|> dropLeadFolded? "requires" t) >>= Text.blanks?
  let (name, t) ← Text.dropLead? ":" t >>= Text.word?
  let t ← Text.dropLead? "," t
  let t ← dropLeadFolded? "type:" (Text.trimStart t)
  let (type, t) ← Text.word? (Text.trimStart t)
  return (⟨name, .ofTypeName type⟩, t)

/-- The parameter that a line declares, if it declares one. -/
def ofLine? (line : Text) : Option Parameter := Text.first? read? (Text.trim line)

/-- The parameters that a text declares, one to a line. -/
def ofText (text : Text) : List Parameter := (Text.lines text).filterMap ofLine?

end Parameter

end EndpointAtlas
