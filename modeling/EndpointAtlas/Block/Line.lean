import EndpointAtlas.Keyword
import EndpointAtlas.HttpMethod

/-!
# Lines of a routing file

What a single line can mean to the reader of a routing file: it may open a resource, declare an
endpoint, open a block of parameters, open a handler or close a resource. All but the closing `end` are
recognised without their indentation. -/

namespace EndpointAtlas.Line

/-- The net number of braces that a text opens, and whether it opens any. -/
def braceChange (t : Text) : Int × Bool :=
  ((t.count '\x7b' : Int) - t.count '\x7d', t.contains '\x7b')

/-- The columns of a line's indentation: a space is one, a tab four. -/
def indentWidth : Text → Nat
  | ' ' :: t => 1 + indentWidth t
  | '\t' :: t => 4 + indentWidth t
  | _ => 0

/-- The name in a resource line: a symbol or a quoted text. A missing or empty name is unknown. -/
def scopeNameOf (t : Text) : Text :=
  let found := match t with
    | ':' :: rest => Text.word? rest
    | _ => Text.anyQuoted? t
  match found with
  | some (c :: name, _) => c :: name
  | _ => "unknown"

/-- The name of the resource that a line opens, if it opens one. -/
def scopeName? (line : Text) : Option Text := do
  let rest ← (Text.dropLead? "resources" line >>= Text.blanks?)
    <|> (Text.dropLead? "resource" line >>= Text.blanks?)
    <|> (Text.dropLead? "namespace" line >>= Text.blanks?)
  return scopeNameOf rest

/-- The line declares an endpoint. -/
def isDeclaration (line : Text) : Bool := Text.startsWith "desc " line

/-- The line declares an endpoint or opens a resource. -/
def isBoundary (line : Text) : Bool := isDeclaration line || (scopeName? line).isSome

/-- The line opens a block of parameters. -/
def opensParams (line : Text) : Bool :=
  (do
    let rest ← Text.dropLead? "params" line >>= Text.blanks?
    Text.dropLead? "do" rest).any Text.endsWord

/-- The method of the handler that a line begins. -/
def handlerMethod? (line : Text) : Option HttpMethod := do
  let (m, rest) ← HttpMethod.read? line
  if Text.endsWord rest then some m else none

/-- The line says nothing: it is empty or a comment. -/
def isSilent (line : Text) : Bool := line.isEmpty || line.head? == some '#'

/-- The levels of bodies that a line leaves open, if it opens any. -/
def opensBody? (line : Text) : Option Int :=
  let d := Keyword.depthChange line
  if d > 0 then some d else none

end EndpointAtlas.Line
