import EndpointAtlas.Block.Basic
import EndpointAtlas.Text.Find

/-!
# Definition blocks

A definition block runs from the word `def` and a name through the first later line that holds nothing
but `end`, and over the blanks behind it: to the end of the text if only blanks are left, and otherwise
up to the last line feed among them. An inner `end` on a line of its own closes the block early. -/

namespace EndpointAtlas.Definition

/-- The text from the last line feed among the blanks it begins with. -/
def fromLastBreak? : Text → Option Text
  | [] => none
  | c :: t =>
    if isBlank c then
      match fromLastBreak? t with
      | some rest => some rest
      | none => if c = '\n' then some (c :: t) else none
    else none

/-- Reads a line that holds nothing but `end`, blank lines before it included, and answers what
    follows. -/
def bareEnd? (t : Text) : Option Text := do
  let rest ← Text.dropLead? "end" (Text.trimStart t)
  if (Text.trimStart rest).isEmpty then some [] else fromLastBreak? rest

/-- What follows the first line that holds nothing but `end`, among the lines that begin in the text. -/
def afterBareEnd? : Text → Option Text
  | [] => none
  | c :: t =>
    match if c = '\n' then bareEnd? t else none with
    | some rest => some rest
    | none => afterBareEnd? t

/-- Reads one definition: the word `def`, a name, and all through the closing `end`. -/
def read? : Text.Reader Text := fun before t => do
  if !Text.startsWord before then none
  let afterDef ← Text.dropLead? "def" t >>= Text.blanks?
  let (_, afterName) ← Text.word? afterDef
  let rest ← afterBareEnd? afterName
  return (t.take (t.length - rest.length), rest)

/-- The definition blocks of a text, in order. -/
def blocks (text : Text) : List Block :=
  (Text.all read? text).map fun unit => ⟨.definition, [], unit⟩

end EndpointAtlas.Definition
