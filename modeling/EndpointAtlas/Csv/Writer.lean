import EndpointAtlas.Text.Basic

/-!
# Writing comma-separated values

A row is a list of fields. A field is quoted only where it has to be: if it holds a comma, a quote or a
line break. A quote within a quoted field is written twice. -/

namespace EndpointAtlas.Csv

/-- A field that holds one of these is quoted. -/
def isSpecial (c : Char) : Bool := c == ',' || c == '"' || c == '\r' || c == '\n'

/-- A field with its quotes written twice. -/
def doubleQuotes (field : Text) : Text :=
  field.flatMap fun c => if c = '"' then ['"', '"'] else [c]

/-- A field as it is written. -/
def writeField (field : Text) : Text :=
  if field.any isSpecial then '"' :: doubleQuotes field ++ ['"'] else field

/-- A row as it is written, with its line feed. A row that would leave its line empty gets a pair of
    quotes, since a reader passes over empty lines. -/
def writeRow (row : List Text) : Text :=
  let line := Text.joinWith "," (row.map writeField)
  (if line.isEmpty then ['"', '"'] else line) ++ ['\n']

/-- Rows as they are written, one after the other. -/
def write (rows : List (List Text)) : Text := rows.flatMap writeRow

end EndpointAtlas.Csv
