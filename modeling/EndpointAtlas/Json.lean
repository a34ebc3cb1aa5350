import EndpointAtlas.Text.Basic

/-!
# JSON

JSON values and their indented text: two blanks for each level, one item to a line, `[]` and `\x7b\x7d`
for a container without items. An object keeps the order of its fields. -/

namespace EndpointAtlas

/-- A JSON value. A number is given by its text. -/
inductive Json where
  | bool (b : Bool)
  | number (digits : Text)
  | string (s : Text)
  | array (items : List Json)
  | object (fields : List (Text × Json))

namespace Json

/-- A hexadecimal digit, small letters above nine. -/
def hexDigit (n : Nat) : Char := Nat.digitChar n

/-- A character within a quoted string: quotes, backslashes and control characters are escaped. -/
def escape (c : Char) : Text :=
  if c = '"' then "\\\""
  else if c = '\\' then "\\\\"
  else if c = '\n' then "\\n"
  else if c = '\r' then "\\r"
  else if c = '\t' then "\\t"
  else if c = '\x08' then "\\b"
  else if c = '\x0c' then "\\f"
  else if c.toNat < 0x20 then "\\u00" ++ [hexDigit (c.toNat / 16), hexDigit (c.toNat % 16)]
  else [c]

/-- A quoted string. -/
def quote (s : Text) : Text := '"' :: s.flatMap escape ++ ['"']

/-- A new line, indented to a level. -/
def newLine (level : Nat) : Text := '\n' :: List.replicate (2 * level) ' '

/-- The texts of items between brackets: each on a line of its own, one level deeper than the value
    that holds them. -/
def container (level : Nat) (opening closing : Char) : List Text → Text
  | [] => [opening, closing]
  | items =>
    opening :: Text.joinWith "," (items.map (newLine (level + 1) ++ ·)) ++ newLine level ++ [closing]

mutual

/-- The indented text of a value that stands at a level. -/
def render (level : Nat) : Json → Text
  | bool true => "true"
  | bool false => "false"
  | number digits => digits
  | string s => quote s
  | array items => container level '[' ']' (renderItems (level + 1) items)
  | object fields => container level '\x7b' '\x7d' (renderFields (level + 1) fields)

/-- The text of each item of an array. -/
def renderItems (level : Nat) : List Json → List Text
  | [] => []
  | x :: xs => render level x :: renderItems level xs

/-- The text of each field of an object. -/
def renderFields (level : Nat) : List (Text × Json) → List Text
  | [] => []
  | (name, x) :: fs => (quote name ++ ": " ++ render level x) :: renderFields level fs

end

/-- The indented text of a value. -/
def pretty (j : Json) : Text := render 0 j

end Json

end EndpointAtlas
