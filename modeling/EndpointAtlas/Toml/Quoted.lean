import EndpointAtlas.Text.Find

/-!
# Quoted texts in TOML

A quoted text stands between single or between double quotes, in which alone a backslash has a meaning.
Between three quotes it may hold line ends and up to two quotes side by side; a line end just behind the
opening quotes is no part of it, and neither are the blanks and line ends behind a backslash that ends a
line. -/

namespace EndpointAtlas.Toml

/-- A control character other than the tab, which no text may hold as it is. -/
def isControl (c : Char) : Bool := (c.toNat < 0x20 && c != '\t') || c.toNat == 0x7F

/-- The value of a hexadecimal digit. -/
def hexDigit? (c : Char) : Option Nat :=
  if c.isDigit then some (c.toNat - '0'.toNat)
  else if 'a' ≤ c ∧ c ≤ 'f' then some (c.toNat - 'a'.toNat + 10)
  else if 'A' ≤ c ∧ c ≤ 'F' then some (c.toNat - 'A'.toNat + 10)
  else none

/-- Reads `count` hexadecimal digits behind those that make up `n`. -/
def hexNumber? (n : Nat) : Nat → Text → Option (Nat × Text)
  | 0, t => some (n, t)
  | _ + 1, [] => none
  | count + 1, c :: t => do hexNumber? (16 * n + (← hexDigit? c)) count t

/-- Reads a character told by its code point. -/
def codePoint? (count : Nat) (t : Text) : Option (Char × Text) := do
  let (n, rest) ← hexNumber? 0 count t
  if n.isValidChar then return (Char.ofNat n, rest) else none

/-- Reads what stands behind a backslash. -/
def escaped? : Text → Option (Char × Text)
  | 'b' :: t => some ('\x08', t)
  | 't' :: t => some ('\t', t)
  | 'n' :: t => some ('\n', t)
  | 'f' :: t => some ('\x0c', t)
  | 'r' :: t => some ('\r', t)
  | 'e' :: t => some ('\x1b', t)
  | '"' :: t => some ('"', t)
  | '\\' :: t => some ('\\', t)
  | 'x' :: t => codePoint? 2 t
  | 'u' :: t => codePoint? 4 t
  | 'U' :: t => codePoint? 8 t
  | _ => none

/-- The text behind its spaces and tabs. -/
def dropSpaces (t : Text) : Text := t.dropWhile fun c => c == ' ' || c == '\t'

/-- Reads a line end. -/
def newline? : Text → Option Text
  | '\n' :: t => some t
  | '\r' :: '\n' :: t => some t
  | _ => none

/-- The text behind its spaces, tabs and line ends. -/
def dropSpacesAndLines : Text → Text
  | ' ' :: t => dropSpacesAndLines t
  | '\t' :: t => dropSpacesAndLines t
  | '\n' :: t => dropSpacesAndLines t
  | '\r' :: '\n' :: t => dropSpacesAndLines t
  | t => t

/-- Reads what a backslash at the end of a line leaves out. -/
def continuation? (t : Text) : Option Text := (newline? (dropSpaces t)).map dropSpacesAndLines

/-- Reads the closing quotes of a text between three of them, with the quotes that it ends in. -/
def closing? (q : Char) : Text → Option (Text × Text)
  | a :: b :: c :: t =>
    if a = q ∧ b = q ∧ c = q then
      match t with
      | d :: e :: u => if d = q ∧ e = q then some ([q, q], u) else if d = q then some ([q], e :: u) else some ([], t)
      | [d] => if d = q then some ([q], []) else some ([], t)
      | [] => some ([], t)
    else none
  | _ => none

/-- Reads the rest of a text in quotes `q`, of which `wide` ones stand in threes, and over its closing
    quotes. Every character takes one of the steps. -/
def quotedRest? (q : Char) (wide : Bool) : Nat → Text → Option (Text × Text)
  | 0, _ => none
  | _ + 1, [] => none
  | steps + 1, c :: t =>
    let keep (s rest : Text) : Option (Text × Text) :=
      (quotedRest? q wide steps rest).map fun (r, rest) => (s ++ r, rest)
    if c = q then
      if wide then
        match closing? q (c :: t) with
        | some found => some found
        | none => keep [c] t
      else some ([], t)
    else if c = '\\' ∧ q = '"' then
      match if wide then continuation? t else none with
      | some rest => keep [] rest
      | none => do
        let (d, rest) ← escaped? t
        keep [d] rest
    else
      match if wide then newline? (c :: t) else none with
      | some rest => keep ((c :: t).take (t.length + 1 - rest.length)) rest
      | none => if isControl c then none else keep [c] t

/-- Reads a text in quotes of one line. -/
def quotedLine? : Text → Option (Text × Text)
  | c :: t => if c = '"' ∨ c = '\'' then quotedRest? c false (t.length + 1) t else none
  | [] => none

/-- Reads a text in quotes of either kind. -/
def quotedText? (t : Text) : Option (Text × Text) :=
  match t with
  | a :: b :: c :: rest =>
    if a = b ∧ b = c ∧ (a = '"' ∨ a = '\'') then
      let rest := (newline? rest).getD rest
      quotedRest? a true (rest.length + 1) rest
    else quotedLine? t
  | _ => quotedLine? t

end EndpointAtlas.Toml
