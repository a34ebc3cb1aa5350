import EndpointAtlas.Toml.Scalar

/-!
# Reading TOML

A document is read line by line: a line has a header, a key with its value, or neither, and may end in a
comment. The lines from one header to the next make a section, whose keys fill the table of the header.
Nothing is answered for a text that breaks a rule anywhere. -/

namespace EndpointAtlas.Toml

/-- Skips spaces, line ends and comments, and in a comment everything up to the end of its line. -/
def gap? (inComment : Bool) : Text → Option Text
  | [] => some []
  | '\n' :: t => gap? false t
  | '\r' :: '\n' :: t => gap? false t
  | c :: t =>
    if inComment then if isControl c then none else gap? true t
    else if c = ' ' ∨ c = '\t' then gap? false t
    else if c = '#' then gap? true t
    else some (c :: t)

/-- Skips what may stand behind the content of a line, and the line end. -/
def lineEnd? (inComment : Bool) : Text → Option Text
  | [] => some []
  | '\n' :: t => some t
  | '\r' :: '\n' :: t => some t
  | c :: t =>
    if inComment then if isControl c then none else lineEnd? true t
    else if c = ' ' ∨ c = '\t' then lineEnd? false t
    else if c = '#' then lineEnd? true t
    else none

/-- Whether a character may stand in a key without quotes. -/
def isBare (c : Char) : Bool := c.isAlphanum || c == '_' || c == '-'

/-- Reads one part of a key. -/
def keyPart? (t : Text) : Option (Text × Text) :=
  match quotedLine? t with
  | some found => some found
  | none => Text.nonempty? (t.takeWhile isBare, t.dropWhile isBare)

/-- Reads at most so many parts of a key with dots between them, and the blanks behind them. -/
def keyParts? : Nat → Text → Option (List Text × Text)
  | 0, _ => none
  | count + 1, t => do
    let (part, rest) ← keyPart? (dropSpaces t)
    match dropSpaces rest with
    | '.' :: rest =>
      let (parts, rest) ← keyParts? count rest
      return (part :: parts, rest)
    | rest => return ([part], rest)

/-- How deep tables, arrays and the parts of a key may stand in one another. -/
def maxDepth : Nat := 80

/-- Reads a key. -/
def key? (t : Text) : Option (List Text × Text) := keyParts? maxDepth t

/-- Reads a list up to its closing bracket. Its items stand between commas, and one comma more may stand
    behind the last. Every item takes one of the steps. -/
def listed? {α : Type} (close : Char) (item : Text → Option (α × Text)) : Nat → Text → Option (List α × Text)
  | 0, _ => none
  | steps + 1, t => do
    match ← gap? false t with
    | [] => none
    | c :: rest =>
      if c = close then return ([], rest)
      else
        let (a, t) ← item (c :: rest)
        match ← gap? false t with
        | [] => none
        | d :: rest =>
          if d = ',' then
            let (l, rest) ← listed? close item steps rest
            return (a :: l, rest)
          else if d = close then return ([a], rest)
          else none

/-- Reads a key and its value. `skip?` goes over what may stand on either side of the sign between
    them. -/
def pair? (skip? : Text → Option Text) (value : Text → Option (Value × Text)) (t : Text) :
    Option ((List Text × Value) × Text) := do
  let (key, t) ← key? t
  let t ← Text.dropLead? ['='] (← skip? t)
  let (v, t) ← value (← skip? t)
  return ((key, v), t)

/-- Adds values under their keys one after the other. -/
def fill (pairs : List (List Text × Value)) (t : Table) : Option Table :=
  pairs.foldlM (fun t (key, v) => do t.addDotted key.dropLast (← key.getLast?) v) t

/-- Whether a character ends a word. -/
def endsWord (c : Char) : Bool := " \t\r\n#,=[]\x7b\x7d".toList.contains c

/-- Reads a word. A space may stand between a date and the time that follows it. -/
def word? (t : Text) : Option (Value × Text) := do
  let first := t.takeWhile fun c => !endsWord c
  let rest := t.dropWhile fun c => !endsWord c
  match date? first, rest with
  | some [], ' ' :: c :: more =>
    if c.isDigit then
      let second := (c :: more).takeWhile fun c => !endsWord c
      return (← scalar? (first ++ ' ' :: second), (c :: more).dropWhile fun c => !endsWord c)
    else return (← scalar? first, rest)
  | _, _ => return (← scalar? first, rest)

/-- Reads a value in which brackets and braces stand at most so deep in one another. Between braces, a
    key and its value may stand on lines of their own. -/
def value? : Nat → Text → Option (Value × Text)
  | 0, t =>
    match quotedText? t with
    | some (s, rest) => some (.text s, rest)
    | none => word? t
  | depth + 1, t =>
    match t with
    | '[' :: rest => do
      let (items, rest) ← listed? ']' (value? depth) (rest.length + 1) rest
      return (.array false items, rest)
    | '\x7b' :: rest => do
      let (pairs, rest) ← listed? '\x7d' (pair? (gap? false) (value? depth)) (rest.length + 1) rest
      return (.table .inline (← fill pairs []), rest)
    | _ =>
      match quotedText? t with
      | some (s, rest) => some (.text s, rest)
      | none => word? t

/-- The lines that say something. -/
inductive Line where
  | header (key : List Text)
  | arrayHeader (key : List Text)
  | pair (key : List Text) (v : Value)
  deriving Repr

/-- Reads what a line says, up to the blanks at its end. -/
def line? : Text → Option (Line × Text)
  | '[' :: '[' :: t => do
    let (key, t) ← key? t
    return (.arrayHeader key, ← Text.dropLead? [']', ']'] t)
  | '[' :: t => do
    let (key, t) ← key? t
    return (.header key, ← Text.dropLead? [']'] t)
  | t => do
    let ((key, v), t) ← pair? (fun t => some (dropSpaces t)) (value? maxDepth) t
    return (.pair key v, t)

/-- Reads all lines. Every line takes one of the steps. -/
def lines? : Nat → Text → Option (List Line)
  | 0, _ => none
  | steps + 1, t => do
    match ← gap? false t with
    | [] => return []
    | t =>
      let (line, t) ← line? t
      return line :: (← lines? steps (← lineEnd? false t))

/-- The lines in sections: the pairs before the first header, and each header with the pairs behind it. -/
def sections : List Line → List (List Text × Value) × List (Line × List (List Text × Value))
  | [] => ([], [])
  | .pair key v :: lines =>
    let (pairs, rest) := sections lines
    ((key, v) :: pairs, rest)
  | header :: lines =>
    let (pairs, rest) := sections lines
    ([], (header, pairs) :: rest)

/-- Adds a section to the table of the document. -/
def addSection (t : Table) : Line × List (List Text × Value) → Option Table
  | (.header key, pairs) => do t.openTable key.dropLast (← key.getLast?) (fill pairs)
  | (.arrayHeader key, pairs) => do t.appendTable key.dropLast (← key.getLast?) (fill pairs)
  | (.pair key v, pairs) => fill ((key, v) :: pairs) t

/-- The table of a document. A byte order mark in front of it says nothing. -/
def ofText? (t : Text) : Option Table := do
  let t := (Text.dropLead? ['\uFEFF'] t).getD t
  let (pairs, headed) := sections (← lines? (t.length + 1) t)
  headed.foldlM addSection (← fill pairs [])

end EndpointAtlas.Toml
