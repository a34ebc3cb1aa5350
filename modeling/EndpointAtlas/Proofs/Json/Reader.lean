import EndpointAtlas.Json
import EndpointAtlas.Text.Find

/-!
# Reading JSON

The text of a JSON value is read from left to right. White space may stand around every token, a string
may hold escapes, pairs of code units of UTF-16 among them, and a number is kept as it is written. Values
without a counterpart in `Json` are not read: `null` is the only one.

Each reader answers what it read and what follows. `fuel` bounds the steps of a reader, and the length of
a text is enough for it. -/

namespace EndpointAtlas.Json

/-- White space between tokens. -/
def isSpace (c : Char) : Bool := c == ' ' || c == '\t' || c == '\n' || c == '\r'

/-- What follows the white space that a text begins with. -/
def skip (t : Text) : Text := t.dropWhile isSpace

/-! ### Strings -/

/-- The value of a hexadecimal digit. -/
def hexValue? (c : Char) : Option Nat :=
  if c.isDigit then some (c.toNat - '0'.toNat)
  else if 'a' ≤ c ∧ c ≤ 'f' then some (10 + (c.toNat - 'a'.toNat))
  else if 'A' ≤ c ∧ c ≤ 'F' then some (10 + (c.toNat - 'A'.toNat))
  else none

/-- Reads four hexadecimal digits. -/
def readUnit? : Text → Option (Nat × Text)
  | a :: b :: c :: d :: t => do
    let digits ← [a, b, c, d].mapM hexValue?
    return (digits.foldl (16 * · + ·) 0, t)
  | _ => none

/-- Reads the digits of an escaped character; the first unit of a pair has to be followed by an escaped
    second one. -/
def readEscaped? (t : Text) : Option (Char × Text) := do
  let (n, t) ← readUnit? t
  if n < 0xD800 ∨ 0xE000 ≤ n then return (Char.ofNat n, t)
  else
    let (m, t) ← Text.dropLead? "\\u" t >>= readUnit?
    if n < 0xDC00 ∧ 0xDC00 ≤ m ∧ m < 0xE000 then
      return (Char.ofNat (0x10000 + (n - 0xD800) * 0x400 + (m - 0xDC00)), t)
    else none

/-- The characters that are escaped by one character. -/
def shortEscapes : List (Char × Char) :=
  [('"', '"'), ('\\', '\\'), ('/', '/'), ('n', '\n'), ('r', '\r'), ('t', '\t'), ('b', '\x08'), ('f', '\x0c')]

/-- Reads a character of a string. -/
def readChar? : Text → Option (Char × Text)
  | [] => none
  | '\\' :: 'u' :: t => readEscaped? t
  | '\\' :: c :: t => (shortEscapes.lookup c).map (·, t)
  | c :: t => if c.toNat < 0x20 ∨ c = '\\' then none else some (c, t)

/-- Reads the characters of a string and the quote behind them. -/
def readString? : Nat → Text → Option (Text × Text)
  | 0, _ => none
  | _ + 1, '"' :: t => some ([], t)
  | fuel + 1, t => do
    let (c, t) ← readChar? t
    let (s, t) ← readString? fuel t
    return (c :: s, t)

/-! ### Numbers -/

/-- A character that numbers are written with. -/
def isNumberChar (c : Char) : Bool := c.isDigit || c == '-' || c == '+' || c == '.' || c == 'e' || c == 'E'

/-- Nothing, or an exponent. -/
def isExponent : Text → Bool
  | [] => true
  | c :: t =>
    let digits := if t.head? = some '-' ∨ t.head? = some '+' then t.tail else t
    (c == 'e' || c == 'E') && !digits.isEmpty && List.all digits Char.isDigit

/-- A fraction or none, and an exponent or none. -/
def isFraction : Text → Bool
  | '.' :: c :: t => c.isDigit && isExponent (t.dropWhile Char.isDigit)
  | t => isExponent t

/-- Digits without a needless zero, a fraction or none, an exponent or none. -/
def isUnsigned : Text → Bool
  | [] => false
  | c :: t => if c = '0' then isFraction t else c.isDigit && isFraction (t.dropWhile Char.isDigit)

/-- A number, behind a sign or without one. -/
def isNumber (t : Text) : Bool := isUnsigned (if t.head? = some '-' then t.tail else t)

/-- Reads a number. -/
def readNumber? (t : Text) : Option (Json × Text) :=
  let digits := t.takeWhile isNumberChar
  if isNumber digits then some (number digits, t.dropWhile isNumberChar) else none

/-! ### Values -/

mutual

/-- Reads a value. -/
def readValue? : Nat → Text → Option (Json × Text)
  | 0, _ => none
  | fuel + 1, '"' :: t => (readString? fuel t).map fun (s, t) => (string s, t)
  | fuel + 1, '[' :: t =>
    match skip t with
    | ']' :: t => some (array [], t)
    | t => (readItems? fuel t).map fun (items, t) => (array items, t)
  | fuel + 1, '\x7b' :: t =>
    match skip t with
    | '\x7d' :: t => some (object [], t)
    | t => (readFields? fuel t).map fun (fields, t) => (object fields, t)
  | _ + 1, t => (Text.oneOf? [("true", bool true), ("false", bool false)] t) <|> readNumber? t

/-- Reads the items of an array, at least one, and the bracket behind them. -/
def readItems? : Nat → Text → Option (List Json × Text)
  | 0, _ => none
  | fuel + 1, t => do
    let (x, t) ← readValue? fuel t
    match skip t with
    | ',' :: t =>
      let (items, t) ← readItems? fuel (skip t)
      return (x :: items, t)
    | ']' :: t => return ([x], t)
    | _ => none

/-- Reads the fields of an object, at least one, and the brace behind them. -/
def readFields? : Nat → Text → Option (List (Text × Json) × Text)
  | 0, _ => none
  | fuel + 1, t => do
    let (name, t) ← Text.dropLead? ['"'] t >>= readString? fuel
    let t ← Text.dropLead? [':'] (skip t)
    let (x, t) ← readValue? fuel (skip t)
    match skip t with
    | ',' :: t =>
      let (fields, t) ← readFields? fuel (skip t)
      return ((name, x) :: fields, t)
    | '\x7d' :: t => return ([(name, x)], t)
    | _ => none

end

/-- The value that a whole text is. -/
def ofText? (t : Text) : Option Json := do
  let (j, rest) ← readValue? (t.length + 1) (skip t)
  if (skip rest).isEmpty then some j else none

/-! ### Parts of a value -/

/-- The value of a field. -/
def field? (name : Text) : Json → Option Json
  | object fields => fields.lookup name
  | _ => none

/-- The text of a string. -/
def text? : Json → Option Text
  | string s => some s
  | _ => none

/-- The natural number that digits stand for. -/
def nat? : Json → Option Nat
  | number digits => if List.all digits Char.isDigit then some (Nat.ofDigitChars 10 digits 0) else none
  | _ => none

/-- The values of an array. -/
def items? : Json → Option (List Json)
  | array items => some items
  | _ => none

end EndpointAtlas.Json
