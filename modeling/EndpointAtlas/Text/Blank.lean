import EndpointAtlas.Text.Basic

/-!
# Blanks

A *blank* is a character with the Unicode property White_Space. There are twenty-five of them, so the
list is written out. -/

namespace EndpointAtlas

/-- The code points of White_Space. -/
def blankCodes : List Nat :=
  [0x09, 0x0A, 0x0B, 0x0C, 0x0D, 0x20, 0x85, 0xA0, 0x1680, 0x2000, 0x2001, 0x2002, 0x2003, 0x2004,
   0x2005, 0x2006, 0x2007, 0x2008, 0x2009, 0x200A, 0x2028, 0x2029, 0x202F, 0x205F, 0x3000]

/-- A white-space character of any kind. -/
def isBlank (c : Char) : Bool := blankCodes.contains c.toNat

/-- A white-space character of ASCII other than the vertical tab. -/
def isAsciiBlank (c : Char) : Bool := c == ' ' || c == '\t' || c == '\n' || c == '\x0c' || c == '\r'

namespace Text

/-- The text without the blanks at its front. -/
def trimStart (t : Text) : Text := t.dropWhile isBlank

/-- The text without the blanks at its end. -/
def trimEnd : Text → Text
  | [] => []
  | c :: t =>
    match trimEnd t with
    | [] => if isBlank c then [] else [c]
    | d :: u => c :: d :: u

/-- The text without the blanks at either end. -/
def trim (t : Text) : Text := trimEnd (trimStart t)

/-- Every run of blanks is replaced by one space. -/
def squeezeBlanks : Text → Text
  | [] => []
  | c :: t =>
    if isBlank c then
      match t with
      | [] => [' ']
      | d :: _ => if isBlank d then squeezeBlanks t else ' ' :: squeezeBlanks t
    else c :: squeezeBlanks t

end Text

end EndpointAtlas
