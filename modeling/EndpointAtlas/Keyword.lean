import EndpointAtlas.Text.Letter
import EndpointAtlas.Text.Blank

/-!
# Keywords

A body of code is opened by one of nine keywords and closed by `end`. A word is a maximal run of ASCII
letters, digits and underscores. `do` always opens; the other openers open only where a statement
begins: first on their line, or after `=`, `(` or a comma, and there not as a key of a hash (`if:`).
In any other place they qualify the statement before them and have no `end`.

Strings and comments are not recognised: a keyword counts wherever it stands. -/

namespace EndpointAtlas

/-- What a keyword does to the nesting of bodies. -/
inductive Keyword where
  | opener
  | closer
  deriving DecidableEq, Repr

namespace Keyword

/-- A keyword and the byte offset of its first character. -/
structure Hit where
  offset : Nat
  keyword : Keyword
  deriving DecidableEq, Repr

/-- The words that open a body where a statement begins. -/
def statementWords : List Text :=
  ["if", "unless", "case", "begin", "while", "until", "def"]

/-- A single colon follows, which makes the word before it a key. -/
def isHashKey : Text → Bool
  | ':' :: ':' :: _ => false
  | ':' :: _ => true
  | _ => false

/-- Whether a statement begins here: nothing but blanks stands before on the line, or the last
    character that is no blank calls for a value and the word is no hash key. -/
def beginsStatement (last : Option Char) (after : Text) : Bool :=
  match last with
  | none => true
  | some c => (c == '=' || c == '(' || c == ',') && !isHashKey after

/-- What the word `w` is, given the last character before it on its line that is no blank and the text
    behind it. -/
def ofWord? (last : Option Char) (w after : Text) : Option Keyword :=
  if w = "do" then some opener
  else if w = "end" then some closer
  else if beginsStatement last after && statementWords.contains w then some opener
  else none

/-- The last character on the line that is no blank, once `c` has been passed. -/
def lastOnLine (last : Option Char) (c : Char) : Option Char :=
  if c = '\n' then none else if isAsciiBlank c then last else some c

/-- The keywords of a text that begins at byte `offset`. `last` is the last character before it on its
    line that is no blank, and `inWord` tells whether the character before it belongs to a word. -/
def scanFrom (offset : Nat) (last : Option Char) (inWord : Bool) : Text → List Hit
  | [] => []
  | c :: t =>
    let later := scanFrom (offset + c.utf8Size) (lastOnLine last c) (isIdentChar c) t
    if isIdentChar c && !inWord then
      match ofWord? last ((c :: t).takeWhile isIdentChar) ((c :: t).dropWhile isIdentChar) with
      | some k => ⟨offset, k⟩ :: later
      | none => later
    else later

/-- The keywords of a text, in order. -/
def scan (t : Text) : List Hit := scanFrom 0 none false t

/-- One level more or one level less. -/
def depth : Keyword → Int
  | opener => 1
  | closer => -1

/-- By how many levels a text changes the nesting. -/
def depthChange (t : Text) : Int := @List.sum Int _ ⟨0⟩ ((scan t).map (·.keyword.depth))

/-- The offset of the hit that closes a body in which so many levels are open. -/
def closing? (levels : Nat) : List Hit → Option Nat
  | [] => none
  | h :: hits =>
    match h.keyword, levels with
    | .opener, n => closing? (n + 1) hits
    | .closer, n + 2 => closing? (n + 1) hits
    | .closer, _ => some h.offset

/-- The offset of the `end` of a body that was opened just before byte `start`. -/
def matchingClose? (t : Text) (start : Nat) : Option Nat :=
  closing? 1 ((scan t).filter (start ≤ ·.offset))

end Keyword

end EndpointAtlas
