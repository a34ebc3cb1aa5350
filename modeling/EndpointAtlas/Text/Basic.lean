/-!
# Text

A text is a list of characters, so that every function on it is a recursion on its characters and
every law about it an induction. This file holds the operations that ask nothing of a character but
equality: lines, separated pieces, joining, and the length of the encoded form. -/

namespace EndpointAtlas

/-- A text, character by character. -/
abbrev Text := List Char

/-- A literal is the list of its characters. -/
instance : Coe String Text := ⟨String.toList⟩

namespace Text

/-- The number of bytes of the UTF-8 form. -/
def byteLength : Text → Nat
  | [] => 0
  | c :: t => c.utf8Size + byteLength t

theorem byteLength_append (s t : Text) : byteLength (s ++ t) = byteLength s + byteLength t := by
  induction s with
  | nil => simp [byteLength]
  | cons c s ih => simp [byteLength, ih, Nat.add_assoc]

/-- The lines of a text. A line ends at a line feed, and a carriage return just before that line feed
    is no part of it; what follows the last line feed is a line if it is not empty. -/
def lines : Text → List Text
  | [] => []
  | '\n' :: t => [] :: lines t
  | '\r' :: '\n' :: t => [] :: lines t
  | c :: t =>
    match lines t with
    | [] => [[c]]
    | l :: ls => (c :: l) :: ls

/-- The pieces between the occurrences of `d`: always one more than there are occurrences. A list of bytes
    is split like a text. -/
def splitOn {α : Type} [DecidableEq α] (d : α) : List α → List (List α)
  | [] => [[]]
  | c :: t =>
    if c = d then [] :: splitOn d t
    else
      match splitOn d t with
      | [] => [[c]]
      | p :: ps => (c :: p) :: ps

/-- The pieces in order, with `sep` between neighbours. -/
def joinWith {α : Type} (sep : List α) : List (List α) → List α
  | [] => []
  | [p] => p
  | p :: q :: ps => p ++ sep ++ joinWith sep (q :: ps)

/-- What follows `lead`, if the text begins with it. -/
def dropLead? : Text → Text → Option Text
  | [], t => some t
  | _ :: _, [] => none
  | a :: lead, c :: t => if a = c then dropLead? lead t else none

theorem dropLead?_eq_some_iff {lead t rest : Text} : dropLead? lead t = some rest ↔ t = lead ++ rest := by
  induction lead generalizing t with
  | nil => simp [dropLead?]
  | cons a lead ih =>
    cases t with
    | nil => simp [dropLead?]
    | cons c t =>
      by_cases h : a = c
      · simp [dropLead?, h, ih]
      · simp [dropLead?, h, Ne.symm h]

/-- Whether the text begins with `lead`. -/
def startsWith (lead t : Text) : Bool := (dropLead? lead t).isSome

/-- Whether the text ends with the character `d`. -/
def endsIn (d : Char) (t : Text) : Bool := t.getLast? == some d

/-- Every carriage return that stands before a line feed is left out. -/
def unifyLineEnds : Text → Text
  | [] => []
  | '\r' :: '\n' :: t => '\n' :: unifyLineEnds t
  | c :: t => c :: unifyLineEnds t

/-- The decimal digits of a number. -/
def ofNat (n : Nat) : Text := Nat.toDigits 10 n

/-- The decimal digits of an integer, after a minus sign where it is negative. -/
def ofInt (n : Int) : Text := if n < 0 then '-' :: ofNat n.natAbs else ofNat n.natAbs

end Text

end EndpointAtlas
