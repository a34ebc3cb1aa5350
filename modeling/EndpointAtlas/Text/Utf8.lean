import EndpointAtlas.Text.Basic

/-!
# UTF-8

The content of a file is a list of bytes. A text has one encoded form, and bytes that are the encoded
form of a text decode to it; no other bytes decode. To be shown, other bytes are taken unit by unit, a unit being
the form of a character or as much of one as there is. -/

namespace EndpointAtlas

/-- The content of a file. -/
abbrev Bytes := List UInt8

namespace Text

/-- The UTF-8 form of a text. -/
def encode (t : Text) : Bytes := t.flatMap String.utf8EncodeChar

/-- The text whose UTF-8 form the bytes are, if there is one. -/
def decode? (bytes : Bytes) : Option Text := (ByteArray.utf8Decode? bytes.toByteArray).map Array.toList

/-- How many bytes a form has that begins with `b`; zero if none does. -/
def formLength (b : UInt8) : Nat :=
  if b < 0x80 then 1
  else if b < 0xC2 then 0
  else if b < 0xE0 then 2
  else if b < 0xF0 then 3
  else if b < 0xF5 then 4
  else 0

/-- Whether a form that begins with `first` can go on with `second`. -/
def goesOn (first second : UInt8) : Bool :=
  let least : UInt8 := if first = 0xE0 then 0xA0 else if first = 0xF0 then 0x90 else 0x80
  let greatest : UInt8 := if first = 0xED then 0x9F else if first = 0xF4 then 0x8F else 0xBF
  least ≤ second && second ≤ greatest

/-- The bytes after `first` that belong to its unit. -/
def unitRest (first : UInt8) (rest : Bytes) : Bytes :=
  match rest.take (formLength first - 1) with
  | [] => []
  | second :: more => if goesOn first second then second :: more.takeWhile fun b => 0x80 ≤ b && b < 0xC0 else []

/-- The character that a unit is shown as, which is the replacement character if it is no form. -/
def unitChar (u : Bytes) : Char := ((decode? u).bind List.head?).getD '\uFFFD'

/-- Shows bytes as a text, unit by unit. -/
def ofUnits : Bytes → Text
  | [] => []
  | b :: rest => unitChar (b :: unitRest b rest) :: ofUnits (rest.drop (unitRest b rest).length)
termination_by bytes => bytes.length

/-- Shows bytes as a text: the one they are the form of, if there is one. -/
def display (bytes : Bytes) : Text := (decode? bytes).getD (ofUnits bytes)

theorem decode?_encode (t : Text) : decode? (encode t) = some t := by
  have h : (encode t).toByteArray = t.utf8Encode := rfl
  simp [decode?, h]

@[simp] theorem display_encode (t : Text) : display (encode t) = t := by
  rw [display, decode?_encode, Option.getD_some]

theorem encode_append (s t : Text) : encode (s ++ t) = encode s ++ encode t := by
  simp [encode]

end Text

end EndpointAtlas
