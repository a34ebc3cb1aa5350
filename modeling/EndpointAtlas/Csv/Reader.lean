import EndpointAtlas.Text.Utf8

/-!
# Reading comma-separated values

The reader goes through the bytes one by one. A row ends at a line feed or a carriage return, and
between rows both are passed over, so that empty lines are no rows and the pair of them ends one row. A
quote opens a quoted part only at the beginning of a field; within it a doubled quote stands for one
quote, a single one ends it, and what follows up to the end of the field is taken as it stands. The last
row need not be ended. -/

namespace EndpointAtlas.Csv

/-- A row, each field as it was read. -/
abbrev Row := List Bytes

/-- The byte between two fields. -/
def comma : UInt8 := 0x2C

/-- The byte around a quoted field. -/
def quote : UInt8 := 0x22

/-- The byte that ends a written row. -/
def lineFeed : UInt8 := 0x0A

/-- The other byte that ends a row. -/
def carriageReturn : UInt8 := 0x0D

/-- The byte ends a row. -/
def endsRow (b : UInt8) : Bool := b == lineFeed || b == carriageReturn

/-- Where the reader stands. -/
inductive Place where
  /-- Between rows. -/
  | rowStart
  /-- At the beginning of a field. -/
  | fieldStart
  /-- In a field, outside quotes. -/
  | plain
  /-- In a quoted part. -/
  | quoted
  /-- Behind a quote in a quoted part: the first of two, or the last of the part. -/
  | quoteSeen
  deriving DecidableEq, Repr

/-- The reader's place, the fields of the row that are complete, and the field so far. -/
structure Scan where
  place : Place
  fields : Row
  field : Bytes
  deriving DecidableEq, Repr

namespace Scan

/-- Nothing read yet. -/
def start : Scan := ⟨.rowStart, [], []⟩

/-- A byte that has no meaning of its own goes to the field. -/
def push (s : Scan) (b : UInt8) (place : Place) : Scan := { s with place, field := s.field ++ [b] }

/-- The row that ends here. -/
def row (s : Scan) : Row := s.fields ++ [s.field]

/-- A byte of a field outside quotes. -/
def outsideQuotes (s : Scan) (b : UInt8) : Option Row × Scan :=
  if b = comma then (none, ⟨.fieldStart, s.fields ++ [s.field], []⟩)
  else if endsRow b then (some s.row, start)
  else (none, s.push b .plain)

/-- The first byte of a field. -/
def atFieldStart (s : Scan) (b : UInt8) : Option Row × Scan :=
  if b = quote then (none, { s with place := .quoted }) else s.outsideQuotes b

/-- One byte further: the row that the byte ends, if it ends one, and the reader behind it. -/
def step (s : Scan) (b : UInt8) : Option Row × Scan :=
  match s.place with
  | .rowStart => if endsRow b then (none, s) else s.atFieldStart b
  | .fieldStart => s.atFieldStart b
  | .plain => s.outsideQuotes b
  | .quoted => (none, if b = quote then { s with place := .quoteSeen } else s.push b .quoted)
  | .quoteSeen => if b = quote then (none, s.push b .quoted) else s.outsideQuotes b

/-- The row that the end of the file ends. -/
def finish (s : Scan) : List Row :=
  match s.place with
  | .rowStart => []
  | _ => [s.row]

/-- The rows that end among the bytes or with them. -/
def run (s : Scan) : Bytes → List Row
  | [] => s.finish
  | b :: bytes => (s.step b).1.toList ++ (s.step b).2.run bytes

end Scan

/-- The mark that a file may begin with. -/
def byteOrderMark : Bytes := [0xEF, 0xBB, 0xBF]

/-- The bytes without the mark. -/
def dropMark (bytes : Bytes) : Bytes :=
  if byteOrderMark.isPrefixOf bytes then bytes.drop byteOrderMark.length else bytes

/-- The rows of a file. -/
def rows (bytes : Bytes) : List Row := Scan.start.run (dropMark bytes)

/-- The rows behind the first one that have at least `width` fields, all of them texts. Any other row is
    passed over. -/
def read (width : Nat) (bytes : Bytes) : List (List Text) :=
  ((rows bytes).drop 1).filterMap fun row =>
    if row.length < width then none else row.mapM Text.decode?

end EndpointAtlas.Csv
