import EndpointAtlas.Toml.Value
import EndpointAtlas.Toml.Quoted

/-!
# Numbers, truth values and moments in TOML

What stands in a value without quotes or brackets is one word, which is a number, a truth value, or a
moment. Digits may be grouped by single underscores, and no decimal number but zero begins with a zero.

The form of a number is looser than what a number is: a base may stand without digits, letters may stand
among the digits behind the first underscore, and a number may be too great to be told. Such words are
values that cannot be read. -/

namespace EndpointAtlas.Toml

/-- Whether every underscore has a digit right before it and right behind it. `behindDigit` tells whether
    a digit stands before the text. -/
def isGroupedFrom (isDigit : Char → Bool) (behindDigit : Bool) : Text → Bool
  | [] => true
  | ['_'] => false
  | '_' :: c :: t => behindDigit && isDigit c && isGroupedFrom isDigit true t
  | c :: t => isGroupedFrom isDigit (isDigit c) t

/-- Whether every underscore of a text has a digit right before it and right behind it. -/
def isGrouped (isDigit : Char → Bool) (t : Text) : Bool := isGroupedFrom isDigit false t

/-- The text without its underscores. -/
def ungrouped (t : Text) : Text := t.filter (· != '_')

/-- Whether a character is a digit in a base. -/
def isDigitOf (base : Nat) (c : Char) : Bool := (hexDigit? c).any (· < base)

/-- The number that digits stand for. -/
def ofDigits (base : Nat) (digits : Text) : Nat :=
  digits.foldl (fun n c => base * n + (hexDigit? c).getD 0) 0

/-- Integers are told up to the widest word there is. -/
def inRange (n : Int) : Bool := -Int.pow 2 127 ≤ n && n < Int.pow 2 128

/-- The text without its sign, and the sign. -/
def unsigned : Text → Option Char × Text
  | '+' :: t => (some '+', t)
  | '-' :: t => (some '-', t)
  | t => (none, t)

/-- The integer with a sign and digits in a base, which the word `word` was built to tell. -/
def integerOf (word : Text) (base : Nat) (sign : Option Char) (digits : Text) : Value :=
  let n : Int := if sign = some '-' then -Int.ofNat (ofDigits base digits) else ofDigits base digits
  if digits ≠ [] ∧ List.all digits (isDigitOf base) ∧ inRange n then .integer n
  else .unreadable word

/-- Reads the digits of an integer with a base of its own, which may be missing. -/
def based? (word : Text) (base : Nat) (t : Text) : Option Value := do
  guard (isGrouped (isDigitOf base) t ∧ List.all (ungrouped t) (isDigitOf base))
  return integerOf word base none (ungrouped t)

/-- Reads an integer without a base of its own. Behind the first underscore it may hold any characters,
    as long as what stands beside an underscore would be a digit in one of the bases. -/
def decimalInteger? (word : Text) (sign : Option Char) (t : Text) : Option Value := do
  guard (t ≠ [] ∧ (t = ['0'] ∨ t.head? ≠ some '0') ∧ (t.dropWhile Char.isDigit).head?.all (· = '_'))
  guard (isGrouped (isDigitOf 16) t ∧ List.all t fun c => c ∉ ['.', 'e', 'E', ' '])
  return integerOf word 10 sign (ungrouped t)

/-- The text before and after the first of some characters. -/
def cut (isCut : Char → Bool) (t : Text) : Text × Option Text :=
  match t.dropWhile fun c => !isCut c with
  | [] => (t, none)
  | _ :: rest => (t.takeWhile fun c => !isCut c, some rest)

/-- Whether `digits` times the tenth power `exponent` is nearer to the double that would follow the
    greatest one than to that one, or as near. -/
def overflows (digits : Text) (exponent : Int) : Bool :=
  let n := ofDigits 10 digits
  let limit := Nat.pow 2 1024 - Nat.pow 2 970
  if n = 0 then false
  else if exponent < 0 then
    -exponent < digits.length && limit * Nat.pow 10 exponent.natAbs ≤ n
  else 400 < exponent || limit ≤ n * Nat.pow 10 exponent.natAbs

/-- Reads a run of at least one decimal digit, grouped in any way. -/
def digits? (t : Text) : Option Text := do
  let digits := ungrouped t
  guard (digits ≠ [] ∧ List.all digits Char.isDigit)
  return digits

/-- Reads a number with a fraction or an exponent. -/
def decimal? (word t : Text) : Option Value := do
  let (mantissa, exponent) := cut (fun c => c == 'e' || c == 'E') t
  let (whole, fraction) := cut (· == '.') mantissa
  guard (fraction.isSome || exponent.isSome)
  guard (isGrouped Char.isDigit t)
  let w ← digits? whole
  guard (whole.head? ≠ some '0' ∨ w = ['0'])
  let f ← match fraction with
    | some f => digits? f
    | none => some []
  let e : Int ← match exponent with
    | some e => do
      let (sign, e) := unsigned e
      let n := ofDigits 10 (← digits? e)
      pure (if sign = some '-' then -Int.ofNat n else n)
    | none => some 0
  return if overflows (w ++ f) (e - f.length) then .unreadable word else .decimal word

/-- Reads a number. One with a base of its own has no sign. -/
def number? (word : Text) : Option Value :=
  match unsigned word with
  | (none, '0' :: 'x' :: t) => based? word 16 t
  | (none, '0' :: 'o' :: t) => based? word 8 t
  | (none, '0' :: 'b' :: t) => based? word 2 t
  | (sign, t) =>
    if t = "inf".toList ∨ t = "nan".toList then some (.decimal word)
    else
      match decimalInteger? word sign t with
      | some v => some v
      | none => decimal? word t

/-- Reads `count` decimal digits that tell a number from `low` to `high`. -/
def field? (count low high : Nat) (t : Text) : Option (Nat × Text) := do
  let digits := t.take count
  guard (digits.length = count ∧ List.all digits Char.isDigit)
  let n := ofDigits 10 digits
  guard (low ≤ n ∧ n ≤ high)
  return (n, t.drop count)

/-- The number of days of a month. -/
def daysOf (year month : Nat) : Nat :=
  if month = 2 then
    if year % 4 = 0 ∧ (year % 100 ≠ 0 ∨ year % 400 = 0) then 29 else 28
  else if month ∈ [4, 6, 9, 11] then 30
  else 31

/-- Reads a date and answers what follows. -/
def date? (t : Text) : Option Text := do
  let (year, t) ← field? 4 0 9999 t
  let (month, t) ← field? 2 1 12 (← Text.dropLead? ['-'] t)
  let (_, t) ← field? 2 1 (daysOf year month) (← Text.dropLead? ['-'] t)
  return t

/-- Reads a time of day and answers what follows. The seconds may be left out. -/
def time? (t : Text) : Option Text := do
  let (_, t) ← field? 2 0 23 t
  let (_, t) ← field? 2 0 59 (← Text.dropLead? [':'] t)
  match t with
  | ':' :: t =>
    let (_, t) ← field? 2 0 60 t
    match t with
    | '.' :: t =>
      guard ((t.head?).any Char.isDigit)
      return t.dropWhile Char.isDigit
    | t => return t
  | t => return t

/-- Whether a text is the distance of a time zone. -/
def isZone : Text → Bool
  | ['Z'] => true
  | ['z'] => true
  | c :: t =>
    (c == '+' || c == '-') &&
      match do
        let (_, t) ← field? 2 0 23 t
        let (_, t) ← field? 2 0 59 (← Text.dropLead? [':'] t)
        return t with
      | some [] => true
      | _ => false
  | [] => false

/-- Whether a word is a date, a time of day, or both. -/
def isMoment (t : Text) : Bool :=
  match date? t with
  | some [] => true
  | some (c :: clock) =>
    (c == 'T' || c == 't' || c == ' ') &&
      match time? clock with
      | some [] => true
      | some zone => isZone zone
      | none => false
  | none => time? t == some []

/-- The value of a word. -/
def scalar? (t : Text) : Option Value :=
  if t = "true".toList then some (.boolean true)
  else if t = "false".toList then some (.boolean false)
  else
    match number? t with
    | some v => some v
    | none => if isMoment t then some (.moment t) else none

end EndpointAtlas.Toml
