import EndpointAtlas.Keyed
import EndpointAtlas.Text.Basic

/-!
# Command lines

A command line names options. A flag stands alone; any other option has a value, which is joined to its
name or is the next word. A word that begins with a dash is never taken for such a value, except for the
dash alone. What an option was given is settled when the next option is read or the line ends, so the
first fault on the line is told, but for a word that nobody knows, which is told at once. -/

namespace EndpointAtlas

/-- What an option stands for. -/
inductive OptionKind where
  | flag
  | help
  /-- An option with a value that has to be of a form. -/
  | valued (isValue : Text → Bool)

/-- An option and its names. -/
structure OptionSpec where
  long : Text
  short : Option Char
  kind : OptionKind

/-- Why a command line is rejected. -/
inductive UsageFault where
  | unknownWord
  | valueMissing
  | valueMalformed
  | optionRepeated
  | flagWithValue
  | helpWanted
  deriving DecidableEq, Repr

/-- The options that were given, each under its long name with its value; that of a flag is empty. -/
abbrev Given := Keyed Text Text

/-- An option that still has to be settled. -/
inductive Pending where
  | none
  /-- The value may be the next word. -/
  | awaiting (option : Text) (isValue : Text → Bool)
  | answered (option : Text) (isValue : Text → Bool) (value : Text)

/-- What has been read of a command line. -/
structure CommandLine where
  given : Given
  pending : Pending

namespace CommandLine

/-- Nothing yet. -/
def empty : CommandLine := ⟨[], .none⟩

/-- Gives an option. -/
def give (option : Text) (isValue : Text → Bool) (value : Text) (l : Given) : Except UsageFault Given :=
  if (Keyed.get? option l).isSome then .error .optionRepeated
  else if isValue value then .ok (Keyed.set option value l)
  else .error .valueMalformed

/-- The options once the pending one is settled. -/
def settle (l : CommandLine) : Except UsageFault Given :=
  match l.pending with
  | .none => .ok l.given
  | .awaiting _ _ => .error .valueMissing
  | .answered option isValue value => give option isValue value l.given

/-- Settles the pending option and gives another. -/
def react (option : Text) (isValue : Text → Bool) (value : Text) (l : CommandLine) :
    Except UsageFault CommandLine := do
  return ⟨← give option isValue value (← l.settle), .none⟩

/-- Settles the pending option and waits for the value of another. -/
def await (option : Text) (isValue : Text → Bool) (l : CommandLine) : Except UsageFault CommandLine := do
  return ⟨← l.settle, .awaiting option isValue⟩

/-- Gives a flag. -/
def reactFlag (option : Text) (l : CommandLine) : Except UsageFault CommandLine := l.react option (fun _ => true) []

/-- Settles the pending option and asks for help. -/
def askHelp (l : CommandLine) : Except UsageFault CommandLine := do
  let _ ← l.settle
  throw .helpWanted

/-- Reads an option by its long name, with the value that may be joined to it by an equals sign. -/
def readLong (specs : List OptionSpec) (l : CommandLine) (body : Text) : Except UsageFault CommandLine :=
  let name := body.takeWhile (· ≠ '=')
  match specs.find? (·.long == name), body.dropWhile (· ≠ '=') with
  | none, _ => .error .unknownWord
  | some o, joined =>
    match o.kind, joined with
    | .valued isValue, [] => l.await o.long isValue
    | .valued isValue, _ :: value => l.react o.long isValue value
    | .flag, [] => l.reactFlag o.long
    | .help, [] => l.askHelp
    | _, _ :: _ => .error .flagWithValue

/-- Reads options by their short names. What follows the name of an option with a value is its value. -/
def readShort (specs : List OptionSpec) (l : CommandLine) : Text → Except UsageFault CommandLine
  | [] => .ok l
  | c :: rest =>
    match specs.find? (·.short == some c) with
    | none => .error .unknownWord
    | some o =>
      match o.kind with
      | .flag => do readShort specs (← l.reactFlag o.long) rest
      | .help => l.askHelp
      | .valued isValue =>
        match rest with
        | [] => l.await o.long isValue
        | '=' :: value => l.react o.long isValue value
        | value => l.react o.long isValue value

/-- Reads a word that names no option. -/
def readWord (l : CommandLine) (word : Text) : Except UsageFault CommandLine :=
  match l.pending with
  | .awaiting option isValue => .ok { l with pending := .answered option isValue word }
  | _ => .error .unknownWord

/-- Reads the rest of a command line. Behind a double dash no option is read any more. -/
def read (specs : List OptionSpec) : CommandLine → List Text → Except UsageFault Given
  | l, [] => l.settle
  | l, word :: words =>
    match word with
    | ['-', '-'] => if words = [] then l.settle else .error .unknownWord
    | '-' :: '-' :: body => do read specs (← l.readLong specs body) words
    | '-' :: c :: body => do read specs (← l.readShort specs (c :: body)) words
    | _ => do read specs (← l.readWord word) words

/-- Reads a command line. -/
def ofWords (specs : List OptionSpec) (words : List Text) : Except UsageFault Given := read specs empty words

end CommandLine

namespace OptionSpec

/-- The option that every command line knows. -/
def help : OptionSpec := ⟨"help", some 'h', .help⟩

/-- A flag. -/
def flag (long : Text) (short : Option Char) : OptionSpec := ⟨long, short, .flag⟩

/-- An option with any text as its value. -/
def text (long : Text) (short : Option Char) : OptionSpec := ⟨long, short, .valued fun _ => true⟩

end OptionSpec

/-- Reads a number of at most sixty-four bits, which may have a plus sign. -/
def Text.toNat64? (t : Text) : Option Nat :=
  let digits := match t with
    | '+' :: d => d
    | d => d
  if digits = [] ∨ !digits.all Char.isDigit then none
  else
    let n := digits.foldl (fun n c => 10 * n + (c.toNat - '0'.toNat)) 0
    if n < Nat.pow 2 64 then some n else none

/-- Reads a truth value. -/
def Text.toBool? (t : Text) : Option Bool :=
  if t = "true".toList then some true else if t = "false".toList then some false else none

namespace Given

/-- Whether a flag was given. -/
def has (l : Given) (option : Text) : Bool := (Keyed.get? option l).isSome

/-- The value of an option, or the one that it has by default. -/
def valueD (l : Given) (option usual : Text) : Text := (Keyed.get? option l).getD usual

end Given

namespace UsageFault

/-- The status that a program ends with when its command line is rejected. -/
def exitCode : UsageFault → Nat
  | helpWanted => 0
  | _ => 2

/-- The fault in words. -/
def message : UsageFault → Text
  | unknownWord => "unexpected argument found"
  | valueMissing => "a value is required but none was supplied"
  | valueMalformed => "invalid value"
  | optionRepeated => "an argument cannot be used multiple times"
  | flagWithValue => "unexpected value found"
  | helpWanted => "help"

end UsageFault

end EndpointAtlas
