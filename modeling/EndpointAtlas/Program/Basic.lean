import EndpointAtlas.CommandLine
import EndpointAtlas.Fault
import EndpointAtlas.FileTree.Basic
import EndpointAtlas.Settings.Placeholder

/-!
# Programs

A program gets the words of its command line and works on a file tree. It ends with a status and with
what it has told its user. -/

namespace EndpointAtlas

/-- How a program ended. -/
structure Ending where
  status : Nat
  output : Text
  errors : Text
  deriving DecidableEq, Repr

/-- What a program knows of the machine: the values of variables, and the time. -/
structure Surroundings where
  vars : Variables
  time : Text

/-- What a program does. -/
abbrev Program := Surroundings → List Text → StateM FileTree Ending

/-- A program and the paths that it looks at or writes, as far as the files of a tree tell them. -/
structure Tool where
  program : Program
  paths : Variables → List Text → FileTree → List Text

namespace Ending

/-- Lines of text, each with its end. -/
def lines (l : List Text) : Text := l.flatMap (· ++ ['\n'])

/-- A good end. -/
def success (output : List Text) : Ending := ⟨0, lines output, []⟩

/-- The end after a fault, behind what had been told before. -/
def failure (status : Nat) (output errors : List Text) : Ending := ⟨status, lines output, lines errors⟩

/-- The end of a program whose command line is rejected. -/
def rejected (name : Text) (specs : List OptionSpec) (f : UsageFault) : Ending :=
  let usage : Text := "Usage: " ++ name ++ " [OPTIONS]"
  let options : List Text := specs.map fun o => ("  --" : Text) ++ o.long
  match f with
  | .helpWanted => success ([usage, [], "Options:"] ++ options)
  | f => failure f.exitCode [] ["error: " ++ f.message, [], usage]

end Ending

end EndpointAtlas
