import EndpointAtlas.Text.Basic

/-!
# Faults

What can stop a run, and how it is told to the user. -/

namespace EndpointAtlas

/-- Why an operation on files failed. -/
inductive FileError where
  | notFound
  | isDirectory
  | notDirectory
  | exists
  | nameTooLong
  | nulInName
  | permissionDenied
  | notText
  /-- A cause outside this list, in the words of whoever keeps the files. -/
  | other (message : Text)
  deriving DecidableEq, Repr

/-- The cause in words. -/
def FileError.message : FileError → Text
  | notFound => "No such file or directory (os error 2)"
  | isDirectory => "Is a directory (os error 21)"
  | notDirectory => "Not a directory (os error 20)"
  | «exists» => "File exists (os error 17)"
  | nameTooLong => "File name too long (os error 36)"
  | nulInName => "file name contained an unexpected NUL byte"
  | permissionDenied => "Permission denied (os error 13)"
  | notText => "stream did not contain valid UTF-8"
  | other message => message

/-- What stops a run. -/
inductive Fault where
  /-- A file of records could not be processed. -/
  | csv (message : Text)
  /-- A file could not be read or written. -/
  | file (cause : FileError)
  /-- A result could not be rendered. -/
  | rendering (message : Text)
  /-- A source tree is no directory. -/
  | missingRoot (path : Text)
  /-- The settings could not be read. -/
  | settings (field message : Text)
  /-- A setting has a value that it may not have. -/
  | invalidValue (field value reason : Text)
  deriving DecidableEq, Repr

/-- What a fault is about. -/
inductive Category where
  | io
  | config
  | data
  | input
  deriving DecidableEq, Repr

/-- How grave a fault is. -/
inductive Severity where
  | low
  | medium
  | high
  | critical
  deriving DecidableEq, Repr

namespace Fault

/-- The fault in words. -/
def message : Fault → Text
  | csv m => "CSV processing error: " ++ m
  | file cause => "IO error: " ++ cause.message
  | rendering m => "Serialization error: " ++ m
  | missingRoot path => "Source root not found: " ++ path
  | settings field m => "Configuration error in '" ++ field ++ "': " ++ m
  | invalidValue field value reason =>
    "Invalid value '" ++ value ++ "' for '" ++ field ++ "': " ++ reason

/-- What the fault is about. -/
def category : Fault → Category
  | csv _ => .data
  | file _ => .io
  | rendering _ => .data
  | missingRoot _ => .input
  | settings _ _ => .config
  | invalidValue _ _ _ => .config

/-- How grave the fault is: nothing can be done without the files, while data and settings can be
    mended. -/
def severity (f : Fault) : Severity :=
  match f.category with
  | .io | .input => .critical
  | .config | .data => .high

/-- What the user can do about the fault. -/
def suggestion : Fault → Text
  | missingRoot path =>
    "Check that '" ++ path ++ "' exists and contains one directory per API version"
  | file _ => "Check file permissions and available disk space"
  | csv _ => "Make sure the intermediate CSV files were written by this tool"
  | rendering _ => "Re-run with --verbose to see which record failed to serialize"
  | settings _ _ => "Fix the configuration file syntax and try again"
  | invalidValue field _ _ => "Provide a valid value for '" ++ field ++ "'"

/-- The fault as the user is told of it. -/
def report (f : Fault) : Text :=
  let topic : Text := match f.category with
    | .input => "Input tree problem: "
    | .config => "Configuration problem: "
    | .io => "File system problem: "
    | .data => "Data problem: "
  topic ++ f.message

end Fault

/-- The status that a program ends with after a fault. -/
def Severity.exitCode : Severity → Nat
  | low => 0
  | medium => 2
  | high => 1
  | critical => 3

end EndpointAtlas
