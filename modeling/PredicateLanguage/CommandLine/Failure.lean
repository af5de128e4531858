import PredicateLanguage.Json.Bindings

/-!
# Failures of a run

What is wrong with the bindings a run is given, in a file or as assignments.
-/

namespace PredicateLanguage.CommandLine

/-- What is found under the name of a file. -/
inductive FileState where
  | absent
  | directory
  /-- The name goes on behind that of a file. -/
  | belowFile
  /-- The file may not be read. -/
  | denied
  /-- The name, or a part of it, is longer than names may be. -/
  | nameTooLong
  | file (bytes : ByteArray)

/-- Why no text can be read from a file. -/
inductive Unreadable where
  | absent
  | directory
  | belowFile
  | denied
  | nameTooLong
  | notText
  deriving DecidableEq

def FileState.text : FileState → Except Unreadable String
  | absent => .error .absent
  | directory => .error .directory
  | belowFile => .error .belowFile
  | denied => .error .denied
  | nameTooLong => .error .nameTooLong
  | file bytes =>
    match String.fromUTF8? bytes with
    | some text => .ok text
    | none => .error .notText

/-- Why the bindings that are given cannot be used. -/
inductive Failure where
  | unreadable (path : String) (reason : Unreadable)
  | notBindings (path : String) (fault : Json.Fault)
  /-- An assignment without `=`. -/
  | notAssignment (given : String)
  /-- An assignment without a name. -/
  | nameless (given : String)
  deriving DecidableEq

/-- How messages tell why a file cannot be read. -/
def Unreadable.message : Unreadable → String
  | absent => "No such file or directory (os error 2)"
  | directory => "Is a directory (os error 21)"
  | belowFile => "Not a directory (os error 20)"
  | denied => "Permission denied (os error 13)"
  | nameTooLong => "File name too long (os error 36)"
  | notText => "stream did not contain valid UTF-8"

namespace Failure

def message : Failure → String
  | unreadable path _ => "Failed to read variables file " ++ path
  | notBindings path _ => path ++ " is not a JSON object of strings"
  | notAssignment given => "Expected NAME=VALUE, got " ++ showQuoted given
  | nameless given => "Missing variable name in " ++ showQuoted given

/-- Why it failed, if that is not told by what failed. -/
def cause? : Failure → Option String
  | unreadable _ reason => some reason.message
  | notBindings _ fault => some fault.message
  | notAssignment _ | nameless _ => none

/-- A failure as the program reports it. -/
def report (failure : Failure) : String :=
  "Error: " ++ failure.message ++ "\n" ++
    match failure.cause? with
    | some cause => "\nCaused by:\n    " ++ cause ++ "\n"
    | none => ""

end Failure

end PredicateLanguage.CommandLine
