import PredicateLanguage.CommandLine.Run

/-!
# The program

Collects what a run depends on, asks for the response and hands it out.
-/

open PredicateLanguage.CommandLine

/-- The environment variable that holds the log setting. -/
def logVariable : String := "RUST_LOG"

/-- Whether a number is that of the error of a name that is too long, which comes with
either sign. -/
def tellsLongName (code : UInt32) : Bool :=
  code == 36 || code == -36

/-- Looks up what is found under the name of a file.  What can be opened as a file but not
be read is a directory. -/
def lookUpFile (path : String) : IO FileState := do
  try
    return .file (← IO.FS.readBinFile path)
  catch e =>
    match e with
    | .noFileOrDirectory .. => return .absent
    | .inappropriateType none .. => return .directory
    | .inappropriateType (some _) .. => return .belowFile
    | .permissionDenied .. => return .denied
    | .invalidArgument _ code _ =>
      if tellsLongName code then return .nameTooLong else throw e
    | e => throw e

def main (arguments : List String) : IO UInt32 := do
  let setting ← IO.getEnv logVariable
  let state ←
    match wantedFile arguments with
    | some path => lookUpFile path
    | none => pure .absent
  match respond arguments setting fun _ => state with
  | .error e =>
    (← IO.getStderr).putStr ("error: " ++ e.message ++ "\n\n" ++ helpText)
    return 2
  | .ok response =>
    (← IO.getStdout).putStr response.stdout
    (← IO.getStderr).putStr response.stderr
    return response.exit.toUInt32
