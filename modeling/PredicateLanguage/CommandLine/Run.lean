import PredicateLanguage.CommandLine.Arguments
import PredicateLanguage.CommandLine.Failure
import PredicateLanguage.CommandLine.Log
import PredicateLanguage.Evaluation.Verdict
import PredicateLanguage.Grammar.Reader
import PredicateLanguage.Json.Tree
import PredicateLanguage.Predicate.Canonical
import PredicateLanguage.Predicate.Traversal

/-!
# Runs of the program

What a run prints and how it ends.  A predicate that cannot be read decides before
anything else is looked at, then a form that is asked for, then the file of bindings,
then the assignments in order.
-/

namespace PredicateLanguage.CommandLine

/-- How a run ends. -/
inductive Ending where
  /-- With the predicate printed or evaluated. -/
  | printed (text : String)
  /-- The predicate cannot be read. -/
  | rejected
  /-- The bindings cannot be used. -/
  | failed (failure : Failure)
  deriving DecidableEq

/-- A name and the value it is assigned, split at the first `=`. -/
def assignment (given : String) : Except Failure (String × String) :=
  match splitAtFirst '=' given.toList with
  | (_, none) => .error (.notAssignment given)
  | ([], some _) => .error (.nameless given)
  | (name, some value) => .ok (String.ofList name, String.ofList value)

def fileBindings (files : String → FileState) (path : String) : Except Failure Bindings :=
  match (files path).text with
  | .error reason => .error (.unreadable path reason)
  | .ok text =>
    match Bindings.ofJson text with
    | .error fault => .error (.notBindings path fault)
    | .ok bindings => .ok bindings

/-- The bindings of the file, if there is one, with those of the assignments on top. -/
def Options.bindings (options : Options) (files : String → FileState) :
    Except Failure Bindings := do
  let bindings ←
    match options.bindingsFile with
    | some path => fileBindings files path
    | none => pure ∅
  let assignments ← options.assignments.mapM assignment
  return bindings.bindAll assignments

/-- The names of the variables of a predicate that nothing is bound to. -/
def unboundNames (p : Predicate) (bindings : Bindings) : List String :=
  p.variables.members.filter fun name => (bindings.lookup name).isNone

def resultText (value : Bool) : String :=
  if value then "True" else "False"

/-- Carries out a run: how it ends and what it logs. -/
def Options.run (options : Options) (files : String → FileState) : Ending × List LogLine :=
  match Predicate.parse options.predicate with
  | .error e =>
    (.rejected,
      [⟨.debug, .predicates,
          "Rejected predicate " ++ showQuoted options.predicate ++ ": " ++ e.message⟩,
        ⟨.warn, .program, "Invalid predicate: " ++ e.message⟩])
  | .ok p =>
    let parsed : LogLine :=
      ⟨.trace, .predicates,
        "Parsed predicate " ++ showQuoted options.predicate ++ " as " ++ p.canonical⟩
    match options.task with
    | .printJson => (.printed p.toJson, [parsed])
    | .printCanonical => (.printed p.canonical, [parsed])
    | .evaluate =>
      match options.bindings files with
      | .error failure => (.failed failure, [parsed])
      | .ok bindings =>
        (.printed (resultText (p.evaluate bindings.lookup).value),
          parsed :: (unboundNames p bindings).map fun name =>
            ⟨.debug, .program, "Variable " ++ name ++ " is unbound, reading as empty"⟩)

/-- What the program leaves behind. -/
structure Response where
  exit : Nat
  stdout : String
  stderr : String
  deriving DecidableEq

/-- The response of a run that ends and logs as told. -/
def Ending.response (ending : Ending) (log : String) : Response :=
  match ending with
  | printed text => ⟨0, text ++ "\n", log⟩
  | rejected => ⟨2, "None\n", log⟩
  | failed failure => ⟨1, "", log ++ failure.report⟩

def versionText : String :=
  "predlang-cli 0.1.0\n"

def helpText : String :=
  "Usage: predlang [OPTIONS] <PREDICATE> [NAME=VALUE]...\n" ++
  "\n" ++
  "Arguments:\n" ++
  "  <PREDICATE>      " ++
    "Predicate to evaluate, e.g. \"kind in \x7bstreet, district\x7d and country == 'TR'\"\n" ++
  "  [NAME=VALUE]...  Variable assignments\n" ++
  "\n" ++
  "Options:\n" ++
  "      --vars-file <PATH>  JSON object of string variables, applied before the assignments\n" ++
  "      --json              Print the parsed tree as JSON instead of evaluating it\n" ++
  "      --canonical         " ++
    "Print the canonical form of the predicate instead of evaluating it\n" ++
  "  -h, --help              Print help\n" ++
  "  -V, --version           Print version\n"

/-- The file that a run with some arguments would read. -/
def wantedFile (arguments : List String) : Option String :=
  match Request.ofArguments arguments with
  | .ok (.run options) => options.bindingsFile
  | _ => none

/-- What the program answers to arguments, a log setting and the files it finds. -/
def respond (arguments : List String) (setting : Option String)
    (files : String → FileState) : Except UsageError Response :=
  match Request.ofArguments arguments with
  | .error e => .error e
  | .ok .version => .ok ⟨0, versionText, ""⟩
  | .ok .help => .ok ⟨0, helpText, ""⟩
  | .ok (.run options) =>
    let (ending, lines) := options.run files
    .ok (ending.response (writeLog (.ofSetting setting) lines))

end PredicateLanguage.CommandLine
