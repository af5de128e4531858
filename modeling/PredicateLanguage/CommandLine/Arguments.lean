/-!
# Arguments of the command line

The first argument that is no option is the predicate, the others are assignments;
options may stand anywhere before `--`, behind which nothing is an option.
Arguments are taken one after the other, and the first that cannot be taken, or that
asks for the version or for help, ends the matter.
-/

namespace PredicateLanguage.CommandLine

/-- What is printed of a predicate. -/
inductive Task where
  /-- Its value under the bindings that are given. -/
  | evaluate
  | printJson
  | printCanonical
  deriving DecidableEq

/-- What a run of the program is given. -/
structure Options where
  predicate : String
  assignments : List String
  /-- The file with bindings that come before the assignments. -/
  bindingsFile : Option String
  task : Task
  deriving DecidableEq

inductive Request where
  | run (options : Options)
  | version
  | help
  deriving DecidableEq

/-- Why arguments cannot be taken. -/
inductive UsageError where
  | missingPredicate
  | unknownOption (argument : String)
  | repeatedOption (name : String)
  /-- A value was given to an option that takes none. -/
  | unwantedValue (name : String)
  | missingValue (name : String)
  /-- Two options were given that exclude each other. -/
  | conflict
  deriving DecidableEq

/-- How the program says why arguments cannot be taken. -/
def UsageError.message : UsageError → String
  | missingPredicate => "a predicate is required"
  | unknownOption argument => "unknown option '" ++ argument ++ "'"
  | repeatedOption name => "option '--" ++ name ++ "' cannot be given twice"
  | unwantedValue name => "option '--" ++ name ++ "' takes no value"
  | missingValue name => "option '--" ++ name ++ "' needs a value"
  | conflict => "options '--json' and '--canonical' exclude each other"

/-- The name of the option that prints a predicate as JSON. -/
def jsonOption : String := "json"

/-- The name of the option that prints the canonical text of a predicate. -/
def canonicalOption : String := "canonical"

/-- The name of the option that names a file of bindings. -/
def bindingsOption : String := "vars-file"

/-- The arguments that were taken so far. -/
structure Taken where
  /-- The arguments that are no options, the latest first. -/
  plain : List String := []
  bindingsFile : Option String := none
  json : Bool := false
  canonical : Bool := false

namespace Taken

/-- What the arguments ask for when none is left. -/
def finish (t : Taken) : Except UsageError Request :=
  match t.plain.reverse with
  | [] => .error .missingPredicate
  | predicate :: assignments =>
    if t.json && t.canonical then
      .error .conflict
    else
      .ok (.run {
        predicate, assignments
        bindingsFile := t.bindingsFile
        task := if t.json then .printJson else if t.canonical then .printCanonical else .evaluate })

/-- Takes the file of bindings, which has to have a name and may be given once. -/
def takeBindingsFile (t : Taken) (path : String) : Except UsageError Taken :=
  if path = "" then .error (.missingValue bindingsOption)
  else if t.bindingsFile.isSome then .error (.repeatedOption bindingsOption)
  else .ok { t with bindingsFile := some path }

end Taken

/-- A long option, split at the first `=`. -/
structure LongOption where
  name : String
  value : Option String

/-- What an argument is by its first characters. -/
inductive Argument where
  | plain
  | long (option : LongOption)
  /-- A single dash and the letter behind it. -/
  | short (letter : Char)
  /-- Nothing behind it is an option. -/
  | separator

/-- Splits a text at the first of a character. -/
def splitAtFirst (c : Char) (s : List Char) : List Char × Option (List Char) :=
  match s.dropWhile (· ≠ c) with
  | [] => (s, none)
  | _ :: rest => (s.takeWhile (· ≠ c), some rest)

def Argument.of (argument : String) : Argument :=
  match argument.toList with
  | ['-', '-'] => .separator
  | '-' :: '-' :: rest =>
    let (name, value) := splitAtFirst '=' rest
    .long ⟨String.ofList name, value.map String.ofList⟩
  | '-' :: letter :: _ => .short letter
  | _ => .plain

/-- Whether an argument can be the value of the option before it: no option but a single
dash starts with a dash. -/
def canBeValue (argument : String) : Bool :=
  argument.toList.head? ≠ some '-' || argument = "-"

/-- An option that takes no value may be given once. -/
def checkFlag (option : LongOption) (given : Bool) : Except UsageError Unit :=
  if option.value.isSome then .error (.unwantedValue option.name)
  else if given then .error (.repeatedOption option.name)
  else .ok ()

/-- Takes the arguments that are left. -/
def take (t : Taken) : List String → Except UsageError Request
  | [] => t.finish
  | argument :: rest =>
    match Argument.of argument with
    | .plain => take { t with plain := argument :: t.plain } rest
    | .separator => { t with plain := rest.reverse ++ t.plain }.finish
    | .short letter =>
      if letter = 'V' then .ok .version
      else if letter = 'h' then .ok .help
      else .error (.unknownOption argument)
    | .long option =>
      if option.name = jsonOption then
        match checkFlag option t.json with
        | .error e => .error e
        | .ok () => take { t with json := true } rest
      else if option.name = canonicalOption then
        match checkFlag option t.canonical with
        | .error e => .error e
        | .ok () => take { t with canonical := true } rest
      else if option.name = bindingsOption then
        match option.value, rest with
        | some path, rest =>
          match t.takeBindingsFile path with
          | .error e => .error e
          | .ok t => take t rest
        | none, [] => .error (.missingValue bindingsOption)
        | none, path :: rest =>
          if canBeValue path then
            match t.takeBindingsFile path with
            | .error e => .error e
            | .ok t => take t rest
          else
            .error (.missingValue bindingsOption)
      else if option.name = "version" then
        (checkFlag option false).map fun () => .version
      else if option.name = "help" then
        (checkFlag option false).map fun () => .help
      else
        .error (.unknownOption argument)

def Request.ofArguments (arguments : List String) : Except UsageError Request :=
  take {} arguments

end PredicateLanguage.CommandLine
