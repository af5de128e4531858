import PredicateLanguage.Text.Quoted

/-!
# Log

The program tells on its error output what it does, as far as the level that is set
lets it.  Control characters that would act on a terminal are written out.
-/

namespace PredicateLanguage.CommandLine

/-- How much a log line matters, from the most to the least. -/
inductive Level where
  | error
  | warn
  | info
  | debug
  | trace
  deriving DecidableEq

namespace Level

/-- All levels, from the one that matters most. -/
def all : List Level :=
  [error, warn, info, debug, trace]

/-- The name of a level as lines start with it. -/
def name : Level → String
  | error => "ERROR"
  | warn => "WARN"
  | info => "INFO"
  | debug => "DEBUG"
  | trace => "TRACE"

/-- The rank of a level: what matters most comes first. -/
def rank : Level → Nat
  | error => 1
  | warn => 2
  | info => 3
  | debug => 4
  | trace => 5

end Level

/-- The least important level that is written, or none. -/
abbrev Threshold := Option Level

namespace Threshold

/-- Whether lines of a level are written. -/
def admits (threshold : Threshold) (level : Level) : Bool :=
  threshold.any fun least => level.rank ≤ least.rank

/-- The threshold that a setting names: a level in either case or by its rank, nothing by
`off` or zero, and errors where it is empty. -/
def named? (setting : String) : Option Threshold :=
  if setting = "" then
    some (some .error)
  else if setting.map Char.toUpper = "OFF" || setting = "0" then
    some none
  else
    (Level.all.find? fun level =>
      setting.map Char.toUpper = level.name || setting = level.rank.repr).map some

/-- Warnings are written where nothing is set and where the setting cannot be read. -/
def ofSetting (setting : Option String) : Threshold :=
  (setting.bind named?).getD (some .warn)

end Threshold

/-- The parts of the program that log. -/
inductive Source where
  /-- The command line itself. -/
  | program
  /-- The reading of predicates. -/
  | predicates
  deriving DecidableEq

def Source.name : Source → String
  | program => "predlang"
  | predicates => "predlang_core::predicate"

structure LogLine where
  level : Level
  source : Source
  text : String
  deriving DecidableEq

/-- How a character is written in a log line. -/
def writeInLog (c : Char) : List Char :=
  if c = '\x1b' ∨ c = '\x07' ∨ c = '\x08' ∨ c = '\x0c' ∨ c = '\x7f' then
    ['\\', 'x', Nat.digitChar (c.toNat / 16), Nat.digitChar (c.toNat % 16)]
  else if 0x80 ≤ c.toNat ∧ c.toNat ≤ 0x9f then
    escapedByNumber c
  else
    [c]

/-- A text as it stands in a log line. -/
def inLog (text : String) : String :=
  String.ofList (text.toList.flatMap writeInLog)

def LogLine.write (line : LogLine) : String :=
  line.level.name ++ " " ++ line.source.name ++ ": " ++ inLog line.text ++ "\n"

/-- Writes the lines of a log that a threshold admits. -/
def writeLog (threshold : Threshold) (lines : List LogLine) : String :=
  String.join ((lines.filter fun line => threshold.admits line.level).map LogLine.write)

end PredicateLanguage.CommandLine
