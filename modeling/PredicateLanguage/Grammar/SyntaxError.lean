import PredicateLanguage.Text.Cursor

/-!
# Syntax errors

Why a text is no predicate, and how that is said.  Offsets count bytes from the
start of the text.
-/

namespace PredicateLanguage

/-- What stands at the place of an error. -/
inductive Found where
  | endOfInput
  /-- The first characters that follow. -/
  | input (start : String)
  deriving DecidableEq

namespace Found

/-- The number of characters shown of what follows an error. -/
def shown : Nat := 16

def ahead (c : Cursor) : Found :=
  if c.atEnd then .endOfInput else .input (String.ofList (c.rest.take shown))

/-- How a message speaks of what stands at an error. -/
def describe : Found → String
  | endOfInput => "end of input"
  | input start => "input '" ++ start ++ "'"

end Found

/-- Why a text is no predicate. -/
inductive SyntaxError where
  /-- No expression can be read; at the offset something else was expected. -/
  | unexpected (offset : Nat) (found : Found)
  /-- Behind the expression there is more text. -/
  | trailing (offset : Nat) (found : Found)
  /-- Parentheses nest deeper than the limit. -/
  | tooDeep (limit : Nat)
  deriving DecidableEq

namespace SyntaxError

/-- The place an error points at, if it points at one. -/
def offset? : SyntaxError → Option Nat
  | unexpected offset _ | trailing offset _ => some offset
  | tooDeep _ => none

def message : SyntaxError → String
  | unexpected offset found => "Unexpected " ++ found.describe ++ " at offset " ++ offset.repr
  | trailing offset found =>
    "Unexpected trailing " ++ found.describe ++ " at offset " ++ offset.repr
  | tooDeep limit => "Parentheses nested deeper than " ++ limit.repr ++ " levels"

end SyntaxError

end PredicateLanguage
