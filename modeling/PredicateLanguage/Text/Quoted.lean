import PredicateLanguage.Text.Unprintable

/-!
# Quoted texts

How messages show a text that was given: between double quotes, with escapes for
quotes, backslashes and whatever would not be seen.
-/

namespace PredicateLanguage

/-- The hexadecimal digits of a number, in lower case and without leading zeros. -/
def hexDigits (n : Nat) : List Char :=
  Nat.toDigits 16 n

def escapedByNumber (c : Char) : List Char :=
  ['\\', 'u', '\x7b'] ++ hexDigits c.toNat ++ ['\x7d']

/-- How a character is shown inside quotes. -/
def shownInQuotes (c : Char) : List Char :=
  if c = '\x00' then ['\\', '0']
  else if c = '\t' then ['\\', 't']
  else if c = '\r' then ['\\', 'r']
  else if c = '\n' then ['\\', 'n']
  else if c = '"' ∨ c = '\\' then ['\\', c]
  else if isUnprintable c then escapedByNumber c
  else [c]

/-- A text as messages show it. -/
def showQuoted (text : String) : String :=
  String.ofList ('"' :: text.toList.flatMap shownInQuotes ++ ['"'])

end PredicateLanguage
