import PredicateLanguage.Text.Character

/-!
# Symbols of the language

The operators and punctuation of predicate texts.  Four of them are spelled as
words and are recognised only where no longer word stands.
-/

namespace PredicateLanguage

/-- An operator or a punctuation mark. -/
inductive Symbol where
  | and
  | or
  | not
  | member
  | equal
  | notEqual
  | comma
  | openParen
  | closeParen
  | openBrace
  | closeBrace
  deriving DecidableEq

namespace Symbol

/-- All symbols, keywords first. -/
def all : List Symbol :=
  [and, or, not, member, equal, notEqual, comma, openParen, closeParen, openBrace, closeBrace]

theorem mem_all (s : Symbol) : s ∈ all := by
  cases s <;> decide

def text : Symbol → String
  | and => "and"
  | or => "or"
  | not => "not"
  | member => "in"
  | equal => "=="
  | notEqual => "!="
  | comma => ","
  | openParen => "("
  | closeParen => ")"
  | openBrace => "\x7b"
  | closeBrace => "\x7d"

def ofText? (text : String) : Option Symbol :=
  all.find? fun s => s.text = text

/-- The symbols spelled as words. -/
def isKeyword : Symbol → Bool
  | and | or | not | member => true
  | _ => false

theorem text_injective {s t : Symbol} (h : s.text = t.text) : s = t := by
  revert h
  cases s <;> cases t <;> decide

/-- A text starts with a symbol if it starts with its spelling and, for a keyword,
no word character follows. -/
def opens (s : Symbol) (text : List Char) : Bool :=
  s.text.toList.isPrefixOf text &&
    !(s.isKeyword && (text.drop s.text.toList.length).head?.any isWord)

end Symbol

end PredicateLanguage
