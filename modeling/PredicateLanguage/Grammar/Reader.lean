import PredicateLanguage.Grammar.Expression
import PredicateLanguage.Grammar.SyntaxError

/-!
# Reading a source text

A reader stands in a source text and reads from it with rules, one after the other.
A rule that fails leaves it where it was.  It remembers the furthest place at which
any rule missed something and the deepest nesting that any rule asked for, which is
what errors are told from.
-/

namespace PredicateLanguage

/-- The nesting of parentheses that is allowed where nothing else is said. -/
def defaultLimit : Nat := 128

/-- A source text that is being read. -/
structure Reader where
  source : Cursor
  limit : Nat
  cursor : Cursor
  /-- The furthest place at which something was missing. -/
  furthest : Cursor
  /-- The deepest nesting that was asked for. -/
  levels : Nat
  source_le_cursor : source ≤ cursor
  source_le_furthest : source ≤ furthest

namespace Reader

def ofText (text : String) (limit : Nat := defaultLimit) : Reader where
  source := .start text.toList
  limit := limit
  cursor := .start text.toList
  furthest := .start text.toList
  levels := 0
  source_le_cursor := Cursor.le_refl _
  source_le_furthest := Cursor.le_refl _

/-- The distance in bytes of a place from the start of the text. -/
def offsetOf (r : Reader) (c : Cursor) : Nat :=
  r.source.left - c.left

def position (r : Reader) : Nat :=
  r.offsetOf r.cursor

/-- The offset of the furthest place at which something was missing. -/
def furthestOffset (r : Reader) : Nat :=
  r.offsetOf r.furthest

def text (r : Reader) : String :=
  String.ofList r.source.rest

def remaining (r : Reader) : String :=
  String.ofList r.cursor.rest

def atEnd (r : Reader) : Bool :=
  r.cursor.atEnd

/-- Goes on at a place of the text. -/
def moveTo (r : Reader) (c : Cursor) (h : r.source ≤ c) : Reader :=
  { r with cursor := c, source_le_cursor := h }

/-- Goes on at an offset, if a character starts there or the text ends there. -/
def moveToOffset? (r : Reader) (offset : Nat) : Option Reader :=
  match h : r.source.forward? offset with
  | some c => some (r.moveTo c (Cursor.le_of_forward? h))
  | none => none

def skipSpaces (r : Reader) : Reader :=
  r.moveTo r.cursor.skipSpaces (Cursor.le_trans r.source_le_cursor (Cursor.le_skipSpaces _))

/-- Reads with a rule, and stays where it is if the rule fails. -/
def read (rule : Rule α) (r : Reader) : Option α × Reader :=
  let a := rule.run r.cursor
  have ha : a.From r.source := (rule.run_from r.cursor).mono r.source_le_cursor
  (a.outcome.map Prod.fst,
    { r with
      cursor := a.cursorFrom r.cursor
      furthest := a.marks.furthestFrom r.furthest
      levels := max r.levels a.marks.levels
      source_le_cursor := ha.le_cursorFrom r.source_le_cursor
      source_le_furthest := ha.marks.le_furthestFrom r.source_le_furthest })

def readExpression (r : Reader) : Option Predicate × Reader :=
  r.read (Grammar.expression r.limit)

/-- Reads an expression that spans the whole text ahead, up to spaces.  Too deep a nesting
is reported before anything else that is wrong. -/
def readPredicate (r : Reader) : Except SyntaxError Predicate × Reader :=
  let (result, r) := r.readExpression
  if r.limit < r.levels then
    (.error (.tooDeep r.limit), r)
  else
    match result with
    | none => (.error (.unexpected r.furthestOffset (.ahead r.furthest)), r)
    | some p =>
      let r := r.skipSpaces
      if r.atEnd then
        (.ok p, r)
      else
        (.error (.trailing r.position (.ahead r.cursor)), r)

end Reader

/-- Reads the predicate that a text spells. -/
def Predicate.parse (text : String) (limit : Nat := defaultLimit) :
    Except SyntaxError Predicate :=
  (Reader.ofText text limit).readPredicate.1

end PredicateLanguage
