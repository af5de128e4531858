import PredicateLanguage.Predicate.Basic
import PredicateLanguage.Text.Writer

/-!
# Canonical text

The text of a predicate, with parentheses only where reading it back would
otherwise build another tree.  Sets are listed in order, literals are quoted.
-/

namespace PredicateLanguage

/-- Writes a literal between quotes; nothing in it is escaped. -/
def writeQuoted (value : String) : Writer :=
  .between '\x27' '\x27' (.text value)

def Term.write : Term → Writer
  | literal value => writeQuoted value
  | var name => .text name

def StringSet.write (set : StringSet) : Writer :=
  .between '\x7b' '\x7d' (.joined ", " (set.members.map writeQuoted))

/-- Writes something in parentheses if it has to be grouped. -/
def groupedIf (grouped : Bool) (w : Writer) : Writer :=
  if grouped then .between '(' ')' w else w

namespace Predicate

/-- `not` binds tighter than every joined operand, and a second `not` right behind it
would cancel it. -/
def groupedUnderNot (p : Predicate) : Bool :=
  !p.isComparison

/-- Left of `and`, an `and` would be grouped to the right and an `or` torn apart. -/
def groupedLeftOfAnd : Predicate → Bool
  | and _ _ | or _ _ => true
  | _ => false

/-- Right of `and` and left of `or`, only an `or` has to be held together. -/
def isOr : Predicate → Bool
  | or _ _ => true
  | _ => false

def write : Predicate → Writer
  | equal left right => left.write ++ .text " == " ++ right.write
  | notEqual left right => left.write ++ .text " != " ++ right.write
  | oneOf term set => term.write ++ .text " in " ++ set.write
  | noneOf term set => term.write ++ .text " not in " ++ set.write
  | present term => term.write
  | not operand => .text "not " ++ groupedIf operand.groupedUnderNot operand.write
  | and left right =>
    groupedIf left.groupedLeftOfAnd left.write ++ .text " and " ++
      groupedIf right.isOr right.write
  | or left right => groupedIf left.isOr left.write ++ .text " or " ++ right.write

def canonical (p : Predicate) : String :=
  p.write.string

end Predicate

def Term.canonical (term : Term) : String :=
  term.write.string

end PredicateLanguage
