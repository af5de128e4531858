import PredicateLanguage.Predicate.StringSet

/-!
# Predicates

A predicate is a tree of comparisons between strings, joined by `not`, `and` and
`or`.  What is compared is a literal or the value of a variable.
-/

namespace PredicateLanguage

/-- What a comparison compares. -/
inductive Term where
  /-- A fixed string. -/
  | literal (value : String)
  /-- The string that the name stands for where the predicate is evaluated. -/
  | var (name : String)
  deriving DecidableEq

/-- A boolean expression over strings. -/
inductive Predicate where
  | equal (left right : Term)
  | notEqual (left right : Term)
  | oneOf (term : Term) (set : StringSet)
  | noneOf (term : Term) (set : StringSet)
  /-- The value of the term is not empty. -/
  | present (term : Term)
  | not (operand : Predicate)
  | and (left right : Predicate)
  | or (left right : Predicate)
  deriving DecidableEq

namespace Predicate

/-- Comparisons are the leaves of the logical structure. -/
def isComparison : Predicate → Bool
  | not _ | and _ _ | or _ _ => false
  | _ => true

/-- Joins one or more predicates to a chain that is grouped to the right. -/
def joinRight (join : Predicate → Predicate → Predicate) :
    Predicate × List Predicate → Predicate
  | (p, []) => p
  | (p, q :: qs) => join p (joinRight join (q, qs))

end Predicate

inductive NodeKind where
  | equal
  | notEqual
  | oneOf
  | noneOf
  | present
  | not
  | and
  | or
  deriving DecidableEq

def Predicate.kind : Predicate → NodeKind
  | equal _ _ => .equal
  | notEqual _ _ => .notEqual
  | oneOf _ _ => .oneOf
  | noneOf _ _ => .noneOf
  | present _ => .present
  | not _ => .not
  | and _ _ => .and
  | or _ _ => .or

namespace NodeKind

def all : List NodeKind :=
  [equal, notEqual, oneOf, noneOf, present, not, and, or]

/-- The tag that names a kind of node in data formats. -/
def tag : NodeKind → String
  | equal => "equal"
  | notEqual => "not_equal"
  | oneOf => "in"
  | noneOf => "not_in"
  | present => "truthy"
  | not => "not"
  | and => "and"
  | or => "or"

def ofTag? (tag : String) : Option NodeKind :=
  all.find? fun k => k.tag = tag

theorem ofTag?_tag (k : NodeKind) : ofTag? k.tag = some k := by
  cases k <;> decide

end NodeKind

end PredicateLanguage
