import PredicateLanguage.Predicate.Basic

/-!
# Traversals

A traversal collects events from a tree, the parts from left to right.  It decides
at each node what becomes of the events from below, at each term and each set what
is added.
-/

namespace PredicateLanguage

/-- What is collected at each part of a tree; by default nothing but what is collected
below. -/
structure Traversal (ε : Type) where
  /-- The events of a node, given those from below it. -/
  node : Predicate → List ε → List ε := fun _ below => below
  term : Term → List ε := fun _ => []
  set : StringSet → List ε := fun _ => []

namespace Traversal

/-- The events from below a node. -/
def walk (t : Traversal ε) : Predicate → List ε
  | .equal left right | .notEqual left right => t.term left ++ t.term right
  | .oneOf term set | .noneOf term set => t.term term ++ t.set set
  | .present term => t.term term
  | .not operand => t.node operand (t.walk operand)
  | .and left right | .or left right =>
    t.node left (t.walk left) ++ t.node right (t.walk right)

def visit (t : Traversal ε) (p : Predicate) : List ε :=
  t.node p (t.walk p)

theorem walk_not (t : Traversal ε) (p : Predicate) : t.walk (.not p) = t.visit p := rfl

theorem walk_and (t : Traversal ε) (p q : Predicate) :
    t.walk (.and p q) = t.visit p ++ t.visit q := rfl

theorem walk_or (t : Traversal ε) (p q : Predicate) :
    t.walk (.or p q) = t.visit p ++ t.visit q := rfl

end Traversal

/-- What can be told of a tree while it is traversed. -/
inductive Event where
  | enter (kind : NodeKind) (comparison : Bool)
  | leave (kind : NodeKind)
  | term (term : Term)
  | set (set : StringSet)
  deriving DecidableEq

namespace Traversal

/-- Tells of every node, before and after what is below it, of every term and every set. -/
def full : Traversal Event where
  node p below := .enter p.kind p.isComparison :: below ++ [.leave p.kind]
  term t := [.term t]
  set s := [.set s]

/-- Tells of terms and sets only. -/
def leaves : Traversal Event where
  term t := [.term t]
  set s := [.set s]

/-- Tells of every node that is not below a negation. -/
def outsideNegations : Traversal Event where
  node p below := .enter p.kind p.isComparison :: if p.kind = .not then [] else below

def names : Traversal String where
  term
    | .literal _ => []
    | .var name => [name]

end Traversal

def Predicate.variables (p : Predicate) : StringSet :=
  .ofList (Traversal.names.visit p)

end PredicateLanguage
