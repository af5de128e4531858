import PredicateLanguage.Evaluation.Environment

/-!
# Evaluation

A predicate is true or false in an environment.  Evaluation also tells which names
it looked up, in order: the right operand of `and` and `or` is left alone when the
left one decides.
-/

namespace PredicateLanguage

/-- The result of an evaluation and the names that were looked up for it. -/
structure Verdict where
  value : Bool
  lookups : List String
  deriving DecidableEq

/-- The names looked up for the value of a term. -/
def Term.lookups : Term → List String
  | literal _ => []
  | var name => [name]

namespace Predicate

/-- Evaluates a predicate, or its negation if `negated` is set.  Negations and the last
operands of chains only change the flag and go on; an operand before the last is
evaluated on its own. -/
def evaluateUnder (env : Environment) : Predicate → Bool → Verdict
  | equal left right, negated =>
    ⟨(left.resolve env == right.resolve env) != negated, left.lookups ++ right.lookups⟩
  | notEqual left right, negated =>
    ⟨(left.resolve env != right.resolve env) != negated, left.lookups ++ right.lookups⟩
  | oneOf term set, negated => ⟨decide (term.resolve env ∈ set) != negated, term.lookups⟩
  | noneOf term set, negated => ⟨decide (term.resolve env ∉ set) != negated, term.lookups⟩
  | present term, negated => ⟨!(term.resolve env).isEmpty != negated, term.lookups⟩
  | not operand, negated => operand.evaluateUnder env !negated
  | and left right, negated =>
    let l := left.evaluateUnder env false
    if l.value then
      let r := right.evaluateUnder env negated
      ⟨r.value, l.lookups ++ r.lookups⟩
    else
      ⟨false != negated, l.lookups⟩
  | or left right, negated =>
    let l := left.evaluateUnder env false
    if l.value then
      ⟨true != negated, l.lookups⟩
    else
      let r := right.evaluateUnder env negated
      ⟨r.value, l.lookups ++ r.lookups⟩

def evaluate (env : Environment) (p : Predicate) : Verdict :=
  p.evaluateUnder env false

end Predicate

end PredicateLanguage
