import PredicateLanguage.Evaluation.Verdict

/-!
# Counting lookups

A probe stands for an environment and counts how often it is asked for a name.  An
evaluation is handed a probe in place of the environment and hands it on from one
lookup to the next.
-/

namespace PredicateLanguage

/-- An environment and the number of times it was asked for a name. -/
structure Probe where
  env : Environment
  count : Nat := 0

namespace Probe

/-- A probe of an environment that it has not been asked for anything yet. -/
def new (env : Environment) : Probe :=
  { env }

def lookup (probe : Probe) (name : String) : Option String × Probe :=
  (probe.env name, { probe with count := probe.count + 1 })

def reset (probe : Probe) : Probe :=
  { probe with count := 0 }

/-- The string that a term stands for where names are looked up by a probe. -/
def resolve : Term → StateM Probe String
  | .literal value => return value
  | .var name => return ((← fun probe => probe.lookup name).getD "")

/-- Evaluates a predicate, or its negation if `negated` is set, where names are looked up
by a probe. -/
def evaluateUnder : Predicate → Bool → StateM Probe Bool
  | .equal left right, negated => return ((← resolve left) == (← resolve right)) != negated
  | .notEqual left right, negated => return ((← resolve left) != (← resolve right)) != negated
  | .oneOf term set, negated => return decide ((← resolve term) ∈ set) != negated
  | .noneOf term set, negated => return decide ((← resolve term) ∉ set) != negated
  | .present term, negated => return !(← resolve term).isEmpty != negated
  | .not operand, negated => evaluateUnder operand !negated
  | .and left right, negated => do
    if ← evaluateUnder left false then
      evaluateUnder right negated
    else
      return false != negated
  | .or left right, negated => do
    if ← evaluateUnder left false then
      return true != negated
    else
      evaluateUnder right negated

/-- Evaluates a predicate; every name it looks up is counted. -/
def evaluate (probe : Probe) (p : Predicate) : Bool × Probe :=
  (evaluateUnder p false).run probe

end Probe

end PredicateLanguage
