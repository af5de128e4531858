import PredicateLanguage.Evaluation.Verdict

/-!
# The meaning of predicates

What a predicate says about an environment is defined here by plain recursion on the tree,
and so is the sequence of names that decide it.  Evaluation walks along negations and the last
operands of chains with one flag for all of them.  It is shown to agree with the recursion in
both respects, for every tree.
-/

namespace PredicateLanguage

namespace Term

/-- What a term stands for: a literal for its own text, a variable for the string that its name is
given, and for the empty string if it is given none. -/
def meaning (env : Environment) : Term → String
  | literal value => value
  | var name => (env name).getD ""

/-- The names that a term asks for: a literal asks for nothing, a variable for its name. -/
def asked : Term → List String
  | literal _ => []
  | var name => [name]

theorem resolve_eq_meaning (t : Term) (env : Environment) : t.resolve env = t.meaning env := by
  cases t with
  | literal value => rfl
  | var name => rfl

theorem meaning_bne_empty (t : Term) (env : Environment) :
    (t.meaning env != "") = !(t.meaning env).isEmpty := by
  rw [Bool.eq_iff_iff]
  simp

theorem lookups_eq_asked (t : Term) : t.lookups = t.asked := by
  cases t with
  | literal value => rfl
  | var name => rfl

end Term

namespace Predicate

/-- Whether a predicate is true in an environment. -/
def holds (env : Environment) : Predicate → Bool
  | equal left right => left.meaning env == right.meaning env
  | notEqual left right => left.meaning env != right.meaning env
  | oneOf term set => decide (term.meaning env ∈ set)
  | noneOf term set => decide (term.meaning env ∉ set)
  | present term => term.meaning env != ""
  | not operand => !operand.holds env
  | and left right => left.holds env && right.holds env
  | or left right => left.holds env || right.holds env

/-- The names that decide a predicate, from left to right.  A right operand is asked only
if the left one has not decided. -/
def consulted (env : Environment) : Predicate → List String
  | equal left right | notEqual left right => left.asked ++ right.asked
  | oneOf term _ | noneOf term _ | present term => term.asked
  | not operand => operand.consulted env
  | and left right =>
    left.consulted env ++ if left.holds env then right.consulted env else []
  | or left right =>
    left.consulted env ++ if left.holds env then [] else right.consulted env

variable {env : Environment}

/-- At every node and under either flag, what is left of the walk adds the names that decide
the node and flips its value if the flag is set. -/
theorem evaluateUnder_eq (p : Predicate) (negated : Bool) :
    p.evaluateUnder env negated = ⟨p.holds env != negated, p.consulted env⟩ := by
  induction p generalizing negated with
  | equal left right | notEqual left right =>
      rw [evaluateUnder, left.resolve_eq_meaning, right.resolve_eq_meaning, left.lookups_eq_asked,
        right.lookups_eq_asked, holds, consulted]
  | oneOf term set | noneOf term set =>
      rw [evaluateUnder, term.lookups_eq_asked, holds, consulted]
      simp only [term.resolve_eq_meaning]
  | present term =>
      rw [evaluateUnder, term.resolve_eq_meaning, term.lookups_eq_asked, holds, consulted,
        term.meaning_bne_empty, Bool.not_bne]
  | not operand ih =>
      rw [evaluateUnder, ih, holds, consulted]
      simp
  | and left right ihl ihr =>
      rw [evaluateUnder, ihl false, holds, consulted]
      cases hleft : left.holds env with
      | false => simp
      | true => simp [ihr negated]
  | or left right ihl ihr =>
      rw [evaluateUnder, ihl false, holds, consulted]
      cases hleft : left.holds env with
      | false => simp [ihr negated]
      | true => simp

/-- Evaluation gives the value of the recursion and looks up the names that decide it, in
the same order. -/
theorem evaluate_eq_holds_consulted (p : Predicate) (env : Environment) :
    p.evaluate env = ⟨p.holds env, p.consulted env⟩ := by
  rw [evaluate, evaluateUnder_eq]
  simp

end Predicate

end PredicateLanguage
