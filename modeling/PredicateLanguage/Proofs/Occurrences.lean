import PredicateLanguage.Proofs.Dependence
import PredicateLanguage.Proofs.Traversals

/-!
# Occurrences of variables

The names that a traversal tells of as variables are the only ones that an evaluation looks up.
It looks them up in the order in which they are visited.  Operands that it skips leave gaps, but
nothing is looked up in another order or more often than it occurs.
-/

namespace PredicateLanguage.Predicate

variable {p : Predicate} {name : String}

/-- The names of the variables that a predicate is made of, as often as they occur and in the
order in which they are visited. -/
def occurrences (p : Predicate) : List String :=
  (Traversal.full.visit p).filterMap Event.name?

theorem visit_names (p : Predicate) : Traversal.names.visit p = p.occurrences :=
  (Traversal.toldBy_names.visit p).symm

theorem mem_occurrences_iff :
    name ∈ p.occurrences ↔ Event.term (.var name) ∈ Traversal.full.visit p := by
  rw [occurrences, List.mem_filterMap]
  constructor
  · rintro ⟨event, hevent, hname⟩
    cases event with
    | term x =>
        cases x with
        | literal value => contradiction
        | var other =>
            obtain rfl : other = name := Option.some.inj hname
            exact hevent
    | enter | leave | set => contradiction
  · intro h
    exact ⟨_, h, rfl⟩

theorem mem_variables_iff : name ∈ p.variables ↔ name ∈ p.occurrences := by
  rw [Predicate.variables, visit_names, StringSet.mem_ofList]

theorem lookups_sublist_occurrences (p : Predicate) (env : Environment) :
    (p.evaluate env).lookups.Sublist p.occurrences := by
  rw [evaluate, evaluateUnder_eq, ← visit_names]
  exact p.consulted_sublist_names env

/-- An evaluation looks up occurrences of variables, each of them once at most and in the order in
which they are visited.  The variables of a predicate are the names that occur as variables, in
increasing order. -/
theorem lookups_and_variables_occur (p : Predicate) (env : Environment) :
    (p.evaluate env).lookups.Sublist p.occurrences ∧
      (∀ name, (p.evaluate env).lookups.count name ≤ p.occurrences.count name) ∧
      (p.evaluate env).lookups.length ≤ p.occurrences.length ∧
      p.variables.members.Pairwise (· < ·) ∧
      ∀ name, name ∈ p.variables.members ↔ Event.term (.var name) ∈ Traversal.full.visit p := by
  have hlookups := p.lookups_sublist_occurrences env
  refine ⟨hlookups, fun name => hlookups.count_le name, hlookups.length_le,
    p.variables.increasing, fun name => ?_⟩
  rw [← mem_occurrences_iff, ← mem_variables_iff, StringSet.mem_def]

/-- The second operand of `or` is skipped, and a member of a set is no variable. -/
example :
    let p := or (and (present (.var "a")) (oneOf (.var "b") (.ofList ["c"])))
      (equal (.var "b") (.literal "d"))
    p.occurrences = ["a", "b", "b"] ∧ p.variables.members = ["a", "b"] ∧
      (p.evaluate (Bindings.ofList [("a", "x"), ("b", "c")]).lookup).lookups = ["a", "b"] := by
  decide

end PredicateLanguage.Predicate
