import PredicateLanguage.Proofs.Semantics

/-!
# Chains that are grouped in another way

How a chain of `and` or of `or` is grouped and whether a negation is doubled makes no difference
to evaluation.  It reaches the operands in the same order and stops at the same one, although a
chain that is grouped to the left is walked in another way than one that is grouped to the right.
The rewriting may take place anywhere in a tree and any number of times, in both directions.
-/

namespace PredicateLanguage

/-- The least congruence in which chains may be grouped in another way and two negations in a row
may be dropped. -/
inductive Regroups : Predicate → Predicate → Prop
  | and_assoc (p q r : Predicate) : Regroups (.and (.and p q) r) (.and p (.and q r))
  | or_assoc (p q r : Predicate) : Regroups (.or (.or p q) r) (.or p (.or q r))
  | not_not (p : Predicate) : Regroups (.not (.not p)) p
  | refl (p : Predicate) : Regroups p p
  | symm {p q : Predicate} (h : Regroups p q) : Regroups q p
  | trans {p q r : Predicate} (h : Regroups p q) (h' : Regroups q r) : Regroups p r
  | not {p q : Predicate} (h : Regroups p q) : Regroups (.not p) (.not q)
  | and {p p' q q' : Predicate} (left : Regroups p p') (right : Regroups q q') :
      Regroups (.and p q) (.and p' q')
  | or {p p' q q' : Predicate} (left : Regroups p p') (right : Regroups q q') :
      Regroups (.or p q) (.or p' q')

namespace Regroups

variable {p q : Predicate}

theorem holds_eq (h : Regroups p q) (env : Environment) : p.holds env = q.holds env := by
  induction h with
  | and_assoc p q r => exact Bool.and_assoc _ _ _
  | or_assoc p q r => exact Bool.or_assoc _ _ _
  | not_not p => exact Bool.not_not _
  | refl p => rfl
  | symm _ ih => exact ih.symm
  | trans _ _ ih ih' => exact ih.trans ih'
  | not _ ih => rw [Predicate.holds, Predicate.holds, ih]
  | and _ _ ihl ihr => rw [Predicate.holds, Predicate.holds, ihl, ihr]
  | or _ _ ihl ihr => rw [Predicate.holds, Predicate.holds, ihl, ihr]

/-- The last operand is asked if those in front of it let it be, however they are grouped. -/
theorem consulted_eq (h : Regroups p q) (env : Environment) :
    p.consulted env = q.consulted env := by
  induction h with
  | and_assoc p q r =>
      simp only [Predicate.consulted, Predicate.holds]
      by_cases hp : p.holds env = true
      · simp [hp]
      · simp [hp]
  | or_assoc p q r =>
      simp only [Predicate.consulted, Predicate.holds]
      by_cases hp : p.holds env = true
      · simp [hp]
      · simp [hp]
  | not_not p => rfl
  | refl p => rfl
  | symm _ ih => exact ih.symm
  | trans _ _ ih ih' => exact ih.trans ih'
  | not _ ih => exact ih
  | and hleft _ ihl ihr =>
      rw [Predicate.consulted, Predicate.consulted, ihl, ihr, hleft.holds_eq env]
  | or hleft _ ihl ihr =>
      rw [Predicate.consulted, Predicate.consulted, ihl, ihr, hleft.holds_eq env]

end Regroups

/-- Predicates that differ in grouping and in double negations only have the same value in every
environment, and the same names are looked up for it in the same order. -/
theorem Predicate.evaluate_eq_of_regroups {p q : Predicate} (h : Regroups p q)
    (env : Environment) : p.evaluate env = q.evaluate env := by
  rw [evaluate, evaluate, evaluateUnder_eq, evaluateUnder_eq, h.holds_eq env, h.consulted_eq env]

/-- A chain of `and` under three negations is walked to its last operand, which then decides the
chain of `or` around it, whichever way the two are grouped. -/
theorem Predicate.evaluate_eq_of_regroups_nested :
    let a := present (.var "a")
    let b := present (.var "b")
    let c := present (.var "c")
    let d := equal (.var "d") (.literal "x")
    let p := or (or (not (not (not (and (and a b) c)))) c) d
    let q := or (not (and a (and b c))) (or c (not (not d)))
    let env := (Bindings.ofList [("a", "1"), ("b", "1"), ("c", ""), ("d", "x")]).lookup
    Regroups p q ∧ p.evaluate env = q.evaluate env ∧ q.evaluate env = ⟨true, ["a", "b", "c"]⟩ := by
  intro a b c d p q env
  have hleft : Regroups (not (not (not (and (and a b) c)))) (not (and a (and b c))) :=
    (Regroups.not_not _).trans (.not (.and_assoc a b c))
  have hright : Regroups (or c d) (or c (not (not d))) := .or (.refl c) (.symm (.not_not d))
  have h : Regroups p q := (Regroups.or_assoc _ c d).trans (.or hleft hright)
  exact ⟨h, evaluate_eq_of_regroups h env, by decide⟩

end PredicateLanguage
