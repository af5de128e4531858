import PredicateLanguage.Predicate.Traversal
import PredicateLanguage.Proofs.Semantics

/-!
# What an evaluation depends on

An evaluation reads the names that it looks up and nothing else, and a name that is bound to
nothing reads as one that is bound to the empty string.  Two environments that read the same at
the names which one evaluation looks up make no difference to it, neither in its value nor in
what it looks up.  The names that can be looked up at all are those of the variables.
-/

namespace PredicateLanguage

variable {env other : Environment} {name : String}

/-! ## Terms -/

/-- A term stands for the same string where its names read the same. -/
theorem Term.meaning_congr {t : Term} (h : ∀ name ∈ t.asked, env.read name = other.read name) :
    t.meaning other = t.meaning env := by
  cases t with
  | literal value => rfl
  | var name => exact (h name List.mem_cons_self).symm

theorem Term.asked_eq_names (t : Term) : t.asked = Traversal.names.term t := by
  cases t with
  | literal value => rfl
  | var name => rfl

/-! ## Predicates -/

namespace Predicate

/-- Environments that read the same at the names which decide a predicate in one of them agree
on the predicate, and the same names decide it in the other. -/
theorem holds_and_consulted_congr {p : Predicate}
    (h : ∀ name ∈ p.consulted env, env.read name = other.read name) :
    p.holds other = p.holds env ∧ p.consulted other = p.consulted env := by
  induction p with
  | equal left right | notEqual left right =>
      have hleft := Term.meaning_congr fun name hname => h name (List.mem_append_left _ hname)
      have hright := Term.meaning_congr fun name hname => h name (List.mem_append_right _ hname)
      exact ⟨by rw [holds, holds, hleft, hright], rfl⟩
  | oneOf term set | noneOf term set | present term =>
      exact ⟨by rw [holds, holds, Term.meaning_congr h], rfl⟩
  | not operand ih =>
      obtain ⟨hvalue, hnames⟩ := ih h
      exact ⟨by rw [holds, holds, hvalue], hnames⟩
  | and left right ihl ihr =>
      obtain ⟨hvalue, hnames⟩ := ihl fun name hname => h name (List.mem_append_left _ hname)
      rw [holds, holds, consulted, consulted, hvalue, hnames]
      cases hleft : left.holds env with
      | false => exact ⟨rfl, rfl⟩
      | true =>
          -- The right operand is decided in the same way only because the left one let it be.
          have hright : ∀ name ∈ right.consulted env, env.read name = other.read name := by
            intro name hname
            refine h name (List.mem_append_right _ ?_)
            rwa [if_pos hleft]
          obtain ⟨hvalue', hnames'⟩ := ihr hright
          rw [hvalue', hnames']
          exact ⟨rfl, rfl⟩
  | or left right ihl ihr =>
      obtain ⟨hvalue, hnames⟩ := ihl fun name hname => h name (List.mem_append_left _ hname)
      rw [holds, holds, consulted, consulted, hvalue, hnames]
      cases hleft : left.holds env with
      | true => exact ⟨rfl, rfl⟩
      | false =>
          have hright : ∀ name ∈ right.consulted env, env.read name = other.read name := by
            intro name hname
            refine h name (List.mem_append_right _ ?_)
            rwa [if_neg (by rw [hleft]; exact Bool.false_ne_true)]
          obtain ⟨hvalue', hnames'⟩ := ihr hright
          rw [hvalue', hnames']
          exact ⟨rfl, rfl⟩

/-- The names that decide a predicate stand in the order of its variables. -/
theorem consulted_sublist_names (p : Predicate) (env : Environment) :
    (p.consulted env).Sublist (Traversal.names.visit p) := by
  induction p with
  | equal left right | notEqual left right =>
      rw [consulted, left.asked_eq_names, right.asked_eq_names]
      exact List.Sublist.refl _
  | oneOf term set | noneOf term set =>
      rw [consulted, term.asked_eq_names]
      exact List.sublist_append_left _ _
  | present term =>
      rw [consulted, term.asked_eq_names]
      exact List.Sublist.refl _
  | not operand ih => exact ih
  | and left right ihl ihr =>
      have hright : (if left.holds env then right.consulted env else []).Sublist
          (Traversal.names.visit right) := by
        split
        · exact ihr
        · exact List.nil_sublist _
      exact ihl.append hright
  | or left right ihl ihr =>
      have hright : (if left.holds env then [] else right.consulted env).Sublist
          (Traversal.names.visit right) := by
        split
        · exact List.nil_sublist _
        · exact ihr
      exact ihl.append hright

theorem mem_variables_of_mem_consulted {p : Predicate} (h : name ∈ p.consulted env) :
    name ∈ p.variables :=
  StringSet.mem_ofList.mpr ((p.consulted_sublist_names env).subset h)

theorem evaluate_congr {p : Predicate}
    (h : ∀ name ∈ p.consulted env, env.read name = other.read name) :
    p.evaluate other = p.evaluate env := by
  obtain ⟨hvalue, hnames⟩ := holds_and_consulted_congr h
  rw [evaluate, evaluate, evaluateUnder_eq, evaluateUnder_eq, hvalue, hnames]

end Predicate

/-- A name that is bound to nothing reads as one that is bound to the empty string. -/
theorem Environment.read_eq_of_empty
    (h : env name = other name ∨ (env name = none ∧ other name = some "") ∨
      (env name = some "" ∧ other name = none)) :
    env.read name = other.read name := by
  rcases h with h | ⟨hnone, hempty⟩ | ⟨hempty, hnone⟩
  · rw [read, read, h]
  · rw [read, read, hnone, hempty]
    rfl
  · rw [read, read, hempty, hnone]
    rfl

namespace Predicate

/-- If an environment reads as another one does at the names that are looked up in the other,
evaluation gives the same value and looks up the same names.  So bindings of names that are no
variables of the predicate make no difference, and neither do bindings to the empty string. -/
theorem evaluate_eq_of_reads (p : Predicate) (env other : Environment) :
    ((∀ name ∈ (p.evaluate env).lookups, env.read name = other.read name) →
      p.evaluate other = p.evaluate env) ∧
    ((∀ name ∈ p.variables, env name = other name) → p.evaluate other = p.evaluate env) ∧
    ((∀ name, env name = other name ∨ (env name = none ∧ other name = some "") ∨
        (env name = some "" ∧ other name = none)) →
      p.evaluate other = p.evaluate env) := by
  have hlookups : (p.evaluate env).lookups = p.consulted env := by
    rw [evaluate, evaluateUnder_eq]
  refine ⟨?_, ?_, ?_⟩
  · intro h
    exact evaluate_congr (hlookups ▸ h)
  · intro h
    refine evaluate_congr fun name hname => ?_
    rw [Environment.read, Environment.read, h name (mem_variables_of_mem_consulted hname)]
  · intro h
    exact evaluate_congr fun name _ => Environment.read_eq_of_empty (h name)

/-- Of `a or b and c`, only `a` is looked up where it is not empty, `d` is no variable, and where
`a` is empty it need not be bound. -/
theorem evaluate_eq_of_reads_or :
    let p := or (present (.var "a")) (and (present (.var "b")) (equal (.var "c") (.literal "z")))
    let env := (Bindings.ofList [("a", "x"), ("b", "y")]).lookup
    p.evaluate env = ⟨true, ["a"]⟩ ∧
      p.evaluate (Bindings.ofList [("a", "x"), ("c", "z")]).lookup = p.evaluate env ∧
      p.evaluate (Bindings.ofList [("a", "x"), ("b", "y"), ("d", "w")]).lookup = p.evaluate env ∧
      p.evaluate (Bindings.ofList [("a", "")]).lookup = p.evaluate (∅ : Bindings).lookup := by
  refine ⟨by decide, ?_, ?_, ?_⟩
  · exact (evaluate_eq_of_reads _ _ _).1 (by decide)
  · refine (evaluate_eq_of_reads _ _ _).2.1 ?_
    change ∀ name ∈ ["a", "b", "c"], _
    decide
  · refine (evaluate_eq_of_reads _ _ _).2.2 fun name => ?_
    rw [Bindings.ofList, Bindings.bindAll, List.foldl_cons, List.foldl_nil, Bindings.lookup_bind]
    by_cases hname : name = "a"
    · exact Or.inr (Or.inl ⟨rfl, if_pos hname⟩)
    · exact Or.inl (if_neg hname).symm

end Predicate

end PredicateLanguage
