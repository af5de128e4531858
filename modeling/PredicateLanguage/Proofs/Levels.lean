import PredicateLanguage.Proofs.Chains

/-!
# Levels that a match asks for

Every group that is opened asks for one level more than what is inside it.  The main
statement is that an expression which matches has asked for no more levels than it was
allowed: a group that is refused makes everything around it fail.  So whoever sees a match
need not ask whether the limit was passed.
-/

namespace PredicateLanguage

variable {α β : Type}

namespace Rule

/-- The rule opens no group. -/
def Flat (r : Rule α) : Prop :=
  ∀ c, r.levelsAt c = 0

/-- Where the rule matches, it asks for at most `limit` levels. -/
def Within (limit : Nat) (r : Rule α) : Prop :=
  ∀ c x d, r.Matches c x d → r.levelsAt c ≤ limit

theorem Flat.pure (x : α) : (pure x : Rule α).Flat :=
  levelsAt_pure x

theorem Flat.failure : (failure : Rule α).Flat :=
  levelsAt_failure

theorem Flat.bind {r : Rule α} {next : α → Rule β} (hr : r.Flat)
    (hnext : ∀ x, (next x).Flat) : (r >>= next).Flat := by
  intro c
  rcases r.matches_or_fails c with ⟨x, d, hm⟩ | hf
  · rw [levelsAt_bind_of_matches hm, hr c, hnext x d, Nat.max_self]
  · rw [levelsAt_bind_of_fails hf, hr c]

theorem Flat.map {r : Rule α} (f : α → β) (hr : r.Flat) : (f <$> r).Flat := by
  intro c
  rw [levelsAt_map, hr c]

theorem Flat.orElse {r s : Rule α} (hr : r.Flat) (hs : s.Flat) : (r <|> s).Flat := by
  intro c
  rcases r.matches_or_fails c with ⟨x, d, hm⟩ | hf
  · rw [levelsAt_orElse_of_matches hm, hr c]
  · rw [levelsAt_orElse_of_fails hf, hr c, hs c, Nat.max_self]

theorem Flat.within {r : Rule α} (hr : r.Flat) (limit : Nat) : r.Within limit := by
  intro c x d _
  rw [hr c]
  exact Nat.zero_le limit

theorem Within.bind {limit : Nat} {r : Rule α} {next : α → Rule β} (hr : r.Within limit)
    (hnext : ∀ x, (next x).Within limit) : (r >>= next).Within limit := by
  intro c y e h
  obtain ⟨x, d, hx, hy⟩ := matches_bind.mp h
  rw [levelsAt_bind_of_matches hx]
  exact Nat.max_le.mpr ⟨hr c x d hx, hnext x d y e hy⟩

/-- Where a rule that opens no group fails, what is tried instead counts alone. -/
theorem Within.orElse {limit : Nat} {r s : Rule α} (hr : r.Flat) (hs : s.Within limit) :
    (r <|> s).Within limit := by
  intro c x d h
  rcases matches_orElse.mp h with hm | ⟨hf, hm⟩
  · rw [levelsAt_orElse_of_matches hm, hr c]
    exact Nat.zero_le limit
  · rw [levelsAt_orElse_of_fails hf, hr c, Nat.zero_max]
    exact hs c x d hm

theorem Within.deeper {limit : Nat} {r : Rule α} (hr : r.Within limit) :
    r.deeper.Within (limit + 1) := by
  intro c x d h
  rw [levelsAt_deeper]
  exact Nat.succ_le_succ (hr c x d (matches_deeper.mp h))

theorem within_deeper_failure (limit : Nat) : (failure : Rule α).deeper.Within limit := by
  intro c x d h
  exact absurd (matches_deeper.mp h) not_matches_failure

end Rule

namespace Grammar

open Rule

/-! ## Rules without groups -/

theorem flat_eat (s : Symbol) : (eat s).Flat :=
  levelsAt_eat s

theorem flat_expect (s : Symbol) : (expect s).Flat := by
  rw [expect]
  refine (flat_eat s).bind fun found => ?_
  cases found with
  | false => exact Flat.failure
  | true => exact Flat.pure ()

theorem flat_eatAll (s : Symbol) : (eatAll s).Flat :=
  fun _ => rfl

theorem flat_identifier : identifier.Flat := by
  intro c
  simp only [levelsAt, identifier]
  split
  · rfl
  · rfl

theorem flat_literal : literal.Flat := by
  intro c
  simp only [levelsAt, literal]
  split
  · split
    · rfl
    · rfl
  · split
    · rfl
    · rfl

theorem flat_separated {s : Symbol} {item : Rule α} (hitem : item.Flat) :
    (separated s item).Flat := by
  intro c
  induction hn : c.left using Nat.strongRecOn generalizing c with
  | ind n ih =>
      rw [separated_eq]
      rcases item.matches_or_fails c with ⟨x, e, hx⟩ | hf
      · rw [levelsAt_bind_of_matches hx, hitem c, Nat.zero_max]
        cases hs : s.take? e with
        | none =>
            have heat : (eat s).Matches e false e := matches_eat.mpr (Or.inr ⟨rfl, rfl, hs⟩)
            rw [levelsAt_bind_of_matches heat, flat_eat s e]
            rfl
        | some e' =>
            have hnext : Next e s.token e' := Symbol.take?_eq_some_iff.mp hs
            have heat : (eat s).Matches e true e' := matches_eat.mpr (Or.inl ⟨rfl, hnext⟩)
            have hlt : e'.left < n := hn ▸ left_lt_of_item hx hnext
            rw [levelsAt_bind_of_matches heat, flat_eat s e, if_pos rfl, levelsAt_map,
              ih e'.left hlt e' rfl]
            rfl
      · rw [levelsAt_bind_of_fails hf, hitem c]

theorem flat_term : term.Flat :=
  (flat_identifier.map Term.var).orElse (flat_literal.map Term.literal)

theorem flat_setMembers : setMembers.Flat :=
  ((flat_separated flat_literal).map _).orElse (Flat.pure [])

theorem flat_set : set.Flat := by
  rw [set]
  refine (flat_expect _).bind fun _ => flat_setMembers.bind fun members => ?_
  exact (flat_expect _).bind fun _ => Flat.pure _

theorem flat_comparison : comparison.Flat := by
  rw [comparison]
  refine flat_term.bind fun left => (flat_eat _).bind fun isEqual => ?_
  cases isEqual with
  | true => exact flat_term.bind fun right => Flat.pure _
  | false =>
  refine (flat_eat _).bind fun isNotEqual => ?_
  cases isNotEqual with
  | true => exact flat_term.bind fun right => Flat.pure _
  | false =>
  refine (flat_eat _).bind fun isMember => ?_
  cases isMember with
  | true => exact flat_set.bind fun members => Flat.pure _
  | false =>
  refine (flat_eat _).bind fun isNot => ?_
  cases isNot with
  | true => exact (flat_expect _).bind fun _ => flat_set.bind fun members => Flat.pure _
  | false => exact Flat.pure _

/-! ## Rules with groups -/

variable {limit : Nat}

theorem within_group {inner : Rule Predicate} (h : inner.deeper.Within limit) :
    (group inner).Within limit := by
  rw [group]
  refine Within.bind ((flat_expect _).within limit) fun _ => Within.bind h fun p => ?_
  exact Within.bind ((flat_expect _).within limit) fun _ => (Flat.pure p).within limit

theorem within_negation {inner : Rule Predicate} (h : inner.deeper.Within limit) :
    (negation inner).Within limit := by
  rw [negation]
  refine Within.bind ((flat_eatAll _).within limit) fun nots => ?_
  refine Within.bind (Within.orElse flat_comparison (within_group h)) fun p => ?_
  exact (Flat.pure _).within limit

theorem within_chain {operator : Symbol} {join : Predicate → Predicate → Predicate}
    {operand : Rule Predicate} (h : operand.Within limit) :
    (chain operator join operand).Within limit := by
  intro c p d hm
  induction hm using chain_induction with
  | single hp hend =>
      rw [levelsAt_chain_of_end hp hend]
      exact h _ _ _ hp
  | joined hfirst hnext _ ih =>
      rw [levelsAt_chain_of_next hfirst hnext]
      exact Nat.max_le.mpr ⟨h _ _ _ hfirst, ih⟩

theorem within_disjunction {inner : Rule Predicate} (h : inner.deeper.Within limit) :
    (disjunction inner).Within limit :=
  within_chain (within_chain (within_negation h))

/-- An expression that matches keeps to its limit. -/
theorem within_expression (limit : Nat) : (expression limit).Within limit := by
  induction limit with
  | zero => exact within_disjunction (within_deeper_failure 0)
  | succ limit ih => exact within_disjunction ih.deeper

end Grammar

end PredicateLanguage
