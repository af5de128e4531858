import PredicateLanguage.Proofs.Comparisons

/-!
# What is read is derived

Every expression that a rule reads is derived by the grammar from the tokens that the rule
passed over, and these nest no deeper than the rule allows.  The proof follows the rules:
from what stands inside groups to negations, chains and expressions, and then by induction
on the limit.
-/

namespace PredicateLanguage.Grammar

open Rule

/-! ## Groups and negations -/

section Negation

variable {inner : Rule Predicate} {c d : Cursor} {p : Predicate}

/-- A comparison fails where its first term is missing. -/
theorem comparison_fails {t : Token} (hnext : Next c t d) (ht : t.term? = none) :
    comparison.Fails c := by
  rw [fails_iff]
  intro q e hq
  obtain ⟨us, hus, hreads⟩ := derivesComparison_of_matches hq
  obtain ⟨u, us, x, rfl, hterm⟩ := hus.exists_cons
  obtain ⟨e', hu, -⟩ := reads_cons_iff.mp hreads
  obtain rfl : t = u := (hnext.unique hu).1
  rw [ht] at hterm
  contradiction

theorem matches_group :
    (group inner).Matches c p d ↔
      ∃ e e', Next c Symbol.openParen.token e ∧ inner.Matches e p e' ∧
        Next e' Symbol.closeParen.token d := by
  rw [group, matches_bind]
  constructor
  · rintro ⟨_, e, hopen, h⟩
    obtain ⟨q, e', hq, h⟩ := matches_bind.mp h
    obtain ⟨_, e'', hclose, h⟩ := matches_bind.mp h
    obtain ⟨rfl, rfl⟩ := matches_pure.mp h
    rw [matches_expect] at hopen hclose
    exact ⟨e, e', hopen, matches_deeper.mp hq, hclose⟩
  · rintro ⟨e, e', hopen, hp, hclose⟩
    refine ⟨(), e, matches_expect.mpr hopen, matches_bind.mpr ⟨p, e', hp, ?_⟩⟩
    exact matches_bind.mpr ⟨(), d, matches_expect.mpr hclose, matches_pure.mpr ⟨rfl, rfl⟩⟩

/-- What may be negated is a comparison or a group, and never both. -/
theorem matches_operand :
    (comparison <|> group inner).Matches c p d ↔
      comparison.Matches c p d ∨ (group inner).Matches c p d := by
  rw [matches_orElse]
  constructor
  · rintro (h | ⟨-, h⟩)
    · exact Or.inl h
    · exact Or.inr h
  · rintro (h | h)
    · exact Or.inl h
    · obtain ⟨e, e', hopen, -, -⟩ := matches_group.mp h
      exact Or.inr ⟨comparison_fails hopen rfl, h⟩

theorem matches_negation :
    (negation inner).Matches c p d ↔
      ∃ nots e q, Reads c.rest (List.replicate nots Symbol.not.token) e.rest ∧
        Symbol.not.take? e = none ∧ (comparison <|> group inner).Matches e q d ∧
        p = q.negated nots := by
  rw [negation, matches_bind]
  constructor
  · rintro ⟨nots, e, hnots, h⟩
    obtain ⟨q, e', hq, h⟩ := matches_bind.mp h
    obtain ⟨rfl, rfl⟩ := matches_pure.mp h
    obtain ⟨hnots, hstop⟩ := matches_eatAll.mp hnots
    exact ⟨nots, e, q, hnots, hstop, hq, rfl⟩
  · rintro ⟨nots, e, q, hnots, hstop, hq, rfl⟩
    refine ⟨nots, e, matches_eatAll.mpr ⟨hnots, hstop⟩, ?_⟩
    exact matches_bind.mpr ⟨q, d, hq, matches_pure.mpr ⟨rfl, rfl⟩⟩

end Negation

/-- Tokens in front of which `not` cannot be read do not start with it. -/
theorem head_ne_not_of_take?_eq_none {c d : Cursor} {ts : List Token}
    (hreads : Reads c.rest ts d.rest) (hnone : Symbol.not.take? c = none) :
    ts.head? ≠ some Symbol.not.token := by
  intro hhead
  obtain ⟨us, rfl⟩ := List.head?_eq_some_iff.mp hhead
  obtain ⟨e, hnext, -⟩ := reads_cons_iff.mp hreads
  exact Symbol.take?_eq_none_iff.mp hnone e hnext

/-! ## From the inside of groups to expressions -/

/-- Whatever the rule reads, the layer derives it from tokens that nest less than `bound`
levels deep. -/
def Sound (layer : Layer) (bound : Nat) (r : Rule Predicate) : Prop :=
  ∀ c p d, r.Matches c p d →
    ∃ ts, Derives layer p ts ∧ Reads c.rest ts d.rest ∧ nesting ts < bound

theorem sound_failure (layer : Layer) : Sound layer 0 failure := by
  intro c p d h
  exact absurd h not_matches_failure

theorem sound_negation {bound : Nat} {inner : Rule Predicate}
    (hinner : Sound .disjunction bound inner) :
    Sound .negation (bound + 1) (negation inner) := by
  intro c p d h
  obtain ⟨nots, e, q, hnots, hstop, hq, rfl⟩ := matches_negation.mp h
  rcases matches_operand.mp hq with hcomparison | hgroup
  · obtain ⟨ts, hts, hreads⟩ := derivesComparison_of_matches hcomparison
    have hfirst := head_ne_not_of_take?_eq_none hreads hstop
    refine ⟨_, .comparison nots hts hfirst, hnots.append hreads, ?_⟩
    rw [(hts.nests.behind_nots nots).nesting_eq]
    exact Nat.succ_pos bound
  · obtain ⟨f, f', hopen, hinside, hclose⟩ := matches_group.mp hgroup
    obtain ⟨ts, hts, hreads, hbound⟩ := hinner f q f' hinside
    have hgrouped := hreads.append (reads_singleton_iff.mpr hclose)
    refine ⟨_, .group nots hts, hnots.append (.cons hopen hgrouped), ?_⟩
    rw [(hts.nests.group.behind_nots nots).nesting_eq]
    exact Nat.succ_lt_succ hbound

section Chain

variable {operator : Symbol} {join : Predicate → Predicate → Predicate}
  {lower upper : Layer}

theorem sound_chain {bound : Nat} {operand : Rule Predicate}
    (hjoins : Joins operator join lower upper) (hoperand : Sound lower bound operand) :
    Sound upper bound (chain operator join operand) := by
  intro c p d h
  induction h using chain_induction with
  | single hp _ =>
      obtain ⟨ts, hts, hreads, hbound⟩ := hoperand _ _ _ hp
      exact ⟨ts, hjoins.single hts, hreads, hbound⟩
  | joined hfirst hnext _ ih =>
      obtain ⟨ts, hts, hreads, hbound⟩ := hoperand _ _ _ hfirst
      obtain ⟨us, hus, hreads', hbound'⟩ := ih
      refine ⟨_, hjoins.joined hts hus, hreads.append (.cons hnext hreads'), ?_⟩
      rw [hjoins.nesting_eq hts hus]
      exact Nat.max_lt.mpr ⟨hbound, hbound'⟩

end Chain

theorem sound_disjunction {bound : Nat} {inner : Rule Predicate}
    (hinner : Sound .disjunction bound inner) :
    Sound .disjunction (bound + 1) (disjunction inner) :=
  sound_chain joins_or (sound_chain joins_and (sound_negation hinner))

/-- Whatever is read as an expression is derived from tokens that keep to the limit. -/
theorem sound_expression (limit : Nat) :
    Sound .disjunction (limit + 1) (expression limit) := by
  induction limit with
  | zero => exact sound_disjunction (sound_failure .disjunction)
  | succ limit ih => exact sound_disjunction ih

end PredicateLanguage.Grammar
