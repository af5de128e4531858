import PredicateLanguage.Grammar.Rule

/-!
# What a rule matches

Most facts about rules are about what they read and where they end, and about how many
grouping levels they asked for.  This module takes an attempt apart into the two and
says for every combinator of rules what each of them is.
-/

namespace PredicateLanguage.Rule

variable {α β : Type}

/-- At `c` the rule reads `x`, and it ends at `d`. -/
def Matches (r : Rule α) (c : Cursor) (x : α) (d : Cursor) : Prop :=
  (r.run c).outcome = some (x, d)

/-- At `c` the rule does not match. -/
def Fails (r : Rule α) (c : Cursor) : Prop :=
  (r.run c).outcome = none

/-- The grouping levels that the rule asks for at `c`. -/
def levelsAt (r : Rule α) (c : Cursor) : Nat :=
  (r.run c).marks.levels

theorem Matches.unique {r : Rule α} {c d d' : Cursor} {x x' : α}
    (h : r.Matches c x d) (h' : r.Matches c x' d') : x = x' ∧ d = d' := by
  have heq : some (x, d) = some (x', d') := h.symm.trans h'
  simpa using heq

theorem Matches.le {r : Rule α} {c d : Cursor} {x : α} (h : r.Matches c x d) : c ≤ d :=
  le_of_run h

theorem Matches.run_eq {r : Rule α} {c d : Cursor} {x : α} (h : r.Matches c x d) :
    r.run c = ⟨some (x, d), (r.run c).marks⟩ :=
  Attempt.ext h rfl

theorem Fails.run_eq {r : Rule α} {c : Cursor} (h : r.Fails c) :
    r.run c = ⟨none, (r.run c).marks⟩ :=
  Attempt.ext h rfl

/-- A rule matches or fails. -/
theorem matches_or_fails (r : Rule α) (c : Cursor) :
    (∃ x d, r.Matches c x d) ∨ r.Fails c := by
  cases h : (r.run c).outcome with
  | none => exact Or.inr h
  | some y => exact Or.inl ⟨y.1, y.2, h⟩

theorem Fails.not_matches {r : Rule α} {c d : Cursor} {x : α} (h : r.Fails c) :
    ¬r.Matches c x d := by
  intro hm
  have heq : none = some (x, d) := h.symm.trans hm
  contradiction

theorem fails_iff {r : Rule α} {c : Cursor} : r.Fails c ↔ ∀ x d, ¬r.Matches c x d := by
  constructor
  · intro h x d
    exact h.not_matches
  · intro h
    rcases r.matches_or_fails c with ⟨x, d, hm⟩ | hf
    · exact absurd hm (h x d)
    · exact hf

/-! ## What is read -/

theorem matches_pure {x y : α} {c d : Cursor} :
    (pure x : Rule α).Matches c y d ↔ y = x ∧ d = c := by
  rw [Matches, run_pure, Attempt.found]
  constructor
  · intro h
    simp only [Option.some.injEq, Prod.mk.injEq] at h
    exact ⟨h.1.symm, h.2.symm⟩
  · rintro ⟨rfl, rfl⟩
    rfl

theorem not_matches_failure {x : α} {c d : Cursor} : ¬(failure : Rule α).Matches c x d := by
  rw [Matches, run_failure, Attempt.refused]
  simp

theorem matches_bind {r : Rule α} {next : α → Rule β} {y : β} {c e : Cursor} :
    (r >>= next).Matches c y e ↔ ∃ x d, r.Matches c x d ∧ (next x).Matches d y e := by
  constructor
  · intro h
    rw [Matches, run_bind] at h
    rcases r.matches_or_fails c with ⟨x, d, hx⟩ | hf
    · rw [hx.run_eq] at h
      exact ⟨x, d, hx, h⟩
    · rw [hf.run_eq] at h
      contradiction
  · rintro ⟨x, d, hx, hy⟩
    rw [Matches, run_bind, hx.run_eq]
    exact hy

theorem matches_map {f : α → β} {r : Rule α} {y : β} {c d : Cursor} :
    (f <$> r).Matches c y d ↔ ∃ x, r.Matches c x d ∧ y = f x := by
  rw [Matches, run_map, Option.map_eq_some_iff]
  constructor
  · rintro ⟨⟨x, d'⟩, hx, heq⟩
    obtain ⟨rfl, rfl⟩ := Prod.mk.inj heq
    exact ⟨x, hx, rfl⟩
  · rintro ⟨x, hx, rfl⟩
    exact ⟨(x, d), hx, rfl⟩

theorem matches_orElse {r s : Rule α} {x : α} {c d : Cursor} :
    (r <|> s).Matches c x d ↔ r.Matches c x d ∨ r.Fails c ∧ s.Matches c x d := by
  rw [Matches, run_orElse]
  rcases r.matches_or_fails c with ⟨y, e, hy⟩ | hf
  · rw [hy.run_eq]
    constructor
    · intro h
      exact Or.inl (hy.trans h)
    · rintro (h | ⟨hf, -⟩)
      · exact hy.symm.trans h
      · exact absurd hy hf.not_matches
  · rw [hf.run_eq]
    constructor
    · intro h
      exact Or.inr ⟨hf, h⟩
    · rintro (h | ⟨-, h⟩)
      · exact absurd h hf.not_matches
      · exact h

theorem matches_deeper {r : Rule α} {x : α} {c d : Cursor} :
    r.deeper.Matches c x d ↔ r.Matches c x d := Iff.rfl

/-! ## How many levels are asked for -/

theorem levelsAt_pure (x : α) (c : Cursor) : (pure x : Rule α).levelsAt c = 0 := rfl

theorem levelsAt_failure (c : Cursor) : (failure : Rule α).levelsAt c = 0 := rfl

theorem levelsAt_deeper (r : Rule α) (c : Cursor) : r.deeper.levelsAt c = r.levelsAt c + 1 := rfl

theorem levelsAt_map (f : α → β) (r : Rule α) (c : Cursor) :
    (f <$> r).levelsAt c = r.levelsAt c := by
  rw [levelsAt, run_map, levelsAt]

theorem levelsAt_bind_of_matches {r : Rule α} {next : α → Rule β} {x : α} {c d : Cursor}
    (h : r.Matches c x d) :
    (r >>= next).levelsAt c = max (r.levelsAt c) ((next x).levelsAt d) := by
  rw [levelsAt, run_bind, h.run_eq]
  rfl

theorem levelsAt_bind_of_fails {r : Rule α} {next : α → Rule β} {c : Cursor}
    (h : r.Fails c) : (r >>= next).levelsAt c = r.levelsAt c := by
  rw [levelsAt, run_bind, h.run_eq]
  rfl

theorem levelsAt_le_bind (r : Rule α) (next : α → Rule β) (c : Cursor) :
    r.levelsAt c ≤ (r >>= next).levelsAt c := by
  rcases r.matches_or_fails c with ⟨x, d, h⟩ | h
  · rw [levelsAt_bind_of_matches h]
    exact Nat.le_max_left _ _
  · exact Nat.le_of_eq (levelsAt_bind_of_fails h).symm

theorem levelsAt_orElse_of_matches {r s : Rule α} {x : α} {c d : Cursor}
    (h : r.Matches c x d) : (r <|> s).levelsAt c = r.levelsAt c := by
  rw [levelsAt, run_orElse, h.run_eq]
  rfl

theorem levelsAt_orElse_of_fails {r s : Rule α} {c : Cursor} (h : r.Fails c) :
    (r <|> s).levelsAt c = max (r.levelsAt c) (s.levelsAt c) := by
  rw [levelsAt, run_orElse, h.run_eq]
  rfl

end PredicateLanguage.Rule
