import Mathlib.Data.List.DropRight
import PredicateLanguage.Proofs.Soundness

/-!
# Places that are marked as missing

Every rule that does not find what it looks for marks the place.  This module says how places
are ordered, what rules in a row or in turn mark, and which places the rules for tokens and
terms mark: the one at which the token would have to start, or the end of the text where a
quoted text is opened and never closed.
-/

namespace PredicateLanguage

variable {α β : Type}

/-! ## The order of places -/

namespace Cursor

variable {b c d e : Cursor}

/-- Behind a place there is another one only if it has fewer bytes ahead. -/
theorem eq_of_le_of_left_le (h : c ≤ d) (hleft : c.left ≤ d.left) : c = d := by
  obtain ⟨skipped, hskipped⟩ := h
  have hlength := congrArg utf8Length hskipped
  rw [utf8Length_append, ← c.left_eq, ← d.left_eq] at hlength
  have hnil : skipped = [] := by
    apply List.eq_nil_of_length_eq_zero
    have hle := length_le_utf8Length skipped
    omega
  rw [hnil, List.nil_append] at hskipped
  exact Cursor.ext hskipped.symm

theorem later_of_le (h : c ≤ d) : later c d = d := by
  rw [later]
  by_cases hlt : d.left < c.left
  · rw [if_pos hlt]
  · rw [if_neg hlt]
    exact eq_of_le_of_left_le h (Nat.le_of_not_lt hlt)

/-- Of two places that are not beyond a third, neither is the later of them. -/
theorem later_le (hc : c ≤ e) (hd : d ≤ e) : later c d ≤ e := by
  rcases later_eq_or c d with h | h
  · rw [h]
    exact hc
  · rw [h]
    exact hd

/-- Moving forward does not move back where the next token starts. -/
theorem skipSpaces_mono (h : c ≤ d) : c.skipSpaces ≤ d.skipSpaces := by
  obtain ⟨skipped, hskipped⟩ := h
  rw [le_def, rest_skipSpaces, rest_skipSpaces, ← hskipped, List.dropWhile_append]
  split
  · exact List.suffix_refl _
  · exact (List.dropWhile_suffix isSpace).trans (List.suffix_append _ _)

@[simp]
theorem skipSpaces_skipSpaces (c : Cursor) : c.skipSpaces.skipSpaces = c.skipSpaces := by
  apply Cursor.ext
  rw [rest_skipSpaces, rest_skipSpaces, List.dropWhile_idempotent]

end Cursor

theorem Marks.laterMiss_eq_some {m n : Option Cursor} {e : Cursor}
    (h : laterMiss m n = some e) : m = some e ∨ n = some e := by
  cases m with
  | none => exact Or.inr h
  | some c =>
      cases n with
      | none => exact Or.inl h
      | some d =>
          have he : c.later d = e := Option.some.inj h
          rcases Cursor.later_eq_or c d with hlater | hlater
          · rw [← he, hlater]
            exact Or.inl rfl
          · rw [← he, hlater]
            exact Or.inr rfl

theorem Marks.laterMiss_ne_none {m n : Option Cursor} (h : m ≠ none ∨ n ≠ none) :
    laterMiss m n ≠ none := by
  cases m with
  | none => exact h.resolve_left (absurd rfl)
  | some c =>
      cases n with
      | none => exact Option.some_ne_none c
      | some d => exact Option.some_ne_none _

/-! ## What a rule marks -/

namespace Rule

/-- The furthest place that the rule marks as missing at `c`. -/
def missAt (r : Rule α) (c : Cursor) : Option Cursor :=
  (r.run c).marks.miss

theorem le_of_missAt {r : Rule α} {c e : Cursor} (h : r.missAt c = some e) : c ≤ e :=
  (r.run_from c).marks e h

theorem missAt_pure (x : α) (c : Cursor) : (pure x : Rule α).missAt c = none := rfl

theorem missAt_failure (c : Cursor) : (failure : Rule α).missAt c = none := rfl

theorem missAt_deeper (r : Rule α) (c : Cursor) : r.deeper.missAt c = r.missAt c := rfl

theorem missAt_map (f : α → β) (r : Rule α) (c : Cursor) :
    (f <$> r).missAt c = r.missAt c := by
  rw [missAt, run_map, missAt]

theorem missAt_bind_of_matches {r : Rule α} {next : α → Rule β} {x : α} {c d : Cursor}
    (h : r.Matches c x d) :
    (r >>= next).missAt c = Marks.laterMiss (r.missAt c) ((next x).missAt d) := by
  rw [missAt, run_bind, h.run_eq]
  rfl

theorem missAt_bind_of_fails {r : Rule α} {next : α → Rule β} {c : Cursor}
    (h : r.Fails c) : (r >>= next).missAt c = r.missAt c := by
  rw [missAt, run_bind, h.run_eq]
  rfl

theorem missAt_orElse_of_matches {r s : Rule α} {x : α} {c d : Cursor}
    (h : r.Matches c x d) : (r <|> s).missAt c = r.missAt c := by
  rw [missAt, run_orElse, h.run_eq]
  rfl

theorem missAt_orElse_of_fails {r s : Rule α} {c : Cursor} (h : r.Fails c) :
    (r <|> s).missAt c = Marks.laterMiss (r.missAt c) (s.missAt c) := by
  rw [missAt, run_orElse, h.run_eq]
  rfl

/-- What is marked by two rules in a row is marked by one of them. -/
theorem missAt_bind {r : Rule α} {next : α → Rule β} {c e : Cursor}
    (h : (r >>= next).missAt c = some e) :
    r.missAt c = some e ∨ ∃ x d, r.Matches c x d ∧ (next x).missAt d = some e := by
  rcases r.matches_or_fails c with ⟨x, d, hm⟩ | hf
  · rw [missAt_bind_of_matches hm] at h
    rcases Marks.laterMiss_eq_some h with hr | hnext
    · exact Or.inl hr
    · exact Or.inr ⟨x, d, hm, hnext⟩
  · rw [missAt_bind_of_fails hf] at h
    exact Or.inl h

theorem missAt_orElse {r s : Rule α} {c e : Cursor} (h : (r <|> s).missAt c = some e) :
    r.missAt c = some e ∨ r.Fails c ∧ s.missAt c = some e := by
  rcases r.matches_or_fails c with ⟨x, d, hm⟩ | hf
  · rw [missAt_orElse_of_matches hm] at h
    exact Or.inl h
  · rw [missAt_orElse_of_fails hf] at h
    rcases Marks.laterMiss_eq_some h with hr | hs
    · exact Or.inl hr
    · exact Or.inr ⟨hf, hs⟩

theorem fails_bind {r : Rule α} {next : α → Rule β} {c : Cursor} :
    (r >>= next).Fails c ↔ r.Fails c ∨ ∃ x d, r.Matches c x d ∧ (next x).Fails d := by
  rcases r.matches_or_fails c with ⟨x, d, hm⟩ | hf
  · constructor
    · intro h
      refine Or.inr ⟨x, d, hm, fails_iff.mpr fun y e hy => ?_⟩
      exact h.not_matches (matches_bind.mpr ⟨x, d, hm, hy⟩)
    · rintro (h | ⟨x', d', hm', h⟩)
      · exact absurd hm h.not_matches
      · obtain ⟨rfl, rfl⟩ := hm.unique hm'
        refine fails_iff.mpr fun y e hy => ?_
        obtain ⟨x', d', hx, hy⟩ := matches_bind.mp hy
        obtain ⟨rfl, rfl⟩ := hm.unique hx
        exact h.not_matches hy
  · refine iff_of_true (fails_iff.mpr fun y e hy => ?_) (Or.inl hf)
    obtain ⟨x, d, hx, -⟩ := matches_bind.mp hy
    exact hf.not_matches hx

theorem fails_map {f : α → β} {r : Rule α} {c : Cursor} : (f <$> r).Fails c ↔ r.Fails c := by
  rw [Fails, run_map, Option.map_eq_none_iff, Fails]

theorem fails_orElse {r s : Rule α} {c : Cursor} :
    (r <|> s).Fails c ↔ r.Fails c ∧ s.Fails c := by
  rw [fails_iff, fails_iff (r := s)]
  constructor
  · intro h
    have hr : r.Fails c := fails_iff.mpr fun x d hx => h x d (matches_orElse.mpr (Or.inl hx))
    exact ⟨hr, fun x d hx => h x d (matches_orElse.mpr (Or.inr ⟨hr, hx⟩))⟩
  · rintro ⟨hr, hs⟩ x d h
    rcases matches_orElse.mp h with hx | ⟨-, hx⟩
    · exact hr.not_matches hx
    · exact hs x d hx

end Rule

namespace Grammar

open Rule

variable {c d e : Cursor} {s : Symbol}

/-! ## Places that rules for tokens mark -/

/-- At `c` a quoted text is opened that is not closed up to the end `e` of the text. -/
def Unclosed (c e : Cursor) : Prop :=
  ∃ inside, c.rest.dropWhile isSpace = quote :: inside ∧ quote ∉ inside ∧ e.rest = []

theorem Unclosed.not_next {t : Token} (h : Unclosed c e) : ¬Next c t d := by
  obtain ⟨inside, htext, hopen, -⟩ := h
  intro hnext
  rw [Next, htext] at hnext
  obtain ⟨value, rfl⟩ := hnext.quote_head_iff.mp rfl
  obtain ⟨inside', heq, -, hclose⟩ := starts_quoted_iff.mp hnext
  obtain rfl : inside = inside' := (List.cons.inj heq).2
  apply hopen
  have hmem : quote ∈ inside.dropWhile (· ≠ quote) := by
    rw [hclose]
    exact List.mem_cons_self
  exact (List.dropWhile_suffix _).subset hmem

theorem missAt_eat : (eat s).missAt c = some e → e = c.skipSpaces := by
  intro h
  cases htake : s.take? c with
  | none =>
      rw [missAt, run_eat_of_none htake] at h
      exact (Option.some.inj h).symm
  | some d =>
      rw [missAt, run_eat_of_some htake] at h
      contradiction

/-- What is marked behind a question for a symbol is the place of the symbol, or marked by the
rule that the answer leads to. -/
theorem missAt_if_eat {α : Type} {s : Symbol} {r r' : Rule α}
    (h : (eat s >>= fun found => if found = true then r else r').missAt c = some e) :
    e = c.skipSpaces ∨ (∃ d, Next c s.token d ∧ r.missAt d = some e) ∨
      s.take? c = none ∧ r'.missAt c = some e := by
  rcases missAt_bind h with heat | ⟨found, d, hfound, hnext⟩
  · exact Or.inl (missAt_eat heat)
  rcases matches_eat.mp hfound with ⟨rfl, htoken⟩ | ⟨rfl, rfl, hnone⟩
  · exact Or.inr (Or.inl ⟨d, htoken, hnext⟩)
  · exact Or.inr (Or.inr ⟨hnone, hnext⟩)

/-- Where a symbol that has to come next does not, its place is marked. -/
theorem missAt_expect_of_fails (h : (expect s).Fails c) :
    (expect s).missAt c = some c.skipSpaces := by
  have htake : s.take? c = none := by
    apply Symbol.take?_eq_none_iff.mpr
    intro d hnext
    exact h.not_matches (matches_expect.mpr hnext : (expect s).Matches c () d)
  rw [expect, missAt, run_bind, run_eat_of_none htake]
  rfl

theorem missAt_expect_of_matches {u : Unit} (h : (expect s).Matches c u d) :
    (expect s).missAt c = none := by
  have htake : s.take? c = some d := Symbol.take?_eq_some_iff.mpr (matches_expect.mp h)
  rw [expect, missAt, run_bind, run_eat_of_some htake]
  rfl

theorem missAt_expect (h : (expect s).missAt c = some e) : e = c.skipSpaces := by
  rcases (expect s).matches_or_fails c with ⟨u, d, hm⟩ | hf
  · rw [missAt_expect_of_matches hm] at h
    contradiction
  · rw [missAt_expect_of_fails hf] at h
    exact (Option.some.inj h).symm

/-- A symbol that is read as often as it comes next is missing where it no longer does. -/
theorem missAt_eatAll {count : Nat} (h : (eatAll s).Matches c count d) :
    (eatAll s).missAt c = some d.skipSpaces := by
  rw [Matches, eatAll] at h
  have hcursor : (s.takeAll c).2 = d := (Prod.mk.inj (Option.some.inj h)).2
  rw [missAt, eatAll, ← hcursor]
  rfl

theorem identifier_cases (c : Cursor) :
    (∃ name d, identifier.run c = .found name d) ∨ identifier.run c = .missing c.skipSpaces := by
  by_cases halpha : c.skipSpaces.rest.head?.any Char.isAlpha = true
  · exact Or.inl ⟨_, _, if_pos halpha⟩
  · exact Or.inr (if_neg halpha)

/-- A literal that is not there is missing where it would start, or at the end of the text if
it is opened and not closed. -/
theorem literal_cases (c : Cursor) :
    (∃ value d, literal.run c = .found value d) ∨ literal.run c = .missing c.skipSpaces ∨
      ∃ e, Unclosed c e ∧ literal.run c = .missing e := by
  rw [literal]
  dsimp only
  by_cases hquote : c.skipSpaces.rest.head? = some quote
  · rw [if_pos hquote]
    by_cases hend : ((c.skipSpaces.advance 1).dropWhile (· ≠ quote)).atEnd = true
    · rw [if_pos hend]
      refine Or.inr (Or.inr ⟨_, ?_, rfl⟩)
      obtain ⟨inside, htext⟩ := List.head?_eq_some_iff.mp hquote
      have hspaces : c.rest.dropWhile isSpace = quote :: inside := by
        rw [← Cursor.rest_skipSpaces, htext]
      have hinside : (c.skipSpaces.advance 1).rest = inside := by
        rw [Cursor.rest_advance, htext]
        rfl
      rw [Cursor.atEnd, List.isEmpty_iff] at hend
      refine ⟨inside, hspaces, ?_, hend⟩
      rw [Cursor.rest_dropWhile, hinside, List.dropWhile_eq_nil_iff] at hend
      intro hmem
      simpa using hend quote hmem
    · rw [if_neg hend]
      exact Or.inl ⟨_, _, rfl⟩
  · rw [if_neg hquote]
    by_cases hword : c.skipSpaces.rest.head?.any isWord = true
    · rw [if_pos hword]
      exact Or.inl ⟨_, _, rfl⟩
    · rw [if_neg hword]
      exact Or.inr (Or.inl rfl)

theorem missAt_identifier (h : identifier.missAt c = some e) : e = c.skipSpaces := by
  rcases identifier_cases c with ⟨name, d, hrun⟩ | hrun
  · rw [missAt, hrun] at h
    contradiction
  · rw [missAt, hrun] at h
    exact (Option.some.inj h).symm

theorem missAt_literal (h : literal.missAt c = some e) : e = c.skipSpaces ∨ Unclosed c e := by
  rcases literal_cases c with ⟨value, d, hrun⟩ | hrun | ⟨e', hopen, hrun⟩
  · rw [missAt, hrun] at h
    contradiction
  · rw [missAt, hrun] at h
    exact Or.inl (Option.some.inj h).symm
  · rw [missAt, hrun] at h
    obtain rfl : e' = e := Option.some.inj h
    exact Or.inr hopen

theorem missAt_term (h : term.missAt c = some e) : e = c.skipSpaces ∨ Unclosed c e := by
  rcases missAt_orElse h with hname | ⟨-, hvalue⟩
  · rw [missAt_map] at hname
    exact Or.inl (missAt_identifier hname)
  · rw [missAt_map] at hvalue
    exact missAt_literal hvalue

/-! ## Sets whose elements break off -/

theorem matches_setMembers_of_matches {values : String × List String}
    (h : (separated .comma literal).Matches c values d) :
    setMembers.Matches c (values.1 :: values.2) d :=
  matches_orElse.mpr (Or.inl (matches_map.mpr ⟨values, h, rfl⟩))

theorem matches_setMembers_of_fails (h : (separated .comma literal).Fails c) :
    setMembers.Matches c [] c :=
  matches_orElse.mpr (Or.inr ⟨fails_map.mpr h, matches_pure.mpr ⟨rfl, rfl⟩⟩)

theorem missAt_setMembers_of_fails (h : (separated .comma literal).Fails c)
    (hmiss : (separated .comma literal).missAt c = some e) : setMembers.missAt c = some e := by
  rw [setMembers, missAt_orElse_of_fails (fails_map.mpr h), missAt_map, hmiss, missAt_pure]
  rfl

/-! ## Places in front of a token -/

/-- Where some token comes next, a term is missing at its own place. -/
theorem missAt_term_of_next {t : Token} (hnext : Next c t d) (h : term.missAt c = some e) :
    e = c.skipSpaces := by
  rcases missAt_term h with hplace | hopen
  · exact hplace
  · exact absurd hnext hopen.not_next

/-- In front of a group, a comparison is missing at the place of the parenthesis. -/
theorem missAt_comparison_of_next {t : Token} (hnext : Next c t d) (ht : t.term? = none)
    (h : comparison.missAt c = some e) : e = c.skipSpaces := by
  rw [comparison] at h
  rcases missAt_bind h with hterm | ⟨x, d', hx, -⟩
  · exact missAt_term_of_next hnext hterm
  · exfalso
    obtain ⟨u, hu, hterm⟩ := matches_term.mp hx
    obtain rfl : t = u := (hnext.unique hu).1
    rw [ht] at hterm
    contradiction

/-- Where a brace closes an empty set, elements are missing at its place. -/
theorem missAt_elements_of_next {t : Token} (hnext : Next c t d) (ht : t.element? = none)
    (h : (separated .comma literal).missAt c = some e) : e = c.skipSpaces := by
  rw [separated_eq] at h
  rcases missAt_bind h with hfirst | ⟨value, d', hvalue, -⟩
  · rcases missAt_literal hfirst with hplace | hopen
    · exact hplace
    · exact absurd hnext hopen.not_next
  · exfalso
    obtain ⟨u, hu, helement⟩ := matches_literal_iff.mp hvalue
    obtain rfl : t = u := (hnext.unique hu).1
    rw [ht] at helement
    contradiction

end Grammar

end PredicateLanguage
