import Mathlib.Data.Nat.Find
import PredicateLanguage.Proofs.Orderly
import PredicateLanguage.Proofs.Parentheses
import PredicateLanguage.Proofs.Recognition

/-!
# The limit as a threshold

A rule that kept to its limit does the same under every greater limit: it reads the same, ends at
the same place and leaves the same marks.  No rule asks for more levels than there are opening
parentheses ahead.  So every text has a least limit from which on it is not refused for its
depth, and whatever is said of it then is said under all greater limits.
-/

namespace PredicateLanguage

variable {α β : Type}

namespace Rule

/-! ## Runs that keep to their limit -/

/-- If the first rule keeps to the limit at `c`, the second does exactly what the first does. -/
def ExtendsAt (limit : Nat) (c : Cursor) (r s : Rule α) : Prop :=
  r.levelsAt c ≤ limit → s.run c = r.run c

namespace ExtendsAt

variable {limit : Nat} {c : Cursor} {r r' s s' : Rule α} {next next' : α → Rule β}

theorem refl (limit : Nat) (c : Cursor) (r : Rule α) : ExtendsAt limit c r r :=
  fun _ => rfl

theorem bind (hr : ExtendsAt limit c r r')
    (hnext : ∀ x d, r.Matches c x d → ExtendsAt limit d (next x) (next' x)) :
    ExtendsAt limit c (r >>= next) (r' >>= next') := by
  intro hlevels
  have hrun := hr (le_trans (levelsAt_le_bind r next c) hlevels)
  rw [run_bind, run_bind, hrun]
  rcases r.matches_or_fails c with ⟨x, d, hx⟩ | hf
  · rw [levelsAt_bind_of_matches hx] at hlevels
    rw [hx.run_eq]
    dsimp only
    rw [hnext x d hx (le_trans (Nat.le_max_right _ _) hlevels)]
  · rw [hf.run_eq]

theorem map (f : α → β) (hr : ExtendsAt limit c r r') :
    ExtendsAt limit c (f <$> r) (f <$> r') := by
  intro hlevels
  rw [levelsAt_map] at hlevels
  rw [run_map, run_map, hr hlevels]

theorem orElse (r : Rule α) (hs : ExtendsAt limit c s s') :
    ExtendsAt limit c (r <|> s) (r <|> s') := by
  intro hlevels
  rw [run_orElse, run_orElse]
  rcases r.matches_or_fails c with ⟨x, d, hx⟩ | hf
  · rw [hx.run_eq]
  · rw [levelsAt_orElse_of_fails hf] at hlevels
    rw [hf.run_eq]
    dsimp only
    rw [hs (le_trans (Nat.le_max_right _ _) hlevels)]

theorem deeper (hr : ExtendsAt limit c r r') :
    ExtendsAt (limit + 1) c r.deeper r'.deeper := by
  intro hlevels
  have hrun := hr (Nat.le_of_succ_le_succ hlevels)
  exact congrArg (fun a : Attempt α =>
    (⟨a.outcome, { a.marks with levels := a.marks.levels + 1 }⟩ : Attempt α)) hrun

/-- Where no level is allowed, a group does not keep to the limit. -/
theorem deeper_failure (r : Rule α) : ExtendsAt 0 c (failure : Rule α).deeper r := by
  intro hlevels
  rw [levelsAt_deeper] at hlevels
  exact absurd hlevels (Nat.not_succ_le_zero _)

end ExtendsAt

/-! ## How many levels can be asked for -/

/-- The rule asks for at most as many levels as there are opening parentheses ahead. -/
def BoundedAt (c : Cursor) (r : Rule α) : Prop :=
  r.levelsAt c ≤ c.rest.count '('

theorem Flat.boundedAt {r : Rule α} (h : r.Flat) (c : Cursor) : BoundedAt c r := by
  rw [BoundedAt, h c]
  exact Nat.zero_le _

theorem count_rest_le {c d : Cursor} (h : c ≤ d) : d.rest.count '(' ≤ c.rest.count '(' :=
  List.Sublist.count_le '(' (List.IsSuffix.sublist h)

namespace BoundedAt

variable {c : Cursor} {r s : Rule α} {next : α → Rule β}

theorem bind (hr : BoundedAt c r) (hnext : ∀ x d, r.Matches c x d → BoundedAt d (next x)) :
    BoundedAt c (r >>= next) := by
  rcases r.matches_or_fails c with ⟨x, d, hx⟩ | hf
  · rw [BoundedAt, levelsAt_bind_of_matches hx]
    exact Nat.max_le.mpr ⟨hr, le_trans (hnext x d hx) (count_rest_le hx.le)⟩
  · rw [BoundedAt, levelsAt_bind_of_fails hf]
    exact hr

theorem map (f : α → β) (hr : BoundedAt c r) : BoundedAt c (f <$> r) := by
  rw [BoundedAt, levelsAt_map]
  exact hr

theorem orElse (hr : BoundedAt c r) (hs : BoundedAt c s) : BoundedAt c (r <|> s) := by
  rcases r.matches_or_fails c with ⟨x, d, hx⟩ | hf
  · rw [BoundedAt, levelsAt_orElse_of_matches hx]
    exact hr
  · rw [BoundedAt, levelsAt_orElse_of_fails hf]
    exact Nat.max_le.mpr ⟨hr, hs⟩

end BoundedAt

end Rule

namespace Grammar

open Rule

section Extension

variable {limit : Nat} {inner inner' : Rule Predicate}

theorem extends_group (h : ∀ c, ExtendsAt limit c inner.deeper inner'.deeper) (c : Cursor) :
    ExtendsAt limit c (group inner) (group inner') := by
  rw [group, group]
  exact (ExtendsAt.refl limit c _).bind fun _ d _ => (h d).bind fun _ e _ => .refl limit e _

theorem extends_negation (h : ∀ c, ExtendsAt limit c inner.deeper inner'.deeper) (c : Cursor) :
    ExtendsAt limit c (negation inner) (negation inner') := by
  rw [negation, negation]
  refine (ExtendsAt.refl limit c _).bind fun nots d _ => ?_
  exact ((extends_group h d).orElse comparison).bind fun _ e _ => .refl limit e _

/-- The run over a chain is the same, operand by operand. -/
theorem extends_chain {operator : Symbol} {join : Predicate → Predicate → Predicate}
    {operand operand' : Rule Predicate} (h : ∀ c, ExtendsAt limit c operand operand')
    (c : Cursor) :
    ExtendsAt limit c (chain operator join operand) (chain operator join operand') := by
  induction hn : c.left using Nat.strongRecOn generalizing c with
  | ind n ih =>
      rw [chain_eq operator join operand, chain_eq operator join operand']
      refine (h c).bind fun p d hp => (ExtendsAt.refl limit d _).bind fun found e hfound => ?_
      cases found with
      | false => exact .refl limit e _
      | true =>
          rcases matches_eat.mp hfound with ⟨-, hnext⟩ | ⟨hfalse, -⟩
          · have hlt : e.left < n := hn ▸ left_lt_of_item hp hnext
            exact (ih e.left hlt e rfl).map (join p)
          · contradiction

theorem extends_disjunction (h : ∀ c, ExtendsAt limit c inner.deeper inner'.deeper)
    (c : Cursor) : ExtendsAt limit c (disjunction inner) (disjunction inner') :=
  extends_chain (extends_chain (extends_negation h)) c

/-- An expression that kept to its limit is read in the same way with one more level. -/
theorem extends_expression (limit : Nat) (c : Cursor) :
    ExtendsAt limit c (expression limit) (expression (limit + 1)) := by
  induction limit generalizing c with
  | zero => exact extends_disjunction (fun _ => .deeper_failure _) c
  | succ limit ih => exact extends_disjunction (fun c => (ih c).deeper) c

/-- An expression that kept to its limit is read in the same way under every greater limit. -/
theorem run_expression_of_le {limit limit' : Nat} {c : Cursor}
    (hlevels : (expression limit).levelsAt c ≤ limit) (hle : limit ≤ limit') :
    (expression limit').run c = (expression limit).run c := by
  induction limit', hle using Nat.le_induction with
  | base => rfl
  | succ limit' hle ih =>
      have hkeeps : (expression limit').levelsAt c ≤ limit' := by
        rw [levelsAt, ih]
        exact le_trans hlevels hle
      rw [extends_expression limit' c hkeeps, ih]

end Extension

section Bound

variable {inner : Rule Predicate}

/-- The parenthesis of a group pays for the level that it asks for. -/
theorem bounded_group (h : ∀ c, BoundedAt c inner) (c : Cursor) : BoundedAt c (group inner) := by
  rw [group]
  rcases (expect .openParen).matches_or_fails c with ⟨u, d, hopen⟩ | hf
  · have hnext : Next c Symbol.openParen.token d := matches_expect.mp hopen
    have hcount : d.rest.count '(' + 1 ≤ c.rest.count '(' := by
      have hspaces := (List.dropWhile_suffix (l := c.rest) isSpace).sublist.count_le '('
      have hparen : Symbol.openParen.token.spelling = ['('] := rfl
      rwa [hnext.eq, hparen, List.singleton_append, List.count_cons_self] at hspaces
    have hlevels : (do
        let p ← inner.deeper
        expect .closeParen
        return p).levelsAt d ≤ d.rest.count '(' + 1 := by
      rcases inner.deeper.matches_or_fails d with ⟨p, e, hp⟩ | hf
      · have hclose : (do
            expect .closeParen
            return p).Flat := (flat_expect _).bind fun _ => Flat.pure p
        rw [levelsAt_bind_of_matches hp, hclose e, Nat.max_zero, levelsAt_deeper]
        exact Nat.succ_le_succ (h d)
      · rw [levelsAt_bind_of_fails hf, levelsAt_deeper]
        exact Nat.succ_le_succ (h d)
    rw [BoundedAt, levelsAt_bind_of_matches hopen, flat_expect, Nat.zero_max]
    exact le_trans hlevels hcount
  · rw [BoundedAt, levelsAt_bind_of_fails hf, flat_expect]
    exact Nat.zero_le _

theorem bounded_negation (h : ∀ c, BoundedAt c inner) (c : Cursor) :
    BoundedAt c (negation inner) := by
  rw [negation]
  refine ((flat_eatAll _).boundedAt c).bind fun nots d _ => ?_
  refine BoundedAt.bind ?_ fun p e _ => (Flat.pure _).boundedAt e
  exact (flat_comparison.boundedAt d).orElse (bounded_group h d)

theorem bounded_chain {operator : Symbol} {join : Predicate → Predicate → Predicate}
    {operand : Rule Predicate} (h : ∀ c, BoundedAt c operand) (c : Cursor) :
    BoundedAt c (chain operator join operand) := by
  induction hn : c.left using Nat.strongRecOn generalizing c with
  | ind n ih =>
      rw [chain_eq]
      refine (h c).bind fun p d hp => ((flat_eat operator).boundedAt d).bind fun found e hfound => ?_
      cases found with
      | false => exact (Flat.pure p).boundedAt e
      | true =>
          rcases matches_eat.mp hfound with ⟨-, hnext⟩ | ⟨hfalse, -⟩
          · have hlt : e.left < n := hn ▸ left_lt_of_item hp hnext
            exact (ih e.left hlt e rfl).map (join p)
          · contradiction

theorem bounded_disjunction (h : ∀ c, BoundedAt c inner) (c : Cursor) :
    BoundedAt c (disjunction inner) :=
  bounded_chain (bounded_chain (bounded_negation h)) c

theorem bounded_expression (limit : Nat) (c : Cursor) : BoundedAt c (expression limit) := by
  induction limit generalizing c with
  | zero => exact bounded_disjunction (fun c => Flat.failure.boundedAt c) c
  | succ limit ih => exact bounded_disjunction ih c

end Bound

end Grammar

/-! ## Texts -/

open Grammar Rule

variable {text : String} {limit : Nat} {p : Predicate}

/-- From a limit on that the text keeps to, the same is said of it under every limit. -/
theorem exists_parse_eq_of_le
    (hlevels : (expression limit).levelsAt (.start text.toList) ≤ limit) :
    ∃ result, (∀ n, result ≠ .error (.tooDeep n)) ∧
      ∀ limit', limit ≤ limit' → Predicate.parse text limit' = result := by
  have hrun : ∀ limit', limit ≤ limit' →
      (expression limit').run (.start text.toList) = (expression limit).run (.start text.toList) :=
    fun _ hle => run_expression_of_le hlevels hle
  rcases (expression limit).matches_or_fails (.start text.toList) with ⟨p, d, hp⟩ | hfails
  · have hmatches : ∀ limit', limit ≤ limit' →
        (expression limit').Matches (.start text.toList) p d := by
      intro limit' hle
      rw [Matches, hrun limit' hle]
      exact hp
    refine ⟨_, ?_, fun limit' hle => parse_eq_of_matches (hmatches limit' hle)⟩
    intro n h
    split at h
    · cases h
    · cases h
  · obtain ⟨e, hmiss⟩ := Option.ne_none_iff_exists'.mp
      ((orderly_expression limit _).loud hfails hlevels)
    refine ⟨.error (.unexpected (utf8Length text.toList - e.left) (.ahead e)), ?_, ?_⟩
    · intro n h
      cases h
    · intro limit' hle
      have hkeeps : (expression limit').levelsAt (.start text.toList) ≤ limit' := by
        rw [levelsAt, hrun limit' hle]
        exact le_trans hlevels hle
      apply parse_eq_of_fails hkeeps
      · rw [Fails, hrun limit' hle]
        exact hfails
      · rw [missAt, hrun limit' hle]
        exact hmiss

/-- What is read under some limit nests exactly as deep as the least limit under which it is not
refused. -/
theorem parenthesisDepth_eq_of_parse {least : Nat}
    (hrefused : ∀ n < least, Predicate.parse text n = .error (.tooDeep n))
    (h : Predicate.parse text least = .ok p) : parenthesisDepth text = least := by
  obtain ⟨ts, htokens, hts, hnesting⟩ := exists_derives_of_parse h
  rw [htokens.parenthesisDepth_eq]
  refine Nat.le_antisymm hnesting (Nat.le_of_not_lt fun hlt => ?_)
  have hread := parse_of_derives htokens hts (Nat.le_refl _)
  rw [hrefused _ hlt] at hread
  contradiction

/-- For every text there is a least limit, at most the number of its opening parentheses.  Under
smaller limits the text is refused for its depth, and under all others the same is said of it.
If it is a predicate, the least limit is the depth of its parentheses.  So a greater limit keeps
what was read. -/
theorem exists_least_limit (text : String) :
    (∃ (least : Nat) (result : Except SyntaxError Predicate),
      least ≤ text.toList.count '(' ∧
      (∀ limit < least, Predicate.parse text limit = .error (.tooDeep limit)) ∧
      (∀ limit, least ≤ limit → Predicate.parse text limit = result) ∧
      (∀ limit, result ≠ .error (.tooDeep limit)) ∧
      (∀ p, result = .ok p → least = parenthesisDepth text)) ∧
    ∀ limit limit' p, limit ≤ limit' → Predicate.parse text limit = .ok p →
      Predicate.parse text limit' = .ok p := by
  classical
  let Keeps (limit : Nat) : Prop := (expression limit).levelsAt (.start text.toList) ≤ limit
  have hkeeps : Keeps (text.toList.count '(') := bounded_expression _ _
  have hexists : ∃ limit, Keeps limit := ⟨_, hkeeps⟩
  obtain ⟨result, hresult, hsame⟩ := exists_parse_eq_of_le (Nat.find_spec hexists)
  have hrefused : ∀ limit < Nat.find hexists,
      Predicate.parse text limit = .error (.tooDeep limit) := by
    intro limit hlt
    exact parse_of_levels (Nat.lt_of_not_le (Nat.find_min hexists hlt))
  refine ⟨⟨Nat.find hexists, result, Nat.find_min' hexists hkeeps, hrefused, hsame, hresult, ?_⟩, ?_⟩
  · rintro p rfl
    exact (parenthesisDepth_eq_of_parse hrefused (hsame _ (Nat.le_refl _))).symm
  · intro limit limit' p hle hp
    have hleast : Nat.find hexists ≤ limit := by
      by_contra hlt
      rw [hrefused limit (Nat.lt_of_not_le hlt)] at hp
      contradiction
    rw [hsame limit' (le_trans hleast hle), ← hsame limit hleast, hp]

/-- A group that is never closed is refused for its depth first, and for its end from the least
limit on. -/
theorem exists_least_limit_unclosed :
    Predicate.parse "((a)" 1 = .error (.tooDeep 1) ∧
      (∀ limit, 2 ≤ limit → Predicate.parse "((a)" limit = .error (.unexpected 4 .endOfInput)) ∧
      Predicate.parse "not ((a))" 9 = .ok (.not (.present (.var "a"))) := by
  have htwo : Predicate.parse "((a)" 2 = .error (.unexpected 4 .endOfInput) := by decide +kernel
  obtain ⟨⟨least, result, -, hrefused, hsame, hresult, -⟩, -⟩ := exists_least_limit "((a)"
  have hleast : least ≤ 2 := by
    by_contra hlt
    rw [hrefused 2 (Nat.lt_of_not_le hlt)] at htwo
    contradiction
  refine ⟨by decide +kernel, fun limit hle => ?_, ?_⟩
  · rw [hsame limit (le_trans hleast hle), ← hsame 2 hleast, htwo]
  · exact (exists_least_limit "not ((a))").2 2 9 _ (by decide) (by decide +kernel)

end PredicateLanguage
