import PredicateLanguage.Proofs.Levels
import PredicateLanguage.Proofs.Soundness

/-!
# What is derived is read

Tokens that the grammar derives are read as what it derives, if what follows them cannot go
on with the expression.  How deep they nest decides whether they are read or refused: where
the limit allows it they are read, and where it does not the rule asks for more levels than
the limit has.
-/

namespace PredicateLanguage

variable {α β : Type}

namespace Rule

/-- At `c` the rule reads `x` and ends at `d` if `depth` levels are within the limit; else
it asks for more levels than the limit has. -/
structure Yields (r : Rule α) (limit depth : Nat) (c : Cursor) (x : α) (d : Cursor) :
    Prop where
  matched : depth ≤ limit → r.Matches c x d
  refused : limit < depth → limit < r.levelsAt c

namespace Yields

variable {r s : Rule α} {next : α → Rule β} {limit m n : Nat} {c d e : Cursor}
  {x : α} {y : β}

theorem of_matches (h : r.Matches c x d) : r.Yields limit 0 c x d where
  matched _ := h
  refused hlt := absurd hlt (Nat.not_lt_zero limit)

theorem bind (hr : r.Yields limit m c x d) (hnext : (next x).Yields limit n d y e) :
    (r >>= next).Yields limit (max m n) c y e where
  matched hle := by
    have hm : m ≤ limit := le_trans (Nat.le_max_left m n) hle
    have hn : n ≤ limit := le_trans (Nat.le_max_right m n) hle
    exact matches_bind.mpr ⟨x, d, hr.matched hm, hnext.matched hn⟩
  refused hlt := by
    by_cases hm : limit < m
    · exact lt_of_lt_of_le (hr.refused hm) (levelsAt_le_bind r next c)
    · have hn : limit < n := by omega
      rw [levelsAt_bind_of_matches (hr.matched (Nat.le_of_not_lt hm))]
      exact lt_of_lt_of_le (hnext.refused hn) (Nat.le_max_right _ _)

/-- What is read before changes nothing about the depth. -/
theorem bind_of_matches (hr : r.Matches c x d) (hnext : (next x).Yields limit n d y e) :
    (r >>= next).Yields limit n c y e := by
  have hflat : r.Yields limit 0 c x d := of_matches hr
  have h := hflat.bind hnext
  rwa [Nat.zero_max] at h

/-- What is read behind changes nothing about the depth. -/
theorem bind_matches (hr : r.Yields limit n c x d) (hnext : (next x).Matches d y e) :
    (r >>= next).Yields limit n c y e := by
  have h := hr.bind (of_matches hnext)
  rwa [Nat.max_zero] at h

theorem orElse (hr : r.Fails c) (hs : s.Yields limit n c x d) :
    (r <|> s).Yields limit n c x d where
  matched hle := matches_orElse.mpr (Or.inr ⟨hr, hs.matched hle⟩)
  refused hlt := by
    rw [levelsAt_orElse_of_fails hr]
    exact lt_of_lt_of_le (hs.refused hlt) (Nat.le_max_right _ _)

theorem deeper (hr : r.Yields limit n c x d) : r.deeper.Yields (limit + 1) (n + 1) c x d where
  matched hle := matches_deeper.mpr (hr.matched (Nat.le_of_succ_le_succ hle))
  refused hlt := by
    rw [levelsAt_deeper]
    exact Nat.succ_lt_succ (hr.refused (Nat.lt_of_succ_lt_succ hlt))

/-- Where no level is allowed, a group is refused. -/
theorem deeper_failure : (failure : Rule α).deeper.Yields 0 (n + 1) c x d where
  matched hle := absurd hle (Nat.not_succ_le_zero n)
  refused _ := by
    rw [levelsAt_deeper]
    exact Nat.succ_pos _

end Yields

end Rule

namespace Grammar

open Rule

section Chain

variable {operator : Symbol} {join : Predicate → Predicate → Predicate}
  {operand : Rule Predicate} {limit m n : Nat} {c d e e' : Cursor} {p q : Predicate}

theorem yields_chain_of_end (hp : operand.Yields limit n c p d)
    (hend : operator.take? d = none) : (chain operator join operand).Yields limit n c p d where
  matched hle := matches_chain_iff.mpr (Or.inl ⟨hp.matched hle, hend⟩)
  refused hlt := lt_of_lt_of_le (hp.refused hlt) le_levelsAt_chain

theorem yields_chain_of_next (hp : operand.Yields limit m c p e)
    (hnext : Next e operator.token e') (hq : (chain operator join operand).Yields limit n e' q d) :
    (chain operator join operand).Yields limit (max m n) c (join p q) d where
  matched hle := by
    have hm : m ≤ limit := le_trans (Nat.le_max_left m n) hle
    have hn : n ≤ limit := le_trans (Nat.le_max_right m n) hle
    exact matches_chain_iff.mpr
      (Or.inr ⟨p, e, e', q, hp.matched hm, hnext, hq.matched hn, rfl⟩)
  refused hlt := by
    by_cases hm : limit < m
    · exact lt_of_lt_of_le (hp.refused hm) le_levelsAt_chain
    · have hn : limit < n := by omega
      rw [levelsAt_chain_of_next (hp.matched (Nat.le_of_not_lt hm)) hnext]
      exact lt_of_lt_of_le (hq.refused hn) (Nat.le_max_right _ _)

end Chain

/-! ## Layers as rules -/

/-- What is read inside the parentheses of an expression with a limit. -/
def inside : Nat → Rule Predicate
  | 0 => failure
  | limit + 1 => expression limit

theorem expression_eq_disjunction (limit : Nat) :
    expression limit = disjunction (inside limit) := by
  cases limit <;> rfl

end Grammar

namespace Layer

/-- The rule that reads a layer. -/
def rule (inner : Rule Predicate) : Layer → Rule Predicate
  | disjunction => Grammar.disjunction inner
  | conjunction => Grammar.conjunction inner
  | negation => Grammar.negation inner

/-- The symbols with which an expression of a layer goes on. -/
def continuations : Layer → List Symbol
  | disjunction => .or :: .and :: Grammar.comparisonOperators
  | conjunction => .and :: Grammar.comparisonOperators
  | negation => Grammar.comparisonOperators

/-- At `d` no expression of the layer goes on. -/
def EndsAt (layer : Layer) (d : Cursor) : Prop :=
  ∀ s ∈ layer.continuations, s.take? d = none

theorem endsAt_of_next {layer : Layer} {c d : Cursor} {t : Token} (h : Next c t d)
    (hne : ∀ s ∈ layer.continuations, t ≠ s.token) : layer.EndsAt c :=
  fun s hs => Symbol.take?_eq_none_of_next h (hne s hs)

end Layer

namespace Grammar

open Rule

variable {limit n : Nat} {c d e : Cursor} {p : Predicate} {ts : List Token}

theorem yields_negation {inner : Rule Predicate} {nots : Nat}
    (hnots : Reads c.rest (List.replicate nots Symbol.not.token) e.rest)
    (hstop : Symbol.not.take? e = none)
    (h : (comparison <|> group inner).Yields limit n e p d) :
    (negation inner).Yields limit n c (p.negated nots) d := by
  rw [negation]
  have heatAll := matches_eatAll.mpr ⟨hnots, hstop⟩
  exact .bind_of_matches heatAll (h.bind_matches (matches_pure.mpr ⟨rfl, rfl⟩))

theorem yields_group {inner : Rule Predicate} {e' : Cursor}
    (hopen : Next c Symbol.openParen.token e)
    (hinner : inner.deeper.Yields limit n e p e')
    (hclose : Next e' Symbol.closeParen.token d) :
    (comparison <|> group inner).Yields limit n c p d := by
  refine .orElse (comparison_fails hopen rfl) ?_
  rw [group]
  have hparen : (expect .openParen).Matches c () e := matches_expect.mpr hopen
  refine .bind_of_matches hparen (hinner.bind_matches ?_)
  exact matches_bind.mpr ⟨(), d, matches_expect.mpr hclose, matches_pure.mpr ⟨rfl, rfl⟩⟩

/-- What is read as an expression under every limit is read or refused inside parentheses. -/
theorem yields_inside (h : ∀ limit, (disjunction (inside limit)).Yields limit n c p d) :
    (inside limit).deeper.Yields limit (n + 1) c p d := by
  cases limit with
  | zero => exact .deeper_failure
  | succ limit =>
      have hexpression := h limit
      rw [← expression_eq_disjunction] at hexpression
      exact hexpression.deeper

/-- Tokens that the grammar derives are read where nothing goes on, or are refused for
their depth. -/
theorem yields_of_derives {layer : Layer} (h : Derives layer p ts)
    (hreads : Reads c.rest ts d.rest) (hend : layer.EndsAt d) :
    (layer.rule (inside limit)).Yields limit (nesting ts) c p d := by
  induction h generalizing limit c d with
  | @comparison nots p ts hts hfirst =>
      obtain ⟨e, hnots, hreads⟩ := reads_append_iff.mp hreads
      have hstop : Symbol.not.take? e = none := by
        obtain ⟨t, us, x, rfl, -⟩ := hts.exists_cons
        obtain ⟨f, ht, -⟩ := reads_cons_iff.mp hreads
        refine Symbol.take?_eq_none_of_next ht ?_
        rintro rfl
        exact hfirst rfl
      have hmatches := matches_comparison_of_derives hts hreads fun _ _ => hend
      rw [(hts.nests.behind_nots nots).nesting_eq]
      exact yields_negation hnots hstop (.of_matches (matches_orElse.mpr (Or.inl hmatches)))
  | @group nots p ts hts ih =>
      obtain ⟨e, hnots, hreads⟩ := reads_append_iff.mp hreads
      obtain ⟨f, hopen, hreads⟩ := reads_cons_iff.mp hreads
      obtain ⟨f', hreads, hclose⟩ := reads_append_iff.mp hreads
      rw [reads_singleton_iff] at hclose
      have hstop : Symbol.not.take? e = none :=
        Symbol.take?_eq_none_of_next hopen (by decide)
      have hf' : Layer.disjunction.EndsAt f' := Layer.endsAt_of_next hclose (by decide)
      have hinner : ∀ limit, (disjunction (inside limit)).Yields limit (nesting ts) f p f' :=
        fun limit => ih hreads hf'
      rw [(hts.nests.group.behind_nots nots).nesting_eq]
      exact yields_negation hnots hstop (yields_group hopen (yields_inside hinner) hclose)
  | negation _ ih =>
      refine yields_chain_of_end (ih hreads fun s hs => hend s ?_) (hend _ List.mem_cons_self)
      exact List.mem_cons_of_mem _ hs
  | conjunction _ ih =>
      refine yields_chain_of_end (ih hreads fun s hs => hend s ?_) (hend _ List.mem_cons_self)
      exact List.mem_cons_of_mem _ hs
  | and left right ihl ihr =>
      obtain ⟨e, hleft, hreads⟩ := reads_append_iff.mp hreads
      obtain ⟨e', hand, hright⟩ := reads_cons_iff.mp hreads
      rw [joins_and.nesting_eq left right]
      have he : Layer.negation.EndsAt e := Layer.endsAt_of_next hand (by decide)
      exact yields_chain_of_next (ihl hleft he) hand (ihr hright hend)
  | or left right ihl ihr =>
      obtain ⟨e, hleft, hreads⟩ := reads_append_iff.mp hreads
      obtain ⟨e', hor, hright⟩ := reads_cons_iff.mp hreads
      rw [joins_or.nesting_eq left right]
      have he : Layer.conjunction.EndsAt e := Layer.endsAt_of_next hor (by decide)
      exact yields_chain_of_next (ihl hleft he) hor (ihr hright hend)

theorem yields_inside_of_derives (h : Derives .disjunction p ts) (hreads : Reads c.rest ts d.rest)
    (hclose : Next d Symbol.closeParen.token e) :
    (inside limit).deeper.Yields limit (nesting ts + 1) c p d :=
  yields_inside fun _ => yields_of_derives h hreads (Layer.endsAt_of_next hclose (by decide))

end Grammar

end PredicateLanguage
