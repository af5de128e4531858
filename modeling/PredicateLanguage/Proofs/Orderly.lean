import PredicateLanguage.Proofs.Levels
import PredicateLanguage.Proofs.Misses

/-!
# Marks in order

Two things about the places that are marked as missing hold of all rules of the grammar.  A rule
that matches marks nothing beyond the place where the next token would start, so what it leaves
does not hide a later error.  A rule that fails marks some place, unless it was refused for its
depth.
-/

namespace PredicateLanguage

variable {α β : Type}

namespace Rule

/-- What the rule marks at `c` does not hide what is marked later: where it matches, nothing is
marked beyond the place at which the next token would start, and where it fails within the
limit, something is marked. -/
structure OrderlyAt (r : Rule α) (limit : Nat) (c : Cursor) : Prop where
  tidy : ∀ {x d e}, r.Matches c x d → r.missAt c = some e → e ≤ d.skipSpaces
  loud : r.Fails c → r.levelsAt c ≤ limit → r.missAt c ≠ none

namespace OrderlyAt

variable {r s : Rule α} {next : α → Rule β} {limit : Nat} {c : Cursor}

theorem pure (x : α) (limit : Nat) (c : Cursor) : (pure x : Rule α).OrderlyAt limit c where
  tidy _ h := absurd h.symm (Option.some_ne_none _)
  loud h := absurd (matches_pure.mpr ⟨rfl, rfl⟩) h.not_matches

theorem bind (hr : r.OrderlyAt limit c)
    (hnext : ∀ x d, r.Matches c x d → (next x).OrderlyAt limit d) :
    (r >>= next).OrderlyAt limit c where
  tidy h hmiss := by
    obtain ⟨x, d, hx, hy⟩ := matches_bind.mp h
    rcases missAt_bind hmiss with hfirst | ⟨x', d', hx', hsecond⟩
    · exact Cursor.le_trans (hr.tidy hx hfirst) (Cursor.skipSpaces_mono hy.le)
    · obtain ⟨rfl, rfl⟩ := hx.unique hx'
      exact (hnext x d hx).tidy hy hsecond
  loud h hlevels := by
    rcases fails_bind.mp h with hf | ⟨x, d, hx, hf⟩
    · rw [levelsAt_bind_of_fails hf] at hlevels
      rw [missAt_bind_of_fails hf]
      exact hr.loud hf hlevels
    · rw [levelsAt_bind_of_matches hx] at hlevels
      rw [missAt_bind_of_matches hx]
      have hd := (hnext x d hx).loud hf (le_trans (Nat.le_max_right _ _) hlevels)
      exact Marks.laterMiss_ne_none (Or.inr hd)

theorem map (hr : r.OrderlyAt limit c) (f : α → β) : (f <$> r).OrderlyAt limit c where
  tidy h hmiss := by
    obtain ⟨x, hx, -⟩ := matches_map.mp h
    rw [missAt_map] at hmiss
    exact hr.tidy hx hmiss
  loud h hlevels := by
    rw [levelsAt_map] at hlevels
    rw [missAt_map]
    exact hr.loud (fails_map.mp h) hlevels

/-- What a first alternative marks before it fails must not lie beyond what the second one
reads. -/
theorem orElse (hr : r.OrderlyAt limit c) (hs : s.OrderlyAt limit c)
    (hbetween : ∀ {x d e}, r.Fails c → s.Matches c x d → r.missAt c = some e →
      e ≤ d.skipSpaces) : (r <|> s).OrderlyAt limit c where
  tidy h hmiss := by
    rcases matches_orElse.mp h with hx | ⟨hf, hx⟩
    · rw [missAt_orElse_of_matches hx] at hmiss
      exact hr.tidy hx hmiss
    · rcases missAt_orElse hmiss with hfirst | ⟨-, hsecond⟩
      · exact hbetween hf hx hfirst
      · exact hs.tidy hx hsecond
  loud h hlevels := by
    obtain ⟨hf, hf'⟩ := fails_orElse.mp h
    rw [levelsAt_orElse_of_fails hf] at hlevels
    rw [missAt_orElse_of_fails hf]
    have hmiss := hr.loud hf (le_trans (Nat.le_max_left _ _) hlevels)
    exact Marks.laterMiss_ne_none (Or.inl hmiss)

theorem deeper (hr : r.OrderlyAt limit c) : r.deeper.OrderlyAt (limit + 1) c where
  tidy h hmiss := hr.tidy (matches_deeper.mp h) hmiss
  loud h hlevels := by
    rw [levelsAt_deeper] at hlevels
    exact hr.loud h (Nat.le_of_succ_le_succ hlevels)

/-- Where no level is allowed, a group that is refused asks for one. -/
theorem deeper_failure : (failure : Rule α).deeper.OrderlyAt 0 c where
  tidy h := absurd (matches_deeper.mp h) not_matches_failure
  loud _ hlevels := absurd hlevels (Nat.not_succ_le_zero _)

end OrderlyAt

end Rule

namespace Grammar

open Rule

variable {limit : Nat} {c d : Cursor} {s : Symbol}

/-! ## Rules for tokens -/

theorem orderly_eat (s : Symbol) (limit : Nat) (c : Cursor) : (eat s).OrderlyAt limit c where
  tidy h hmiss := by
    rw [missAt_eat hmiss]
    exact Cursor.skipSpaces_mono h.le
  loud h := by
    exfalso
    cases htake : s.take? c with
    | none => exact h.not_matches (matches_eat.mpr (Or.inr ⟨rfl, rfl, htake⟩))
    | some d =>
        exact h.not_matches (matches_eat.mpr (Or.inl ⟨rfl, Symbol.take?_eq_some_iff.mp htake⟩))

theorem orderly_if_eat {r r' : Rule α} (hr : ∀ d, Next c s.token d → r.OrderlyAt limit d)
    (hr' : r'.OrderlyAt limit c) :
    (eat s >>= fun found => if found = true then r else r').OrderlyAt limit c := by
  refine (orderly_eat s limit c).bind fun found d hfound => ?_
  rcases matches_eat.mp hfound with ⟨rfl, hnext⟩ | ⟨rfl, rfl, -⟩
  · exact hr d hnext
  · exact hr'

theorem orderly_expect (s : Symbol) (limit : Nat) (c : Cursor) :
    (expect s).OrderlyAt limit c where
  tidy h hmiss := by
    rw [missAt_expect_of_matches h] at hmiss
    contradiction
  loud h _ := by
    rw [missAt_expect_of_fails h]
    exact Option.some_ne_none _

theorem orderly_eatAll (s : Symbol) (limit : Nat) (c : Cursor) :
    (eatAll s).OrderlyAt limit c where
  tidy h hmiss := by
    rw [missAt_eatAll h] at hmiss
    rw [← Option.some.inj hmiss]
    exact Cursor.le_refl _
  loud h := by
    exfalso
    have hm : (eatAll s).Matches c (s.takeAll c).1 (s.takeAll c).2 := rfl
    exact h.not_matches hm

theorem orderly_literal (limit : Nat) (c : Cursor) : literal.OrderlyAt limit c where
  tidy h hmiss := by
    rcases matches_literal_iff.mp h with ⟨t, hnext, -⟩
    rcases missAt_literal hmiss with rfl | hopen
    · exact Cursor.skipSpaces_mono h.le
    · exact absurd hnext hopen.not_next
  loud h _ := by
    rcases literal_cases c with ⟨value, d, hrun⟩ | hrun | ⟨e', -, hrun⟩
    · rw [Fails, hrun] at h
      contradiction
    · rw [missAt, hrun]
      exact Option.some_ne_none _
    · rw [missAt, hrun]
      exact Option.some_ne_none _

theorem orderly_identifier (limit : Nat) (c : Cursor) : identifier.OrderlyAt limit c where
  tidy h hmiss := by
    rw [missAt_identifier hmiss]
    exact Cursor.skipSpaces_mono h.le
  loud h _ := by
    rcases identifier_cases c with ⟨name, d, hrun⟩ | hrun
    · rw [Fails, hrun] at h
      contradiction
    · rw [missAt, hrun]
      exact Option.some_ne_none _

theorem orderly_term (limit : Nat) (c : Cursor) : term.OrderlyAt limit c := by
  refine OrderlyAt.orElse ((orderly_identifier limit c).map _) ((orderly_literal limit c).map _) ?_
  intro x d e _ h hmiss
  rw [missAt_map] at hmiss
  rw [missAt_identifier hmiss]
  exact Cursor.skipSpaces_mono h.le

/-! ## Items, sets and comparisons -/

theorem orderly_separated {item : Rule α} (hitem : ∀ c, item.OrderlyAt limit c) (c : Cursor) :
    (separated s item).OrderlyAt limit c := by
  induction hn : c.left using Nat.strongRecOn generalizing c with
  | ind n ih =>
      rw [separated_eq]
      refine (hitem c).bind fun x d hx => orderly_if_eat (fun e hnext => ?_) (.pure _ limit d)
      have hlt : e.left < n := hn ▸ left_lt_of_item hx hnext
      exact (ih e.left hlt e rfl).map _

theorem orderly_setMembers_of_matches {values : String × List String}
    (h : (separated .comma literal).Matches c values d) : setMembers.OrderlyAt limit c := by
  refine ((orderly_separated (orderly_literal limit) c).map _).orElse (.pure [] limit c) ?_
  intro x d' e hf
  exact absurd (matches_map.mpr ⟨values, h, rfl⟩) hf.not_matches

theorem orderly_setMembers_of_next (h : Next c Symbol.closeBrace.token d) :
    setMembers.OrderlyAt limit c := by
  refine ((orderly_separated (orderly_literal limit) c).map _).orElse (.pure [] limit c) ?_
  intro x d' e _ hpure hmiss
  obtain ⟨-, rfl⟩ := matches_pure.mp hpure
  rw [missAt_map] at hmiss
  rw [missAt_elements_of_next h rfl hmiss]
  exact Cursor.le_refl _

/-- If the elements of a set break off, the brace that closes an empty set is missing in front of
them, so that nothing is read at all. -/
theorem orderly_setTail (limit : Nat) (c : Cursor) : setTail.OrderlyAt limit c := by
  have hclose : ∀ members d, (expect .closeBrace >>= fun _ =>
      pure (StringSet.ofList members)).OrderlyAt limit d := by
    intro members d
    exact (orderly_expect _ limit d).bind fun _ e _ => OrderlyAt.pure _ limit e
  rcases (separated .comma literal).matches_or_fails c with ⟨values, d, hvalues⟩ | hfails
  · exact (orderly_setMembers_of_matches hvalues).bind fun members d _ => hclose members d
  by_cases hempty : ∃ d, Next c Symbol.closeBrace.token d
  · obtain ⟨d, hnext⟩ := hempty
    exact (orderly_setMembers_of_next hnext).bind fun members d _ => hclose members d
  have hnone := matches_setMembers_of_fails hfails
  have hexpect : (expect .closeBrace).Fails c := by
    apply fails_iff.mpr
    intro u d h
    exact hempty ⟨d, matches_expect.mp h⟩
  constructor
  · intro set d e h
    exfalso
    obtain ⟨members, d', hmembers, h⟩ := matches_bind.mp h
    obtain ⟨rfl, rfl⟩ := hnone.unique hmembers
    obtain ⟨u, d'', hu, -⟩ := matches_bind.mp h
    exact hexpect.not_matches hu
  · intro _ _
    rw [setTail, missAt_bind_of_matches hnone, missAt_bind_of_fails hexpect,
      missAt_expect_of_fails hexpect]
    exact Marks.laterMiss_ne_none (Or.inr (Option.some_ne_none _))

theorem orderly_set (limit : Nat) (c : Cursor) : set.OrderlyAt limit c :=
  (orderly_expect _ limit c).bind fun _ d _ => orderly_setTail limit d

theorem orderly_comparisonTail (left : Term) (limit : Nat) (c : Cursor) :
    (comparisonTail left).OrderlyAt limit c := by
  refine orderly_if_eat (fun d _ => ?_) ?_
  · exact (orderly_term limit d).bind fun right e _ => .pure _ limit e
  refine orderly_if_eat (fun d _ => ?_) ?_
  · exact (orderly_term limit d).bind fun right e _ => .pure _ limit e
  refine orderly_if_eat (fun d _ => ?_) ?_
  · exact (orderly_set limit d).bind fun members e _ => .pure _ limit e
  refine orderly_if_eat (fun d _ => ?_) (.pure _ limit c)
  refine (orderly_expect _ limit d).bind fun _ d _ => ?_
  exact (orderly_set limit d).bind fun members e _ => .pure _ limit e

theorem orderly_comparison (limit : Nat) (c : Cursor) : comparison.OrderlyAt limit c := by
  rw [comparison_eq]
  exact (orderly_term limit c).bind fun left d _ => orderly_comparisonTail left limit d

/-! ## Groups and expressions -/

section Groups

variable {inner : Rule Predicate}

theorem orderly_group (h : ∀ c, inner.deeper.OrderlyAt limit c) (c : Cursor) :
    (group inner).OrderlyAt limit c := by
  rw [group]
  refine (orderly_expect _ limit c).bind fun _ d _ => (h d).bind fun p d _ => ?_
  exact (orderly_expect _ limit d).bind fun _ e _ => OrderlyAt.pure p limit e

theorem orderly_operand (h : ∀ c, inner.deeper.OrderlyAt limit c) (c : Cursor) :
    (comparison <|> group inner).OrderlyAt limit c := by
  refine (orderly_comparison limit c).orElse (orderly_group h c) ?_
  intro p d e _ hgroup hmiss
  obtain ⟨f, f', hopen, -, -⟩ := matches_group.mp hgroup
  rw [missAt_comparison_of_next hopen rfl hmiss]
  exact Cursor.skipSpaces_mono hgroup.le

theorem orderly_negation (h : ∀ c, inner.deeper.OrderlyAt limit c) (c : Cursor) :
    (negation inner).OrderlyAt limit c := by
  rw [negation]
  refine (orderly_eatAll _ limit c).bind fun nots d _ => ?_
  exact (orderly_operand h d).bind fun p e _ => OrderlyAt.pure _ limit e

theorem orderly_chain {join : Predicate → Predicate → Predicate} {operand : Rule Predicate}
    (h : ∀ c, operand.OrderlyAt limit c) (c : Cursor) :
    (chain s join operand).OrderlyAt limit c :=
  (orderly_separated h c).map _

theorem orderly_disjunction (h : ∀ c, inner.deeper.OrderlyAt limit c) (c : Cursor) :
    (disjunction inner).OrderlyAt limit c :=
  orderly_chain (orderly_chain (orderly_negation h)) c

end Groups

/-- The marks of an expression are in order wherever it is tried. -/
theorem orderly_expression (limit : Nat) (c : Cursor) :
    (expression limit).OrderlyAt limit c := by
  induction limit generalizing c with
  | zero => exact orderly_disjunction (fun _ => OrderlyAt.deeper_failure) c
  | succ limit ih => exact orderly_disjunction (fun c => (ih c).deeper) c

end Grammar

end PredicateLanguage
