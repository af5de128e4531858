import PredicateLanguage.Proofs.Reaching

/-!
# Rules follow the tokens of a phrase

A rule follows tokens that begin a phrase: unless it is refused for its depth, it matches and
ends behind them, or it fails and marks a place behind them.  Where the tokens make up a whole
phrase, a rule that fails has read more than these tokens.  The grammar has no alternative that
gives up a symbol once it is read, which is why both hold whatever follows the tokens.
-/

namespace PredicateLanguage.Grammar

open Rule

variable {limit n : Nat} {c d e : Cursor} {s : Symbol} {t : Token} {us vs : List Token}

/-! ## Tokens that begin others -/

/-- A row of tokens has not begun, or its first token is read. -/
theorem reads_prefix_cons {ts : List Token} (hts : t :: ts = us ++ vs)
    (hreads : Reads c.rest us d.rest) :
    d = c ∨ ∃ us' e, ts = us' ++ vs ∧ Next c t e ∧ Reads e.rest us' d.rest := by
  rcases List.cons_eq_append_iff.mp hts with ⟨rfl, -⟩ | ⟨us', rfl, hts'⟩
  · exact Or.inl (reads_nil_iff.mp hreads)
  · obtain ⟨e, hnext, hreads⟩ := reads_cons_iff.mp hreads
    exact Or.inr ⟨us', e, hts', hnext, hreads⟩

theorem reads_prefix_nil (hts : [] = us ++ vs) (hreads : Reads c.rest us d.rest) : d = c := by
  obtain ⟨rfl, -⟩ := List.nil_eq_append_iff.mp hts
  exact reads_nil_iff.mp hreads

theorem reads_prefix_singleton (hts : [t] = us ++ vs) (hreads : Reads c.rest us d.rest) :
    d = c ∨ Next c t d := by
  rcases reads_prefix_cons hts hreads with hd | ⟨us', e, hnil, hnext, hreads'⟩
  · exact Or.inl hd
  · rw [reads_prefix_nil hnil hreads']
    exact Or.inr hnext

/-- Of two rows with a token between them, not more than the first has begun, or the first and
the token are read. -/
theorem reads_prefix_append {ts ws : List Token} (hts : ts ++ t :: ws = us ++ vs)
    (hreads : Reads c.rest us d.rest) :
    (∃ vs', ts = us ++ vs') ∨
      ∃ us' e e', ws = us' ++ vs ∧ Reads c.rest ts e.rest ∧ Next e t e' ∧
        Reads e'.rest us' d.rest := by
  rcases List.append_eq_append_iff.mp hts with ⟨us', rfl, hws⟩ | ⟨vs', rfl, -⟩
  · rcases List.cons_eq_append_iff.mp hws with ⟨rfl, -⟩ | ⟨us'', rfl, hws'⟩
    · exact Or.inl ⟨[], by rw [List.append_nil, List.append_nil]⟩
    · obtain ⟨e, hfirst, hreads⟩ := reads_append_iff.mp hreads
      obtain ⟨e', hnext, hreads⟩ := reads_cons_iff.mp hreads
      exact Or.inr ⟨us'', e, e', hws', hfirst, hnext, hreads⟩
  · exact Or.inl ⟨vs', rfl⟩

/-! ## Tokens that begin a comparison -/

theorem reaches_term {x : Term} (ht : t.term? = some x) (hts : [t] = us ++ vs)
    (hreads : Reads c.rest us d.rest) (hn : d.left < n) : term.Reaches limit c d n := by
  rcases reads_prefix_singleton hts hreads with rfl | hnext
  · exact .here (orderly_term limit d) hn
  · exact .matched (matches_term.mpr ⟨t, hnext, ht⟩) (Cursor.le_refl d)

theorem reaches_elements {values : List String} {ts : List Token}
    (h : DerivesElements values ts) (hts : ts = us ++ vs) (hreads : Reads c.rest us d.rest)
    (hn : d.left < n) : (separated .comma literal).Reaches limit c d n := by
  have hitems := orderly_separated (s := .comma) (orderly_literal limit)
  induction h generalizing c us with
  | last helement =>
      rcases reads_prefix_singleton hts hreads with rfl | hnext
      · exact .here (hitems d) hn
      have hvalue := matches_literal_iff.mpr ⟨_, hnext, helement⟩
      rw [separated_eq]
      refine (Reaches.matched hvalue (Cursor.le_refl d)).bind_later hn fun value e => ?_
      exact orderly_if_eat (fun f _ => (hitems f).map _) (.pure _ limit e)
  | more helement _ ih =>
      rcases reads_prefix_cons hts hreads with rfl | ⟨us', e, hts, hnext, hreads⟩
      · exact .here (hitems d) hn
      have hvalue := matches_literal_iff.mpr ⟨_, hnext, helement⟩
      rw [separated_eq]
      refine .bind_of_matches hvalue ?_
      rcases reads_prefix_cons hts hreads with rfl | ⟨us'', e', hts, hcomma, hreads⟩
      · exact .here (orderly_if_eat (fun f _ => (hitems f).map _) (.pure _ limit d)) hn
      · exact reaches_if_eat_of_next hcomma ((ih hts hreads).map _)

theorem orderly_closeSet (members : List String) (c : Cursor) :
    (expect .closeBrace >>= fun _ => pure (StringSet.ofList members)).OrderlyAt limit c :=
  (orderly_expect _ limit c).bind fun _ e _ => .pure _ limit e

/-- Where elements break off, no brace closes an empty set in front of them. -/
theorem reaches_setTail {values : List String} {ts : List Token}
    (h : DerivesElements values ts) (hts : ts = us ++ vs) (hreads : Reads c.rest us d.rest)
    (hn : d.left < n) : setTail.Reaches limit c d n := by
  have helements : (separated .comma literal).Reaches limit c d n :=
    reaches_elements h hts hreads hn
  cases helements with
  | matched hitems hle =>
      have hmembers := matches_setMembers_of_matches hitems
      exact (Reaches.matched hmembers hle).bind_later hn orderly_closeSet
  | missed hfails hmiss hlt =>
      obtain ⟨t, ws, value, rfl, helement⟩ := h.exists_cons
      rcases reads_prefix_cons hts hreads with rfl | ⟨us', e, -, hnext, -⟩
      · exact .here (orderly_setTail limit d) hn
      have hnone := matches_setMembers_of_fails hfails
      have hclose : (expect .closeBrace).Fails c := by
        apply fails_iff.mpr
        intro u f hclose
        obtain rfl := (hnext.unique (matches_expect.mp hclose)).1
        contradiction
      have hmembers := missAt_setMembers_of_fails hfails hmiss
      exact .bind_missed hnone hmembers hlt (fails_bind.mpr (Or.inl hclose))
  | refused hlevels =>
      rw [flat_separated flat_literal] at hlevels
      exact absurd hlevels (Nat.not_lt_zero limit)

theorem reaches_set {members : StringSet} {ts : List Token} (h : DerivesSet members ts)
    (hts : ts = us ++ vs) (hreads : Reads c.rest us d.rest) (hn : d.left < n) :
    set.Reaches limit c d n := by
  cases h with
  | empty =>
      rcases reads_prefix_cons hts hreads with rfl | ⟨us', e, hts, hopen, hreads⟩
      · exact .here (orderly_set limit d) hn
      rcases reads_prefix_singleton hts hreads with rfl | hclose
      · rw [set_eq]
        exact reaches_expect hopen (.here (orderly_setTail limit d) hn)
      · have hreads := reads_singleton_iff.mpr hclose
        exact .matched (matches_set.mpr ⟨_, .empty, .cons hopen hreads⟩) (Cursor.le_refl d)
  | elements h =>
      rcases reads_prefix_cons hts hreads with rfl | ⟨us', e, hts, hopen, hreads⟩
      · exact .here (orderly_set limit d) hn
      rcases reads_prefix_append hts hreads with
        ⟨vs', hts⟩ | ⟨us'', f, f', hts, hitems, hclose, hreads⟩
      · rw [set_eq]
        exact reaches_expect hopen (reaches_setTail h hts hreads hn)
      · obtain rfl := reads_prefix_nil hts hreads
        have hreads := hitems.append (reads_singleton_iff.mpr hclose)
        exact .matched (matches_set.mpr ⟨_, .elements h, .cons hopen hreads⟩) (Cursor.le_refl d)

theorem reaches_comparison_of_tail {x : Term} {ws : List Token} (ht : t.term? = some x)
    (hts : t :: ws = us ++ vs) (hreads : Reads c.rest us d.rest) (hn : d.left < n)
    (htail : ∀ us' e, ws = us' ++ vs → Reads e.rest us' d.rest →
      (comparisonTail x).Reaches limit e d n) : comparison.Reaches limit c d n := by
  rcases reads_prefix_cons hts hreads with rfl | ⟨us', e, hts, hnext, hreads⟩
  · exact .here (orderly_comparison limit d) hn
  · rw [comparison_eq]
    exact .bind_of_matches (matches_term.mpr ⟨t, hnext, ht⟩) (htail us' e hts hreads)

theorem reaches_comparison {p : Predicate} {ts : List Token} (h : DerivesComparison p ts)
    (hts : ts = us ++ vs) (hreads : Reads c.rest us d.rest) (hn : d.left < n) :
    comparison.Reaches limit c d n := by
  cases h with
  | @present t x ht =>
      refine reaches_comparison_of_tail ht hts hreads hn fun us e hts hreads => ?_
      obtain rfl := reads_prefix_nil hts hreads
      exact .here (orderly_comparisonTail x limit d) hn
  | @equal t u x y ht hu =>
      refine reaches_comparison_of_tail ht hts hreads hn fun us e hts hreads => ?_
      rcases reads_prefix_cons hts hreads with rfl | ⟨us', f, hts, hequal, hreads⟩
      · exact .here (orderly_comparisonTail x limit d) hn
      refine reaches_if_eat_of_next hequal ?_
      exact (reaches_term hu hts hreads hn).bind_pure _
  | @notEqual t u x y ht hu =>
      refine reaches_comparison_of_tail ht hts hreads hn fun us e hts hreads => ?_
      rcases reads_prefix_cons hts hreads with rfl | ⟨us', f, hts, hnotEqual, hreads⟩
      · exact .here (orderly_comparisonTail x limit d) hn
      refine reaches_if_eat_of_other hnotEqual (by decide) ?_
      refine reaches_if_eat_of_next hnotEqual ?_
      exact (reaches_term hu hts hreads hn).bind_pure _
  | @oneOf t x members ws ht hset =>
      refine reaches_comparison_of_tail ht hts hreads hn fun us e hts hreads => ?_
      rcases reads_prefix_cons hts hreads with rfl | ⟨us', f, hts, hmember, hreads⟩
      · exact .here (orderly_comparisonTail x limit d) hn
      refine reaches_if_eat_of_other hmember (by decide) ?_
      refine reaches_if_eat_of_other hmember (by decide) ?_
      refine reaches_if_eat_of_next hmember ?_
      exact (reaches_set hset hts hreads hn).bind_pure _
  | @noneOf t x members ws ht hset =>
      refine reaches_comparison_of_tail ht hts hreads hn fun us e hts hreads => ?_
      rcases reads_prefix_cons hts hreads with rfl | ⟨us', f, hts, hnot, hreads⟩
      · exact .here (orderly_comparisonTail x limit d) hn
      refine reaches_if_eat_of_other hnot (by decide) ?_
      refine reaches_if_eat_of_other hnot (by decide) ?_
      refine reaches_if_eat_of_other hnot (by decide) ?_
      refine reaches_if_eat_of_next hnot ?_
      rcases reads_prefix_cons hts hreads with rfl | ⟨us'', f', hts, hmember, hreads⟩
      · refine .here ((orderly_expect _ limit d).bind fun _ e _ => ?_) hn
        exact (orderly_set limit e).bind fun members e _ => .pure _ limit e
      exact reaches_expect hmember ((reaches_set hset hts hreads hn).bind_pure _)

/-! ## Tokens that begin an expression -/

/-- A symbol that is read as often as it comes next is read as often as it stands there. -/
theorem le_of_matches_eatAll {count count' : Nat}
    (hreads : Reads c.rest (List.replicate count s.token) d.rest)
    (h : (eatAll s).Matches c count' e) : d ≤ e := by
  induction count generalizing c count' with
  | zero =>
      rw [reads_nil_iff.mp hreads]
      exact h.le
  | succ count ih =>
      obtain ⟨hall, hstop⟩ := matches_eatAll.mp h
      rw [List.replicate_succ, reads_cons_iff] at hreads
      obtain ⟨f, hnext, hreads⟩ := hreads
      cases count' with
      | zero =>
          obtain rfl := reads_nil_iff.mp hall
          exact absurd hnext (Symbol.take?_eq_none_iff.mp hstop f)
      | succ count' =>
          rw [List.replicate_succ, reads_cons_iff] at hall
          obtain ⟨f', hnext', hall⟩ := hall
          obtain ⟨-, rfl⟩ := hnext.unique hnext'
          exact ih hreads (matches_eatAll.mpr ⟨hall, hstop⟩)

section Groups

variable {inner : Rule Predicate}

theorem orderly_negated (hinner : ∀ c, inner.deeper.OrderlyAt limit c) (nots : Nat)
    (c : Cursor) : ((comparison <|> group inner) >>= fun p =>
      pure (if nots % 2 = 1 then p.not else p)).OrderlyAt limit c :=
  (orderly_operand hinner c).bind fun _ e _ => .pure _ limit e

/-- What is negated begins with a token other than `not`. -/
theorem reaches_negation {nots : Nat} {ws : List Token}
    (hinner : ∀ c, inner.deeper.OrderlyAt limit c)
    (hts : List.replicate nots Symbol.not.token ++ t :: ws = us ++ vs)
    (ht : t ≠ Symbol.not.token) (hreads : Reads c.rest us d.rest) (hn : d.left < n)
    (hoperand : ∀ us' e e', ws = us' ++ vs → Next e t e' → Reads e'.rest us' d.rest →
      (comparison <|> group inner).Reaches limit e d n) :
    (negation inner).Reaches limit c d n := by
  rw [negation]
  rcases reads_prefix_append hts hreads with
    ⟨vs', hnots⟩ | ⟨us', e, e', hts, hnots, hnext, hreads⟩
  · obtain ⟨-, hus, -⟩ := List.append_eq_replicate_iff.mp hnots.symm
    rw [hus] at hreads
    have hall : (eatAll .not).Matches c (Symbol.not.takeAll c).1 (Symbol.not.takeAll c).2 := rfl
    have hle := le_of_matches_eatAll hreads hall
    exact (Reaches.matched hall hle).bind_later hn (orderly_negated hinner)
  · have hstop := Symbol.take?_eq_none_of_next hnext ht
    refine .bind_of_matches (matches_eatAll.mpr ⟨hnots, hstop⟩) ?_
    exact (hoperand us' e e' hts hnext hreads).bind_pure _

/-- Where a term can be read, no group can. -/
theorem group_fails {x : Term} (hnext : Next c t d) (ht : t.term? = some x) :
    (group inner).Fails c := by
  apply fails_iff.mpr
  intro p e h
  obtain ⟨f, f', hopen, -, -⟩ := matches_group.mp h
  obtain rfl := (hnext.unique hopen).1
  contradiction

end Groups

section Chain

variable {operator : Symbol} {join : Predicate → Predicate → Predicate}
  {operand : Rule Predicate} {p : Predicate}

theorem reaches_chain (hoperand : ∀ c, operand.OrderlyAt limit c)
    (h : operand.Reaches limit c d n) (hn : d.left < n) :
    (chain operator join operand).Reaches limit c d n := by
  rw [chain_eq]
  refine h.bind_later hn fun p e => ?_
  exact orderly_if_eat (fun f _ => (orderly_chain hoperand f).map _) (.pure _ limit e)

theorem reaches_chain_of_next {depth : Nat} {e' : Cursor}
    (hp : operand.Yields limit depth c p e) (hnext : Next e operator.token e')
    (h : (chain operator join operand).Reaches limit e' d n) :
    (chain operator join operand).Reaches limit c d n := by
  rw [chain_eq]
  exact .bind_of_yields hp (reaches_if_eat_of_next hnext (h.map _))

end Chain

theorem orderly_inside (limit : Nat) (c : Cursor) :
    (inside limit).deeper.OrderlyAt limit c := by
  cases limit with
  | zero => exact .deeper_failure
  | succ limit => exact (orderly_expression limit c).deeper

theorem orderly_rule (layer : Layer) (limit : Nat) (c : Cursor) :
    (layer.rule (inside limit)).OrderlyAt limit c := by
  have hnegation := orderly_negation (orderly_inside limit)
  cases layer with
  | negation => exact hnegation c
  | conjunction => exact orderly_chain hnegation c
  | disjunction => exact orderly_chain (orderly_chain hnegation) c

theorem reaches_inside (h : ∀ limit, (disjunction (inside limit)).Reaches limit c d n) :
    (inside limit).deeper.Reaches limit c d n := by
  cases limit with
  | zero => exact .refused (Nat.succ_pos _)
  | succ limit =>
      have hexpression := h limit
      rw [← expression_eq_disjunction] at hexpression
      exact hexpression.deeper

/-- The rule of a layer follows tokens with which one of its phrases begins. -/
theorem reaches_of_derives {layer : Layer} {p : Predicate} {ts : List Token}
    (h : Derives layer p ts) (hts : ts = us ++ vs) (hreads : Reads c.rest us d.rest)
    (hn : d.left < n) : (layer.rule (inside limit)).Reaches limit c d n := by
  induction h generalizing limit c us vs with
  | comparison nots h hfirst =>
      obtain ⟨t, ws, x, rfl, ht⟩ := h.exists_cons
      have hnot : t ≠ Symbol.not.token := by
        intro heq
        exact hfirst (congrArg some heq)
      refine reaches_negation (orderly_inside limit) hts hnot hreads hn ?_
      intro us' e e' hws hnext hreads
      have hts : t :: ws = (t :: us') ++ vs := congrArg (List.cons t) hws
      have hreads : Reads e.rest (t :: us') d.rest := .cons hnext hreads
      exact (reaches_comparison h hts hreads hn).orElse (group_fails hnext ht)
  | @group nots p ts h ih =>
      refine reaches_negation (orderly_inside limit) hts (by decide) hreads hn ?_
      intro us' e e' hws hopen hreads
      refine .orElse_of_fails (comparison_fails hopen rfl) ?_
      rw [group]
      refine reaches_expect hopen ?_
      rcases reads_prefix_append hws hreads with
        ⟨vs', hts⟩ | ⟨us'', f, f', hnil, hinside, hclose, hreads⟩
      · refine (reaches_inside fun limit => ih hts hreads).bind_later hn fun p f => ?_
        exact (orderly_expect _ limit f).bind fun _ f' _ => .pure p limit f'
      · obtain rfl := reads_prefix_nil hnil hreads
        have hyields : (inside limit).deeper.Yields limit (nesting ts + 1) e' p f :=
          yields_inside_of_derives h hinside hclose
        refine .bind_of_yields hyields (reaches_expect hclose ?_)
        exact .matched (matches_pure.mpr ⟨rfl, rfl⟩) (Cursor.le_refl d)
  | negation _ ih => exact reaches_chain (orderly_rule .negation limit) (ih hts hreads) hn
  | conjunction _ ih => exact reaches_chain (orderly_rule .conjunction limit) (ih hts hreads) hn
  | and left right ihl ihr =>
      rcases reads_prefix_append hts hreads with
        ⟨vs', hts⟩ | ⟨us', e, e', hts, hleft, hand, hreads⟩
      · exact reaches_chain (orderly_rule .negation limit) (ihl hts hreads) hn
      · have he : Layer.negation.EndsAt e := Layer.endsAt_of_next hand (by decide)
        exact reaches_chain_of_next (yields_of_derives left hleft he) hand (ihr hts hreads)
  | or left right ihl ihr =>
      rcases reads_prefix_append hts hreads with
        ⟨vs', hts⟩ | ⟨us', e, e', hts, hleft, hor, hreads⟩
      · exact reaches_chain (orderly_rule .conjunction limit) (ihl hts hreads) hn
      · have he : Layer.conjunction.EndsAt e := Layer.endsAt_of_next hor (by decide)
        exact reaches_chain_of_next (yields_of_derives left hleft he) hor (ihr hts hreads)

/-! ## Whole phrases -/

/-- A rule that is tried behind another token marks nothing at the place of that token. -/
theorem reaches_behind {r : Rule α} (hle : d ≤ e) {e' : Cursor} (hnext : Next e t e')
    (hr : r.OrderlyAt limit e') : r.Reaches limit e' d d.skipSpaces.left := by
  have hplace := Cursor.left_le_of_le (Cursor.skipSpaces_mono hle)
  exact .later hr (Cursor.le_trans hle hnext.le) (lt_of_lt_of_le hnext.left_lt hplace)

/-- Behind a whole comparison the rule ends, or it has read an operator before it fails. -/
theorem reaches_whole_comparison {p : Predicate} {ts : List Token} (h : DerivesComparison p ts)
    (hreads : Reads c.rest ts d.rest) : comparison.Reaches limit c d d.skipSpaces.left := by
  have hd := Cursor.le_refl d
  by_cases hpresent : ∃ x, p = .present x
  · obtain ⟨x, rfl⟩ := hpresent
    cases h with
    | @present t x ht =>
        rw [comparison_eq]
        refine .bind_of_matches (matches_term.mpr ⟨t, reads_singleton_iff.mp hreads, ht⟩) ?_
        refine reaches_if_eat (fun e he => reaches_behind hd he ?_) fun _ => ?_
        · exact (orderly_term limit e).bind fun _ f _ => .pure _ limit f
        refine reaches_if_eat (fun e he => reaches_behind hd he ?_) fun _ => ?_
        · exact (orderly_term limit e).bind fun _ f _ => .pure _ limit f
        refine reaches_if_eat (fun e he => reaches_behind hd he ?_) fun _ => ?_
        · exact (orderly_set limit e).bind fun _ f _ => .pure _ limit f
        refine reaches_if_eat (fun e he => reaches_behind hd he ?_) fun _ => ?_
        · refine (orderly_expect _ limit e).bind fun _ e _ => ?_
          exact (orderly_set limit e).bind fun _ f _ => .pure _ limit f
        exact .matched (matches_pure.mpr ⟨rfl, rfl⟩) hd
  · refine .matched (matches_comparison_of_derives h hreads fun x hx => ?_) hd
    exact absurd ⟨x, hx⟩ hpresent

theorem reaches_whole_chain {operator : Symbol} {join : Predicate → Predicate → Predicate}
    {operand : Rule Predicate} (hoperand : ∀ c, operand.OrderlyAt limit c)
    (h : operand.Reaches limit c d d.skipSpaces.left) :
    (chain operator join operand).Reaches limit c d d.skipSpaces.left := by
  rw [chain_eq]
  refine h.bind fun p e hle => reaches_if_eat (fun f hnext => ?_) fun _ => ?_
  · exact reaches_behind hle hnext ((orderly_chain hoperand f).map _)
  · exact .matched (matches_pure.mpr ⟨rfl, rfl⟩) hle

/-- Behind a whole phrase the rule of a layer ends, or it has read another token before it
fails. -/
theorem reaches_whole_of_derives {layer : Layer} {p : Predicate} {ts : List Token}
    (h : Derives layer p ts) (hreads : Reads c.rest ts d.rest) :
    (layer.rule (inside limit)).Reaches limit c d d.skipSpaces.left := by
  induction h generalizing c with
  | comparison nots h hfirst =>
      obtain ⟨e, hnots, hreads⟩ := reads_append_iff.mp hreads
      obtain ⟨t, ws, x, rfl, ht⟩ := h.exists_cons
      obtain ⟨e', hnext, -⟩ := reads_cons_iff.mp hreads
      have hstop : Symbol.not.take? e = none := by
        refine Symbol.take?_eq_none_of_next hnext ?_
        intro heq
        exact hfirst (congrArg some heq)
      have hoperand : (comparison <|> group (inside limit)).Reaches limit e d d.skipSpaces.left :=
        (reaches_whole_comparison h hreads).orElse (group_fails hnext ht)
      exact .bind_of_matches (matches_eatAll.mpr ⟨hnots, hstop⟩) (hoperand.bind_pure _)
  | @group nots p ts h _ =>
      obtain ⟨e, hnots, hreads⟩ := reads_append_iff.mp hreads
      obtain ⟨e', hopen, hreads⟩ := reads_cons_iff.mp hreads
      obtain ⟨f, hinside, hclose⟩ := reads_append_iff.mp hreads
      rw [reads_singleton_iff] at hclose
      have hstop : Symbol.not.take? e = none :=
        Symbol.take?_eq_none_of_next hopen (by decide)
      have hyields : (inside limit).deeper.Yields limit (nesting ts + 1) e' p f :=
        yields_inside_of_derives h hinside hclose
      have hgroup := yields_group hopen hyields hclose
      exact .of_yields (yields_negation hnots hstop hgroup) (Cursor.le_refl d)
  | negation _ ih => exact reaches_whole_chain (orderly_rule .negation limit) (ih hreads)
  | conjunction _ ih => exact reaches_whole_chain (orderly_rule .conjunction limit) (ih hreads)
  | and left right _ ihr =>
      obtain ⟨e, hleft, hreads⟩ := reads_append_iff.mp hreads
      obtain ⟨e', hand, hright⟩ := reads_cons_iff.mp hreads
      have he : Layer.negation.EndsAt e := Layer.endsAt_of_next hand (by decide)
      exact reaches_chain_of_next (yields_of_derives left hleft he) hand (ihr hright)
  | or left right _ ihr =>
      obtain ⟨e, hleft, hreads⟩ := reads_append_iff.mp hreads
      obtain ⟨e', hor, hright⟩ := reads_cons_iff.mp hreads
      have he : Layer.conjunction.EndsAt e := Layer.endsAt_of_next hor (by decide)
      exact reaches_chain_of_next (yields_of_derives left hleft he) hor (ihr hright)

end PredicateLanguage.Grammar
