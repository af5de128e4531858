import PredicateLanguage.Proofs.Completeness
import PredicateLanguage.Proofs.Readers

/-!
# Which texts are predicates

A text is read as a predicate exactly if it can be cut into tokens from which the grammar
derives that predicate, and the parentheses among them nest no deeper than the limit.  A
text that only nests too deep is refused for that reason and for no other.
-/

namespace PredicateLanguage

open Grammar

variable {text : String} {limit : Nat} {p q : Predicate} {ts : List Token}

/-- Only spaces are left exactly if the end is reached behind them. -/
theorem atEnd_skipSpaces_iff {c : Cursor} :
    c.skipSpaces.atEnd = true ↔ ∀ x ∈ c.rest, isSpace x = true := by
  rw [Cursor.atEnd, Cursor.rest_skipSpaces, List.isEmpty_iff, List.dropWhile_eq_nil_iff]

theorem endsAt_of_spaces {layer : Layer} {c : Cursor} (h : ∀ x ∈ c.rest, isSpace x = true) :
    layer.EndsAt c :=
  fun _ _ => Symbol.take?_eq_none_iff.mpr fun _ => not_starts_of_spaces h

/-! ## From the rule for expressions to whole texts -/

theorem parse_of_levels (h : limit < (expression limit).levelsAt (.start text.toList)) :
    Predicate.parse text limit = .error (.tooDeep limit) := by
  have hlevels := lt_of_lt_of_le h (Nat.le_max_right 0 _)
  exact congrArg Prod.fst (Reader.readPredicate_of_refused (r := .ofText text limit) hlevels)

theorem parse_of_fails (h : (expression limit).Fails (.start text.toList)) :
    Predicate.parse text limit ≠ .ok p := by
  by_cases hlevels : limit < (expression limit).levelsAt (.start text.toList)
  · rw [parse_of_levels hlevels]
    exact nofun
  · have hlimit := Nat.max_le.mpr ⟨Nat.zero_le limit, Nat.le_of_not_lt hlevels⟩
    rw [Predicate.parse, Reader.readPredicate_of_fails (r := .ofText text limit) hlimit h]
    exact nofun

/-- Where no expression is read, the error is at the furthest place that was marked. -/
theorem parse_eq_of_fails (hlevels : (expression limit).levelsAt (.start text.toList) ≤ limit)
    (h : (expression limit).Fails (.start text.toList)) {e : Cursor}
    (hmiss : (expression limit).missAt (.start text.toList) = some e) :
    Predicate.parse text limit =
      .error (.unexpected (utf8Length text.toList - e.left) (.ahead e)) := by
  have hlimit := Nat.max_le.mpr ⟨Nat.zero_le limit, hlevels⟩
  have hfurthest : (Reader.ofText text limit).readExpression.2.furthest = e := by
    rw [Reader.furthest_readExpression_of_some hmiss]
    exact Cursor.later_of_le (Rule.le_of_missAt hmiss)
  rw [Predicate.parse, Reader.readPredicate_of_fails (r := .ofText text limit) hlimit h,
    Reader.furthestOffset, hfurthest]
  rfl

/-- An expression that is read makes a predicate, or text behind it is trailing. -/
theorem parse_eq_of_matches {d : Cursor}
    (h : (expression limit).Matches (.start text.toList) p d) :
    Predicate.parse text limit = if d.skipSpaces.atEnd then .ok p else
      .error (.trailing (utf8Length text.toList - d.skipSpaces.left) (.ahead d.skipSpaces)) := by
  have hlevels := Nat.max_le.mpr ⟨Nat.zero_le limit, within_expression limit _ p d h⟩
  exact congrArg Prod.fst (Reader.readPredicate_of_matches (r := .ofText text limit) hlevels h)

/-- An expression that is read makes a predicate exactly if only spaces follow it. -/
theorem parse_of_matches {d : Cursor}
    (h : (expression limit).Matches (.start text.toList) p d) :
    Predicate.parse text limit = .ok q ↔ p = q ∧ ∀ x ∈ d.rest, isSpace x = true := by
  rw [parse_eq_of_matches h, ← atEnd_skipSpaces_iff]
  cases d.skipSpaces.atEnd with
  | true => simp
  | false => simp

/-! ## Texts and derivations -/

/-- What is read from a text is derived from its tokens, which keep to the limit. -/
theorem exists_derives_of_parse (h : Predicate.parse text limit = .ok p) :
    ∃ ts, Tokenizes text.toList ts ∧ Derives .disjunction p ts ∧ nesting ts ≤ limit := by
  rcases (expression limit).matches_or_fails (.start text.toList) with ⟨q, d, hq⟩ | hfails
  · obtain ⟨rfl, hspaces⟩ := (parse_of_matches hq).mp h
    obtain ⟨ts, hts, hreads, hnesting⟩ := sound_expression limit _ q d hq
    exact ⟨ts, ⟨d.rest, hreads, hspaces⟩, hts, Nat.le_of_lt_succ hnesting⟩
  · exact absurd h (parse_of_fails hfails)

/-- Derived tokens of a text are read, or are refused for their depth. -/
theorem yields_of_tokenizes (limit : Nat) (htokens : Tokenizes text.toList ts)
    (h : Derives .disjunction p ts) :
    ∃ d : Cursor, (∀ x ∈ d.rest, isSpace x = true) ∧
      (expression limit).Yields limit (nesting ts) (.start text.toList) p d := by
  obtain ⟨tail, hreads, hspaces⟩ := htokens
  refine ⟨.start tail, hspaces, ?_⟩
  rw [expression_eq_disjunction]
  exact yields_of_derives h hreads (endsAt_of_spaces hspaces)

theorem parse_of_derives (htokens : Tokenizes text.toList ts) (h : Derives .disjunction p ts)
    (hnesting : nesting ts ≤ limit) : Predicate.parse text limit = .ok p := by
  obtain ⟨d, hspaces, hyields⟩ := yields_of_tokenizes limit htokens h
  exact (parse_of_matches (hyields.matched hnesting)).mpr ⟨rfl, hspaces⟩

theorem parse_tooDeep_of_derives (htokens : Tokenizes text.toList ts)
    (h : Derives .disjunction p ts) (hnesting : limit < nesting ts) :
    Predicate.parse text limit = .error (.tooDeep limit) := by
  obtain ⟨d, -, hyields⟩ := yields_of_tokenizes limit htokens h
  exact parse_of_levels (hyields.refused hnesting)

/-- Whatever a text is cut into, the grammar derives at most one predicate from it. -/
theorem Derives.unique_of_tokenizes (htokens : Tokenizes text.toList ts)
    (hp : Derives .disjunction p ts) (hq : Derives .disjunction q ts) : p = q := by
  have hp' := parse_of_derives htokens hp (Nat.le_refl _)
  have hq' := parse_of_derives htokens hq (Nat.le_refl _)
  rw [hp'] at hq'
  exact Except.ok.inj hq'

/-- A text is read as a predicate exactly if the grammar derives that predicate from its
tokens and their parentheses nest no deeper than the limit.  If they nest deeper, the text
is refused for this reason. -/
theorem parse_iff_derives (text : String) (limit : Nat) (p : Predicate) :
    (Predicate.parse text limit = .ok p ↔
      ∃ ts, Tokenizes text.toList ts ∧ Derives .disjunction p ts ∧ nesting ts ≤ limit) ∧
    ∀ ts, Tokenizes text.toList ts → Derives .disjunction p ts → limit < nesting ts →
      Predicate.parse text limit = .error (.tooDeep limit) := by
  refine ⟨⟨exists_derives_of_parse, ?_⟩, ?_⟩
  · rintro ⟨ts, htokens, h, hnesting⟩
    exact parse_of_derives htokens h hnesting
  · intro ts htokens h hnesting
    exact parse_tooDeep_of_derives htokens h hnesting

/-- A keyword names a variable inside two pairs of parentheses. -/
theorem parse_grouped_keyword :
    Predicate.parse "not ((and))" 2 = .ok (.not (.present (.var "and"))) ∧
      Predicate.parse "not ((and))" 1 = .error (.tooDeep 1) := by
  let ts := [Symbol.not.token, Symbol.openParen.token, Symbol.openParen.token, .word "and",
    Symbol.closeParen.token, Symbol.closeParen.token]
  have hkeyword : Derives .disjunction (.present (.var "and")) [.word "and"] :=
    .conjunction (.negation (.comparison 0 (.present rfl) (by decide)))
  have hinner := Derives.conjunction (.negation (.group 0 hkeyword))
  have houter : Derives .disjunction (.not (.present (.var "and"))) ts :=
    .conjunction (.negation (.group 1 hinner))
  have htokens : Tokenizes "not ((and))".toList ts := by
    refine ⟨[], ?_, by simp⟩
    refine .cons ⟨rfl, by decide, rfl⟩ ?_
    refine .cons ⟨rfl, by decide, trivial⟩ ?_
    refine .cons ⟨rfl, by decide, trivial⟩ ?_
    refine .cons ⟨rfl, by decide, rfl⟩ ?_
    refine .cons ⟨rfl, by decide, trivial⟩ ?_
    refine .cons ⟨rfl, by decide, trivial⟩ ?_
    exact .nil _
  exact ⟨(parse_iff_derives _ 2 _).1.mpr ⟨ts, htokens, houter, by decide⟩,
    (parse_iff_derives _ 1 _).2 ts htokens houter (by decide)⟩

end PredicateLanguage
