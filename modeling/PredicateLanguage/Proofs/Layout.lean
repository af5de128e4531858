import PredicateLanguage.Proofs.Alignment
import PredicateLanguage.Proofs.Orderly
import PredicateLanguage.Proofs.Recognition

/-!
# Spaces between tokens

How many spaces stand between the tokens of a text makes no difference to what is said of it.  Two
texts of the same tokens are read as the same predicate or refused for the same reason, and errors
point at the same token.  All rules of the grammar are steady, since they look at the text by the
rules for tokens only.
-/

namespace PredicateLanguage

namespace Grammar

open Rule

/-! ## Rules of the grammar -/

theorem steady_term : term.Steady :=
  (steady_identifier.map Term.var).orElse (steady_literal.map Term.literal)

theorem steady_setMembers : setMembers.Steady :=
  ((steady_separated steady_literal).map _).orElse (.pure [])

theorem steady_set : set.Steady := by
  rw [set]
  refine (steady_expect _).bind fun _ => steady_setMembers.bind fun members => ?_
  exact (steady_expect _).bind fun _ => .pure _

theorem steady_comparison : comparison.Steady := by
  rw [comparison]
  refine steady_term.bind fun left => ?_
  refine steady_if_eat (steady_term.bind fun right => .pure _) ?_
  refine steady_if_eat (steady_term.bind fun right => .pure _) ?_
  refine steady_if_eat (steady_set.bind fun members => .pure _) ?_
  refine steady_if_eat ((steady_expect _).bind fun _ => ?_) (.pure _)
  exact steady_set.bind fun members => .pure _

variable {inner : Rule Predicate}

theorem steady_group (h : inner.deeper.Steady) : (group inner).Steady := by
  rw [group]
  refine (steady_expect _).bind fun _ => h.bind fun p => ?_
  exact (steady_expect _).bind fun _ => .pure p

theorem steady_negation (h : inner.deeper.Steady) : (negation inner).Steady := by
  rw [negation]
  refine (steady_eatAll _).bind fun nots => ?_
  exact (steady_comparison.orElse (steady_group h)).bind fun p => .pure _

theorem steady_chain {operator : Symbol} {join : Predicate → Predicate → Predicate}
    {operand : Rule Predicate} (h : operand.Steady) : (chain operator join operand).Steady :=
  (steady_separated h).map _

theorem steady_disjunction (h : inner.deeper.Steady) : (disjunction inner).Steady :=
  steady_chain (steady_chain (steady_negation h))

theorem steady_expression (limit : Nat) : (expression limit).Steady := by
  induction limit with
  | zero => exact steady_disjunction Steady.failure.deeper
  | succ limit ih => exact steady_disjunction ih.deeper

end Grammar

/-! ## Places of errors -/

/-- Behind the tokens `front` and spaces, the token `t` starts at the offset of the text. -/
def TokenAt (text : String) (front : List Token) (t : Token) (offset : Nat) : Prop :=
  ∃ before rest tail, text.toList = before ++ rest.dropWhile isSpace ∧
    utf8Length before = offset ∧ Reads text.toList front rest ∧
    Starts (rest.dropWhile isSpace) t tail

/-- At the two offsets the same token starts, counted from the left, or both texts end. -/
inductive SameOffset (text text' : String) : Nat → Nat → Prop
  | token {front : List Token} {t : Token} {k k' : Nat} (h : TokenAt text front t k)
      (h' : TokenAt text' front t k') : SameOffset text text' k k'
  | ends : SameOffset text text' (utf8Length text.toList) (utf8Length text'.toList)

/-- The same predicate is read from two texts, or they are refused for the same reason and at the
same token. -/
inductive SameOutcome (text text' : String) :
    Except SyntaxError Predicate → Except SyntaxError Predicate → Prop
  | read (p : Predicate) : SameOutcome text text' (.ok p) (.ok p)
  | tooDeep (limit : Nat) :
      SameOutcome text text' (.error (.tooDeep limit)) (.error (.tooDeep limit))
  | unexpected {k k' : Nat} (found found' : Found) (h : SameOffset text text' k k') :
      SameOutcome text text' (.error (.unexpected k found)) (.error (.unexpected k' found'))
  | trailing {k k' : Nat} (found found' : Found) (h : SameOffset text text' k k') :
      SameOutcome text text' (.error (.trailing k found)) (.error (.trailing k' found'))

variable {text text' : String} {d e e' : Cursor} {t : Token} {ts us vs : List Token}

theorem tokenAt_of_reads (hus : Reads text.toList us d.rest) (hvs : Tokenizes d.rest (t :: vs)) :
    TokenAt text us t (utf8Length text.toList - d.skipSpaces.left) := by
  obtain ⟨e, hnext, -⟩ := tokenizes_rest_cons_iff.mp hvs
  obtain ⟨before, hbefore⟩ : d.rest.dropWhile isSpace <:+ text.toList :=
    (List.dropWhile_suffix isSpace).trans hus.suffix
  refine ⟨before, d.rest, e.rest, hbefore.symm, ?_, hus, hnext⟩
  rw [← hbefore, utf8Length_append, d.skipSpaces.left_eq, Cursor.rest_skipSpaces,
    Nat.add_sub_cancel]

theorem atEnd_skipSpaces_of_tokenizes (h : Tokenizes d.rest vs) :
    d.skipSpaces.atEnd = vs.isEmpty := by
  cases vs with
  | nil => exact atEnd_skipSpaces_iff.mpr (tokenizes_nil_iff.mp h)
  | cons t vs =>
      obtain ⟨e, hnext, -⟩ := tokenizes_rest_cons_iff.mp h
      rw [Cursor.atEnd, Cursor.rest_skipSpaces, List.isEmpty_cons, List.isEmpty_eq_false_iff]
      exact hnext.text_ne_nil

theorem Cursor.left_eq_zero (h : d.atEnd = true) : d.left = 0 := by
  rw [d.left_eq, List.isEmpty_iff.mp h, utf8Length_nil]

namespace SamePlace

theorem atEnd_eq {text text' : List Char} (h : SamePlace text text' e e') :
    e.atEnd = e'.atEnd := by
  obtain ⟨d, d', ⟨us, vs, ⟨-, hvs⟩, -, hvs'⟩, rfl, rfl⟩ := h
  rw [atEnd_skipSpaces_of_tokenizes hvs, atEnd_skipSpaces_of_tokenizes hvs']

/-- The offset of a place is that of the token that follows it, or of the end of the text. -/
theorem sameOffset (h : SamePlace text.toList text'.toList e e') :
    SameOffset text text' (utf8Length text.toList - e.left)
      (utf8Length text'.toList - e'.left) := by
  obtain ⟨d, d', ⟨us, vs, ⟨hus, hvs⟩, hus', hvs'⟩, rfl, rfl⟩ := h
  cases vs with
  | nil =>
      rw [Cursor.left_eq_zero (atEnd_skipSpaces_of_tokenizes hvs),
        Cursor.left_eq_zero (atEnd_skipSpaces_of_tokenizes hvs')]
      exact .ends
  | cons t vs => exact .token (tokenAt_of_reads hus hvs) (tokenAt_of_reads hus' hvs')

end SamePlace

/-! ## Texts -/

open Grammar in
/-- Texts of the same tokens are read as the same predicate, or refused for the same reason and at
the same token, whatever spaces stand before, between and behind their tokens. -/
theorem parse_same_of_tokens (h : Tokenizes text.toList ts) (h' : Tokenizes text'.toList ts)
    (limit : Nat) :
    SameOutcome text text' (Predicate.parse text limit) (Predicate.parse text' limit) := by
  have halike := (steady_expression limit).alike (Aligned.start h h')
  have hsame : (expression limit).levelsAt (.start text.toList) =
      (expression limit).levelsAt (.start text'.toList) := halike.marks.levels
  by_cases hlevels : limit < (expression limit).levelsAt (.start text.toList)
  · rw [parse_of_levels hlevels, parse_of_levels (hsame ▸ hlevels)]
    exact .tooDeep limit
  have hkeeps := Nat.le_of_not_lt hlevels
  rcases (expression limit).matches_or_fails (.start text.toList) with ⟨p, d, hp⟩ | hfails
  · obtain ⟨d', hp', hd⟩ := halike.exists_matches hp
    rw [parse_eq_of_matches hp, parse_eq_of_matches hp', hd.samePlace.atEnd_eq]
    split
    · exact .read p
    · exact .trailing _ _ hd.samePlace.sameOffset
  · obtain ⟨e, hmiss⟩ := Option.ne_none_iff_exists'.mp
      ((orderly_expression limit _).loud hfails hkeeps)
    obtain ⟨e', hmiss', hplace⟩ := halike.exists_missAt hmiss
    rw [parse_eq_of_fails hkeeps hfails hmiss,
      parse_eq_of_fails (hsame ▸ hkeeps) (halike.fails hfails) hmiss']
    exact .unexpected _ _ hplace.sameOffset

/-- In both texts the operand behind `and` is missing at the parenthesis, although it stands at
another offset.  The spaces inside the quotes are part of a token. -/
theorem parse_same_of_tokens_dangling :
    SameOutcome "(a  or 'b  c'and )" "( a or\t'b  c' and\n) "
        (.error (.unexpected 17 (.input ")"))) (.error (.unexpected 18 (.input ") "))) ∧
      Predicate.parse "(a  or 'b  c'and )" 1 = .error (.unexpected 17 (.input ")")) ∧
      Predicate.parse "( a or\t'b  c' and\n) " 1 = .error (.unexpected 18 (.input ") ")) := by
  let ts := [Symbol.openParen.token, .word "a", Symbol.or.token, .quoted "b  c",
    Symbol.and.token, Symbol.closeParen.token]
  have htokens : Tokenizes "(a  or 'b  c'and )".toList ts := by
    refine ⟨[], ?_, by simp⟩
    refine .cons ⟨rfl, by decide, trivial⟩ ?_
    refine .cons ⟨rfl, by decide, rfl⟩ ?_
    refine .cons ⟨rfl, by decide, rfl⟩ ?_
    refine .cons ⟨rfl, by decide, trivial⟩ ?_
    refine .cons ⟨rfl, by decide, rfl⟩ ?_
    refine .cons ⟨rfl, by decide, trivial⟩ ?_
    exact .nil _
  have htokens' : Tokenizes "( a or\t'b  c' and\n) ".toList ts := by
    refine ⟨[' '], ?_, List.forall_mem_singleton.mpr rfl⟩
    refine .cons ⟨rfl, by decide, trivial⟩ ?_
    refine .cons ⟨rfl, by decide, rfl⟩ ?_
    refine .cons ⟨rfl, by decide, rfl⟩ ?_
    refine .cons ⟨rfl, by decide, trivial⟩ ?_
    refine .cons ⟨rfl, by decide, rfl⟩ ?_
    refine .cons ⟨rfl, by decide, trivial⟩ ?_
    exact .nil _
  have hparse : Predicate.parse "(a  or 'b  c'and )" 1 =
      .error (.unexpected 17 (.input ")")) := by decide +kernel
  have hparse' : Predicate.parse "( a or\t'b  c' and\n) " 1 =
      .error (.unexpected 18 (.input ") ")) := by decide +kernel
  have hsame := parse_same_of_tokens htokens htokens' 1
  rw [hparse, hparse'] at hsame
  exact ⟨hsame, hparse, hparse'⟩

end PredicateLanguage
