import PredicateLanguage.Proofs.Parentheses
import PredicateLanguage.Proofs.RoundTrip

/-!
# The fewest parentheses

No text of a predicate has fewer parentheses than its canonical text, and in none of them do they
nest less deep.  The parentheses are counted in the characters of a text, where those between
quotes do not count.
-/

namespace PredicateLanguage

/-- What stands outside quotes in a text that is entered between quotes or outside of them. -/
def outsideQuotes (quoted : Bool) : List Char → List Char
  | [] => []
  | c :: cs =>
      if c = Grammar.quote then outsideQuotes (!quoted) cs
      else if quoted then outsideQuotes true cs
      else c :: outsideQuotes false cs

/-- How many pairs of parentheses a text has outside quotes, told from those that open. -/
def parenthesisPairs (text : String) : Nat :=
  (outsideQuotes false text.toList).count '('

variable {x : Char} {s : Symbol} {cs text rest tail : List Char} {t : Token} {ts : List Token}

/-! ## Characters outside quotes -/

theorem outsideQuotes_append (h : Grammar.quote ∉ cs) (rest : List Char) :
    outsideQuotes false (cs ++ rest) = cs ++ outsideQuotes false rest := by
  induction cs with
  | nil => rfl
  | cons c cs ih =>
      obtain ⟨hc, hcs⟩ := not_or.mp (List.mem_cons.not.mp h)
      rw [List.cons_append, outsideQuotes, if_neg (Ne.symm hc), if_neg Bool.false_ne_true, ih hcs,
        List.cons_append]

/-- What stands up to the next quote is left out. -/
theorem outsideQuotes_quoted (h : Grammar.quote ∉ cs) (rest : List Char) :
    outsideQuotes true (cs ++ Grammar.quote :: rest) = outsideQuotes false rest := by
  induction cs with
  | nil =>
      rw [List.nil_append, outsideQuotes, if_pos rfl]
      rfl
  | cons c cs ih =>
      obtain ⟨hc, hcs⟩ := not_or.mp (List.mem_cons.not.mp h)
      rw [List.cons_append, outsideQuotes, if_neg (Ne.symm hc), if_pos rfl]
      exact ih hcs

theorem count_outsideQuotes_neutral (hx : ¬IsNeutral x) (h : ∀ c ∈ cs, IsNeutral c)
    (rest : List Char) :
    (outsideQuotes false (cs ++ rest)).count x = (outsideQuotes false rest).count x := by
  have hquote : Grammar.quote ∉ cs := fun hmem => (h _ hmem).1 rfl
  have hcount : cs.count x = 0 := List.count_eq_zero.mpr fun hmem => hx (h x hmem)
  rw [outsideQuotes_append hquote, List.count_append, hcount, Nat.zero_add]

/-! ## Parentheses among tokens -/

/-- The symbol is a parenthesis, and `x` is its character. -/
def Symbol.IsParenthesis (s : Symbol) (x : Char) : Prop :=
  s = .openParen ∧ x = '(' ∨ s = .closeParen ∧ x = ')'

namespace Symbol.IsParenthesis

theorem weighs_count (hs : s.IsParenthesis x) : Weighs (· + ·) (List.count s.token) :=
  PredicateLanguage.weighs_count (hs.imp And.left And.left)

theorem not_isNeutral (hs : s.IsParenthesis x) : ¬IsNeutral x := by
  rcases hs with ⟨-, rfl⟩ | ⟨-, rfl⟩
  · decide
  · decide

/-- The character stands in no other mark. -/
theorem count_text (hs : s.IsParenthesis x) (m : Symbol) :
    m.text.toList.count x = [Token.mark m].count s.token := by
  rcases hs with ⟨rfl, rfl⟩ | ⟨rfl, rfl⟩
  · cases m <;> decide
  · cases m <;> decide

end Symbol.IsParenthesis

theorem Symbol.quote_not_mem_text (m : Symbol) : Grammar.quote ∉ m.text.toList := by
  cases m <;> decide

/-- One counts the same parentheses by the characters of a token as by the token. -/
theorem Starts.count_outsideQuotes (h : Starts text t rest) (hs : s.IsParenthesis x) :
    (outsideQuotes false text).count x =
      [t].count s.token + (outsideQuotes false rest).count x := by
  rw [h.eq]
  cases t with
  | word w =>
      have hword : ∀ c ∈ w.toList, IsNeutral c := fun c hc => isNeutral_of_isWord (h.proper.2 c hc)
      have hlevel : [Token.word w].count s.token = 0 :=
        hs.weighs_count.level (Level.nil.cons fun _ => rfl)
      rw [hlevel, Nat.zero_add]
      exact count_outsideQuotes_neutral hs.not_isNeutral hword rest
  | quoted value =>
      have hlevel : [Token.quoted value].count s.token = 0 :=
        hs.weighs_count.level (Level.nil.cons fun _ => rfl)
      rw [hlevel, Nat.zero_add, Token.spelling, List.append_assoc, List.cons_append,
        outsideQuotes, if_pos rfl]
      exact congrArg (List.count x) (outsideQuotes_quoted h.proper rest)
  | mark m =>
      rw [Token.spelling, outsideQuotes_append m.quote_not_mem_text, List.count_append,
        hs.count_text m]

theorem Reads.count_outsideQuotes (h : Reads text ts tail) (htail : ∀ c ∈ tail, isSpace c = true)
    (hs : s.IsParenthesis x) : (outsideQuotes false text).count x = ts.count s.token := by
  induction h with
  | nil text =>
      have hspaces : ∀ c ∈ text, IsNeutral c := fun c hc => isNeutral_of_isSpace (htail c hc)
      have hcount := count_outsideQuotes_neutral hs.not_isNeutral hspaces []
      rwa [List.append_nil] at hcount
  | @cons text rest tail t ts first _ ih =>
      have hspaces : ∀ c ∈ text.takeWhile isSpace, IsNeutral c :=
        fun c hc => isNeutral_of_isSpace (List.mem_takeWhile_imp hc)
      have hskip := count_outsideQuotes_neutral hs.not_isNeutral hspaces (text.dropWhile isSpace)
      rw [List.takeWhile_append_dropWhile] at hskip
      rw [hskip, first.count_outsideQuotes hs, ih htail, ← List.count_append,
        List.singleton_append]

namespace Tokenizes

variable {text : String}

theorem parenthesisPairs_eq (h : Tokenizes text.toList ts) :
    parenthesisPairs text = ts.count Symbol.openParen.token := by
  obtain ⟨tail, hreads, htail⟩ := h
  exact hreads.count_outsideQuotes htail (.inl ⟨rfl, rfl⟩)

/-- In the text of a predicate, as many parentheses close as open. -/
theorem count_close_eq {p : Predicate} (h : Tokenizes text.toList ts)
    (hderives : Derives .disjunction p ts) :
    (outsideQuotes false text.toList).count ')' = parenthesisPairs text := by
  have hopen : Weighs (· + ·) (List.count Symbol.openParen.token) := weighs_count (.inl rfl)
  have hclose : Weighs (· + ·) (List.count Symbol.closeParen.token) := weighs_count (.inr rfl)
  rw [h.parenthesisPairs_eq, hopen.unique hclose hderives]
  obtain ⟨tail, hreads, htail⟩ := h
  exact hreads.count_outsideQuotes htail (.inr ⟨rfl, rfl⟩)

end Tokenizes

/-! ## Canonical texts -/

/-- The canonical text of a predicate that was read from a text has no more pairs of parentheses
than the text, and they nest no deeper.  In both of them every parenthesis belongs to a pair. -/
theorem parentheses_canonical_le {text : String} {limit : Nat} {p : Predicate}
    (h : Predicate.parse text limit = .ok p) :
    parenthesisPairs p.canonical ≤ parenthesisPairs text ∧
      parenthesisDepth p.canonical ≤ parenthesisDepth text ∧
      (outsideQuotes false p.canonical.toList).count ')' = parenthesisPairs p.canonical ∧
      (outsideQuotes false text.toList).count ')' = parenthesisPairs text := by
  obtain ⟨hp, -⟩ := wellFormed_of_parse h
  obtain ⟨ts, htokens, hderives, -⟩ := exists_derives_of_parse h
  have hcanonical : Tokenizes p.canonical.toList p.tokens := Predicate.tokenizes_canonical hp
  have hcount : Weighs (· + ·) (List.count Symbol.openParen.token) := weighs_count (.inl rfl)
  refine ⟨?_, ?_, ?_, ?_⟩
  · rw [hcanonical.parenthesisPairs_eq, htokens.parenthesisPairs_eq, hcount.size_tokens hp]
    exact hcount.weight_le hderives
  · rw [hcanonical.parenthesisDepth_eq, htokens.parenthesisDepth_eq, Predicate.nesting_tokens hp]
    exact hderives.depth_le_nesting
  · exact hcanonical.count_close_eq (Predicate.derives_tokens hp rfl)
  · exact htokens.count_close_eq hderives

/-- Of five pairs, one is left.  Those between quotes do not count. -/
theorem parentheses_canonical_le_nested :
    let p := Predicate.and
      (.or (.present (.var "a")) (.present (.literal "(("))) (.present (.var "c"))
    Predicate.parse "((a or ('((')) and ((c)))" 3 = .ok p ∧ p.canonical = "(a or '((') and c" ∧
      parenthesisPairs p.canonical = 1 ∧ parenthesisPairs "((a or ('((')) and ((c)))" = 5 ∧
      parenthesisPairs p.canonical ≤ parenthesisPairs "((a or ('((')) and ((c)))" ∧
      parenthesisDepth p.canonical ≤ parenthesisDepth "((a or ('((')) and ((c)))" := by
  intro p
  have h : Predicate.parse "((a or ('((')) and ((c)))" 3 = .ok p := by decide +kernel
  obtain ⟨hpairs, hdepth, -⟩ := parentheses_canonical_le h
  exact ⟨h, by decide +kernel, by decide +kernel, by decide +kernel, hpairs, hdepth⟩

end PredicateLanguage
