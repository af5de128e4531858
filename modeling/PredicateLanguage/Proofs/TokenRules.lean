import PredicateLanguage.Proofs.Matching
import PredicateLanguage.Proofs.Tokens

/-!
# What the rules for tokens read

A rule for a token looks at the characters behind the cursor.  This module says of each
such rule which token has to stand there for it to match, so that nothing above it has to
look at characters again.
-/

namespace PredicateLanguage

/-- Behind spaces the token `t` comes next at `c`, and it ends at `d`. -/
def Next (c : Cursor) (t : Token) (d : Cursor) : Prop :=
  Starts (c.rest.dropWhile isSpace) t d.rest

theorem Next.unique {c d d' : Cursor} {t t' : Token} (h : Next c t d) (h' : Next c t' d') :
    t = t' ∧ d = d' := by
  obtain ⟨ht, hrest⟩ := Starts.unique h h'
  exact ⟨ht, Cursor.ext hrest⟩

/-- A token takes up some of what follows the spaces. -/
theorem Next.left_lt {c d : Cursor} {t : Token} (h : Next c t d) :
    d.left < c.skipSpaces.left := by
  have hne := t.spelling_ne_nil h.proper
  have hlength := congrArg utf8Length h.eq
  rw [← Cursor.rest_skipSpaces, utf8Length_append, ← Cursor.left_eq, ← Cursor.left_eq] at hlength
  have hpos : 0 < t.spelling.length := List.length_pos_iff.mpr hne
  have hle := length_le_utf8Length t.spelling
  omega

/-- Tokens in a row lead from one cursor to another. -/
theorem reads_cons_iff {c d : Cursor} {t : Token} {ts : List Token} :
    Reads c.rest (t :: ts) d.rest ↔ ∃ e, Next c t e ∧ Reads e.rest ts d.rest := by
  rw [Reads.cons_iff]
  constructor
  · rintro ⟨rest, first, others⟩
    exact ⟨.start rest, first, others⟩
  · rintro ⟨e, first, others⟩
    exact ⟨e.rest, first, others⟩

theorem reads_append_iff {c d : Cursor} {ts us : List Token} :
    Reads c.rest (ts ++ us) d.rest ↔
      ∃ e : Cursor, Reads c.rest ts e.rest ∧ Reads e.rest us d.rest := by
  rw [Reads.append_iff]
  constructor
  · rintro ⟨rest, hts, hus⟩
    exact ⟨.start rest, hts, hus⟩
  · rintro ⟨e, hts, hus⟩
    exact ⟨e.rest, hts, hus⟩

theorem reads_nil_iff {c d : Cursor} : Reads c.rest [] d.rest ↔ d = c := by
  rw [Reads.nil_iff]
  exact ⟨Cursor.ext, congrArg Cursor.rest⟩

theorem reads_singleton_iff {c d : Cursor} {t : Token} :
    Reads c.rest [t] d.rest ↔ Next c t d := by
  rw [reads_cons_iff]
  constructor
  · rintro ⟨e, first, others⟩
    rwa [reads_nil_iff.mp others]
  · intro h
    exact ⟨d, h, .nil d.rest⟩

theorem le_of_reads {c d : Cursor} {ts : List Token} (h : Reads c.rest ts d.rest) : c ≤ d :=
  h.suffix

theorem Next.le {c d : Cursor} {t : Token} (h : Next c t d) : c ≤ d :=
  le_of_reads (reads_singleton_iff.mpr h)

/-! ## Symbols -/

namespace Symbol

theorem take?_eq_some_iff {s : Symbol} {c d : Cursor} :
    s.take? c = some d ↔ Next c s.token d := by
  rw [Next, starts_token_iff]
  constructor
  · intro h
    simp only [take?] at h
    split at h
    · rename_i hopens
      obtain rfl := Option.some.inj h
      simp only [opens, Bool.and_eq_true, Bool.not_eq_true', List.isPrefixOf_iff_prefix,
        Cursor.rest_skipSpaces] at hopens
      obtain ⟨⟨rest, hrest⟩, hends⟩ := hopens
      rw [← hrest, List.drop_left] at hends
      rw [Cursor.rest_advance, Cursor.rest_skipSpaces, ← hrest, List.drop_left]
      exact ⟨rfl, hends⟩
    · contradiction
  · rintro ⟨htext, hends⟩
    have hopens : s.opens c.skipSpaces.rest = true := by
      rw [Cursor.rest_skipSpaces, htext, opens, List.drop_left, hends]
      simp
    have hd : c.skipSpaces.advance s.text.toList.length = d := by
      apply Cursor.ext
      rw [Cursor.rest_advance, Cursor.rest_skipSpaces, htext, List.drop_left]
    simp only [take?]
    rw [if_pos hopens, hd]

theorem take?_eq_none_iff {s : Symbol} {c : Cursor} :
    s.take? c = none ↔ ∀ d, ¬Next c s.token d := by
  rw [Option.eq_none_iff_forall_ne_some]
  constructor
  · intro h d hd
    exact h d (take?_eq_some_iff.mpr hd)
  · intro h d hd
    exact h d (take?_eq_some_iff.mp hd)

/-- Where one token comes next, no symbol of another does. -/
theorem take?_eq_none_of_next {s : Symbol} {c d : Cursor} {t : Token} (h : Next c t d)
    (hne : t ≠ s.token) : s.take? c = none := by
  rw [take?_eq_none_iff]
  intro e he
  exact hne (h.unique he).1

/-- A symbol is taken as often as it stands in a row. -/
theorem takeAll_eq_iff {s : Symbol} {c d : Cursor} {count : Nat} :
    s.takeAll c = (count, d) ↔
      Reads c.rest (List.replicate count s.token) d.rest ∧ s.take? d = none := by
  induction count generalizing c with
  | zero =>
      rw [takeAll_eq, List.replicate_zero, reads_nil_iff]
      cases h : s.take? c with
      | none =>
          constructor
          · intro heq
            obtain rfl : c = d := (Prod.mk.inj heq).2
            exact ⟨rfl, h⟩
          · rintro ⟨rfl, -⟩
            rfl
      | some e =>
          refine iff_of_false (by simp) ?_
          rintro ⟨rfl, hnone⟩
          rw [h] at hnone
          contradiction
  | succ count ih =>
      rw [takeAll_eq, List.replicate_succ, reads_cons_iff]
      cases h : s.take? c with
      | none =>
          refine iff_of_false (by simp) ?_
          rintro ⟨⟨e, he, -⟩, -⟩
          exact take?_eq_none_iff.mp h e he
      | some e =>
          have he : Next c s.token e := take?_eq_some_iff.mp h
          constructor
          · intro heq
            obtain ⟨hcount, hd⟩ := Prod.mk.inj heq
            have htail : s.takeAll e = (count, d) :=
              Prod.ext (Nat.succ.inj hcount) hd
            obtain ⟨hreads, hstop⟩ := ih.mp htail
            exact ⟨⟨e, he, hreads⟩, hstop⟩
          · rintro ⟨⟨e', he', hreads⟩, hstop⟩
            obtain ⟨-, rfl⟩ := he.unique he'
            have htail : s.takeAll e = (count, d) := ih.mpr ⟨hreads, hstop⟩
            simp only [htail]

end Symbol

namespace Grammar

open Rule

theorem matches_eat {s : Symbol} {c d : Cursor} {found : Bool} :
    (eat s).Matches c found d ↔
      found = true ∧ Next c s.token d ∨ found = false ∧ d = c ∧ s.take? c = none := by
  rw [Matches, eat, ← Symbol.take?_eq_some_iff]
  cases h : s.take? c with
  | none => simp [h, eq_comm]
  | some e => simp [h, Attempt.found, eq_comm]

/-- What is read depends on whether a symbol comes next. -/
theorem matches_if_eat {α : Type} {s : Symbol} {r r' : Rule α} {x : α} {c d : Cursor} :
    (eat s >>= fun found => if found = true then r else r').Matches c x d ↔
      (∃ e, Next c s.token e ∧ r.Matches e x d) ∨ s.take? c = none ∧ r'.Matches c x d := by
  rw [matches_bind]
  constructor
  · rintro ⟨found, e, heat, h⟩
    rcases matches_eat.mp heat with ⟨rfl, hnext⟩ | ⟨rfl, rfl, hnone⟩
    · exact Or.inl ⟨e, hnext, h⟩
    · exact Or.inr ⟨hnone, h⟩
  · rintro (⟨e, hnext, h⟩ | ⟨hnone, h⟩)
    · exact ⟨true, e, matches_eat.mpr (Or.inl ⟨rfl, hnext⟩), h⟩
    · exact ⟨false, c, matches_eat.mpr (Or.inr ⟨rfl, rfl, hnone⟩), h⟩

theorem matches_expect {s : Symbol} {c d : Cursor} {u : Unit} :
    (expect s).Matches c u d ↔ Next c s.token d := by
  rw [expect, matches_if_eat]
  constructor
  · rintro (⟨e, hnext, h⟩ | ⟨-, h⟩)
    · obtain ⟨-, rfl⟩ := matches_pure.mp h
      exact hnext
    · exact absurd h not_matches_failure
  · intro h
    exact Or.inl ⟨d, h, matches_pure.mpr ⟨rfl, rfl⟩⟩

theorem matches_eatAll {s : Symbol} {c d : Cursor} {count : Nat} :
    (eatAll s).Matches c count d ↔
      Reads c.rest (List.replicate count s.token) d.rest ∧ s.take? d = none := by
  rw [← Symbol.takeAll_eq_iff, Matches, eatAll]
  simp only [Option.some.injEq]

/-! ## Names and literals -/

/-- Letters are word characters, so the first of a text and of its first word are alike. -/
theorem alpha_head_takeWhile (text : List Char) :
    (text.takeWhile isWord).head?.any Char.isAlpha = text.head?.any Char.isAlpha := by
  cases text with
  | nil => rfl
  | cons c cs =>
      by_cases hc : isWord c = true
      · simp [hc]
      · have halpha : c.isAlpha = false := by
          by_contra h
          exact hc (isWord_of_isAlpha (by simpa using h))
        simp [hc, halpha]

theorem word_head_of_alpha_head {text : List Char}
    (h : text.head?.any Char.isAlpha = true) : text.head?.any isWord = true := by
  cases text with
  | nil => contradiction
  | cons c cs => exact isWord_of_isAlpha (by simpa using h)

/-- A name is read where a word comes next that starts with a letter. -/
theorem matches_identifier {c d : Cursor} {name : String} :
    identifier.Matches c name d ↔
      Next c (.word name) d ∧ name.toList.head?.any Char.isAlpha = true := by
  rw [Matches, Next, starts_word_iff, identifier]
  simp only [Cursor.rest_skipSpaces]
  generalize htext : c.rest.dropWhile isSpace = text
  by_cases halpha : text.head?.any Char.isAlpha = true
  · rw [if_pos halpha]
    constructor
    · intro h
      obtain ⟨rfl, rfl⟩ := Prod.mk.inj (Option.some.inj h)
      rw [String.toList_ofList, alpha_head_takeWhile]
      refine ⟨⟨word_head_of_alpha_head halpha, rfl, ?_⟩, halpha⟩
      rw [Cursor.rest_dropWhile, Cursor.rest_skipSpaces, htext]
    · rintro ⟨⟨-, rfl, hrest⟩, -⟩
      have hd : c.skipSpaces.dropWhile isWord = d := by
        apply Cursor.ext
        rw [Cursor.rest_dropWhile, Cursor.rest_skipSpaces, htext, hrest]
      rw [hd]
      rfl
  · rw [if_neg halpha]
    refine iff_of_false (by simp [Attempt.missing]) ?_
    rintro ⟨⟨-, rfl, -⟩, hname⟩
    rw [String.toList_ofList, alpha_head_takeWhile] at hname
    exact halpha hname

/-- What stands behind the opening quote, up to the closing one if there is one. -/
theorem dropWhile_quote_cases (inside : List Char) :
    inside.dropWhile (· ≠ quote) = [] ∨
      ∃ rest, inside.dropWhile (· ≠ quote) = quote :: rest := by
  have hstop := head_dropWhile (fun c => decide (c ≠ quote)) inside
  cases h : inside.dropWhile (fun c => decide (c ≠ quote)) with
  | nil => exact Or.inl rfl
  | cons x rest =>
      rw [h] at hstop
      obtain rfl : x = quote := by simpa using hstop
      exact Or.inr ⟨rest, rfl⟩

/-- A literal that opens with a quote needs a closing one. -/
theorem matches_literal_of_quote {c : Cursor} {inside : List Char}
    (h : c.rest.dropWhile isSpace = quote :: inside) (value : String) (d : Cursor) :
    literal.Matches c value d ↔
      value = String.ofList (inside.takeWhile (· ≠ quote)) ∧
        inside.dropWhile (· ≠ quote) = quote :: d.rest := by
  have hinside : (c.skipSpaces.advance 1).rest = inside := by
    rw [Cursor.rest_advance, Cursor.rest_skipSpaces, h]
    rfl
  have hclosing : ((c.skipSpaces.advance 1).dropWhile (· ≠ quote)).rest =
      inside.dropWhile (· ≠ quote) := by
    rw [Cursor.rest_dropWhile, hinside]
  rw [Matches, literal]
  simp only [Cursor.rest_skipSpaces, h, List.head?_cons, if_true, Cursor.atEnd, hclosing, hinside]
  rcases dropWhile_quote_cases inside with hnil | ⟨rest, hrest⟩
  · rw [hnil, if_pos List.isEmpty_nil]
    exact iff_of_false (by simp [Attempt.missing]) (by simp)
  · rw [hrest, if_neg (by simp)]
    constructor
    · intro heq
      obtain ⟨rfl, rfl⟩ := Prod.mk.inj (Option.some.inj heq)
      rw [Cursor.rest_advance, hclosing, hrest]
      exact ⟨rfl, rfl⟩
    · rintro ⟨rfl, heq⟩
      have hd : ((c.skipSpaces.advance 1).dropWhile (· ≠ quote)).advance 1 = d := by
        apply Cursor.ext
        rw [Cursor.rest_advance, hclosing, hrest, heq]
        rfl
      rw [hd]
      rfl

/-- A literal that does not open with a quote is a word. -/
theorem matches_literal_of_not_quote {c : Cursor}
    (h : (c.rest.dropWhile isSpace).head? ≠ some quote) (value : String) (d : Cursor) :
    literal.Matches c value d ↔ Next c (.word value) d := by
  rw [Matches, literal, Next, starts_word_iff]
  simp only [Cursor.rest_skipSpaces]
  rw [if_neg h]
  generalize htext : c.rest.dropWhile isSpace = text
  by_cases hword : text.head?.any isWord = true
  · rw [if_pos hword]
    constructor
    · intro heq
      obtain ⟨rfl, rfl⟩ := Prod.mk.inj (Option.some.inj heq)
      rw [Cursor.rest_dropWhile, Cursor.rest_skipSpaces, htext]
      exact ⟨hword, rfl, rfl⟩
    · rintro ⟨-, rfl, hrest⟩
      have hd : c.skipSpaces.dropWhile isWord = d := by
        apply Cursor.ext
        rw [Cursor.rest_dropWhile, Cursor.rest_skipSpaces, htext, hrest]
      rw [hd]
      rfl
  · rw [if_neg hword]
    refine iff_of_false (by simp [Attempt.missing]) ?_
    rintro ⟨hhead, -⟩
    exact hword hhead

/-- A literal is read where a word or a quoted text comes next. -/
theorem matches_literal {c d : Cursor} {value : String} :
    literal.Matches c value d ↔ Next c (.word value) d ∨ Next c (.quoted value) d := by
  by_cases hquote : (c.rest.dropWhile isSpace).head? = some quote
  · obtain ⟨inside, htext⟩ : ∃ inside, c.rest.dropWhile isSpace = quote :: inside :=
      List.head?_eq_some_iff.mp hquote
    have hnoword : ¬Next c (.word value) d := by
      intro hword
      obtain ⟨v, hv⟩ := (Starts.quote_head_iff hword).mp hquote
      contradiction
    rw [or_iff_right hnoword, matches_literal_of_quote htext, Next, starts_quoted_iff, htext]
    constructor
    · rintro ⟨hvalue, hrest⟩
      exact ⟨inside, rfl, hvalue, hrest⟩
    · rintro ⟨inside', heq, hvalue, hrest⟩
      obtain rfl : inside = inside' := (List.cons.inj heq).2
      exact ⟨hvalue, hrest⟩
  · have hnoquoted : ¬Next c (.quoted value) d := by
      intro hquoted
      exact hquote ((Starts.quote_head_iff hquoted).mpr ⟨value, rfl⟩)
    rw [or_iff_left hnoquoted]
    exact matches_literal_of_not_quote hquote value d

end Grammar

end PredicateLanguage
