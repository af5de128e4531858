import PredicateLanguage.Proofs.Fronts
import PredicateLanguage.Proofs.Prefixes
import PredicateLanguage.Proofs.Progress
import PredicateLanguage.Proofs.Recognition

/-!
# What errors point at

An error that gives an offset points at the first place at which the text cannot be a predicate:
what stands in front of it can be completed, and no predicate goes on with the token that stands
there.  The text is trailing exactly if what stands in front of it is a predicate already.
-/

namespace PredicateLanguage

open Grammar

variable {limit k : Nat} {text before rest rest' : List Char} {c d e : Cursor} {t : Token}
  {ts us : List Token}

/-! ## Texts in front of a place -/

theorem tokenizes_before (h : Reads text ts d.rest) (htext : text = before ++ d.skipSpaces.rest) :
    Tokenizes before ts := by
  rw [htext, Cursor.rest_skipSpaces] at h
  exact h.tokenizes_before

namespace Leads

/-- Where a token starts, the tokens in front of it are complete. -/
theorem exists_reads (h : Leads c ts e) (ht : Starts e.rest t rest) :
    ∃ d : Cursor, Reads c.rest ts d.rest ∧ e = d.skipSpaces := by
  cases h with
  | @behind ts d h => exact ⟨d, h, rfl⟩
  | unclosed _ _ _ hend => exact absurd hend ht.text_ne_nil

/-- The text in front of the place that tokens lead to can be continued with any others.  If a
quoted text is open there, it has to be closed first. -/
theorem exists_tail (h : Leads (.start text) ts e) (htext : text = before ++ e.rest)
    (hus : ∀ u ∈ us, u.Proper) : ∃ tail, Tokenizes (before ++ tail) (ts ++ us) := by
  have htail := tokenizes_spaced hus
  cases h with
  | @behind ts d h =>
      rw [Cursor.rest_start, htext, Cursor.rest_skipSpaces] at h
      have hreads := h.exchange fun hword => by
        rw [head_spaced us] at hword
        contradiction
      exact ⟨spaced us, .prepend hreads (htail.behind_spaces fun c => List.mem_takeWhile_imp)⟩
  | @unclosed ts d e inside h hquote hopen hend =>
      rw [hend, List.append_nil] at htext
      obtain ⟨front, hfront, hreads⟩ := h.exists_front
      have hne : d.rest ≠ [] := by
        intro hnil
        rw [hnil] at hquote
        contradiction
      have hclosed : Reads (d.rest ++ quote :: spaced us) [.quoted (String.ofList inside)]
          (spaced us) := by
        refine .cons ⟨?_, ?_, trivial⟩ (.nil _)
        · rw [List.dropWhile_append, hquote]
          simp [Token.spelling]
        · rw [Token.Proper, String.toList_ofList]
          exact hopen
      refine ⟨quote :: spaced us, ?_⟩
      rw [← htext, ← Cursor.rest_start text, hfront, List.append_assoc]
      refine .prepend ((hreads _ ?_).append hclosed) htail
      rw [List.head?_append_of_ne_nil _ hne]
      exact id

end Leads

/-! ## Where reading stops -/

/-- A text that breaks off behind an expression is a predicate. -/
theorem parse_before_of_matches {source : String} {p : Predicate}
    (h : (expression limit).Matches (.start source.toList) p d)
    (htext : source.toList = before ++ d.skipSpaces.rest) :
    Predicate.parse (String.ofList before) limit = .ok p := by
  obtain ⟨ts, hderives, hreads, hnesting⟩ := sound_expression limit _ p d h
  have htokens := tokenizes_before hreads htext
  rw [← String.toList_ofList (l := before)] at htokens
  exact parse_of_derives htokens hderives (Nat.le_of_lt_succ hnesting)

/-- Reading an expression stops at `e`.  If it is read, the next token would start there, and if
not, a token is missing there. -/
structure StopsAt (limit : Nat) (c e : Cursor) : Prop where
  within : (expression limit).levelsAt c ≤ limit
  matched : ∀ {p d}, (expression limit).Matches c p d → d.skipSpaces = e
  missed : (expression limit).Fails c → (expression limit).missAt c = some e

namespace StopsAt

theorem exists_leads (h : StopsAt limit c e) :
    ∃ ts, Leads c ts e ∧ Completes (Layer.disjunction.Phrase (limit + 1)) ts := by
  rcases (expression limit).matches_or_fails c with ⟨p, d, hp⟩ | hfails
  · obtain ⟨ts, hts, hreads, hnesting⟩ := sound_expression limit c p d hp
    rw [← h.matched hp]
    exact ⟨ts, .behind hreads, .of_kind ⟨p, hts, hnesting⟩⟩
  · exact expects_expression limit c e (h.missed hfails)

/-- What stands in front of the place can be completed to a predicate. -/
theorem exists_accepted (h : StopsAt limit (.start text) e) (htext : text = before ++ e.rest) :
    ∃ tail p, Predicate.parse (String.ofList (before ++ tail)) limit = .ok p := by
  obtain ⟨ts, hleads, us, hproper, p, hderives, hnesting⟩ := h.exists_leads
  obtain ⟨tail, htokens⟩ := hleads.exists_tail htext hproper
  rw [← String.toList_ofList (l := before ++ tail)] at htokens
  exact ⟨tail, p, parse_of_derives htokens hderives (Nat.le_of_lt_succ hnesting)⟩

/-- No predicate starts with what stands in front of the place and the token at the place. -/
theorem not_accepted (h : StopsAt limit (.start text) e) (htext : text = before ++ e.rest)
    (ht : Starts e.rest t rest) (ht' : Starts (t.spelling ++ rest') t rest') (limit' : Nat)
    (p : Predicate) :
    Predicate.parse (String.ofList (before ++ t.spelling ++ rest')) limit' ≠ .ok p := by
  intro hparse
  obtain ⟨ts, htokens, hderives, -⟩ := exists_derives_of_parse hparse
  rw [String.toList_ofList, List.append_assoc] at htokens
  obtain ⟨us, hleads, -⟩ := h.exists_leads
  obtain ⟨d, hreads, rfl⟩ := hleads.exists_reads ht
  -- Both texts are cut into the same tokens up to the one at the place.
  have hnext : Next d t (.start rest) := by
    rw [Next, ← Cursor.rest_skipSpaces]
    exact ht
  have hreads' : Reads (before ++ (t.spelling ++ rest')) (us ++ [t]) rest' := by
    rw [Cursor.rest_start, htext, Cursor.rest_skipSpaces] at hreads
    rw [Cursor.rest_skipSpaces] at ht
    exact hreads.exchange_next ht ht'
  obtain ⟨vs, hts⟩ := htokens.exists_append hreads'
  have hreaches : (expression limit).Reaches limit (.start text) (.start rest)
      ((Cursor.start rest).left + 1) := by
    rw [expression_eq_disjunction]
    refine reaches_of_derives hderives hts ?_ (Nat.lt_succ_self _)
    exact hreads.append (reads_singleton_iff.mpr hnext)
  have hbeyond := hnext.left_lt
  cases hreaches with
  | @matched q f hq hle =>
      have hf := Cursor.left_le_of_le hle
      have hstop := Cursor.left_le_of_le (Cursor.le_skipSpaces f)
      rw [h.matched hq] at hstop
      omega
  | missed hfails hmiss hlt =>
      rw [h.missed hfails] at hmiss
      rw [← Option.some.inj hmiss] at hlt
      omega
  | refused hlevels => exact absurd h.within (Nat.not_le_of_lt hlevels)

/-- If what stands in front of the place is a predicate, an expression is read up to there. -/
theorem exists_matches_of_accepted {source : String} {p : Predicate}
    (h : StopsAt limit (.start source.toList) e) (htext : source.toList = before ++ e.rest)
    (hparse : Predicate.parse (String.ofList before) limit = .ok p) :
    ∃ q d, (expression limit).Matches (.start source.toList) q d := by
  obtain ⟨ts, htokens, hderives, -⟩ := exists_derives_of_parse hparse
  rw [String.toList_ofList] at htokens
  obtain ⟨us, hleads, -⟩ := h.exists_leads
  cases hleads with
  | @behind us d hreads =>
      obtain rfl := htokens.unique (tokenizes_before hreads htext)
      have hreaches : (expression limit).Reaches limit (.start source.toList) d
          d.skipSpaces.left := by
        rw [expression_eq_disjunction]
        exact reaches_whole_of_derives hderives hreads
      cases hreaches with
      | matched hq _ => exact ⟨_, _, hq⟩
      | missed hfails hmiss hlt =>
          rw [h.missed hfails] at hmiss
          rw [← Option.some.inj hmiss] at hlt
          exact absurd hlt (Nat.lt_irrefl _)
      | refused hlevels => exact absurd h.within (Nat.not_le_of_lt hlevels)
  | unclosed _ _ _ hend =>
      rw [hend, List.append_nil] at htext
      rw [← htext, String.ofList_toList] at hparse
      rcases (expression limit).matches_or_fails (.start source.toList) with hm | hf
      · exact hm
      · exact absurd hparse (parse_of_fails hf)

end StopsAt

/-! ## Errors -/

/-- An offset in bytes is at one place of a text. -/
theorem append_inj_of_utf8Length {front back front' back' : List Char}
    (h : front ++ back = front' ++ back') (hlength : utf8Length front = utf8Length front') :
    front = front' ∧ back = back' := by
  have hnil : ∀ cs : List Char, utf8Length cs = 0 → cs = [] := by
    intro cs hzero
    apply List.eq_nil_of_length_eq_zero
    have hle := length_le_utf8Length cs
    omega
  rcases List.append_eq_append_iff.mp h with ⟨cs, rfl, rfl⟩ | ⟨cs, rfl, rfl⟩
  · rw [utf8Length_append] at hlength
    rw [hnil cs (by omega)]
    exact ⟨(List.append_nil _).symm, rfl⟩
  · rw [utf8Length_append] at hlength
    rw [hnil cs (by omega)]
    exact ⟨List.append_nil _, rfl⟩

/-- An error with an offset tells where reading stopped. -/
theorem exists_stopsAt_of_error {source : String} {err : SyntaxError}
    (h : Predicate.parse source limit = .error err) (hk : err.offset? = some k) :
    ∃ before e, source.toList = before ++ e.rest ∧ utf8Length before = k ∧
      StopsAt limit (.start source.toList) e ∧
      (err = .unexpected k (.ahead e) ∧ (expression limit).Fails (.start source.toList) ∨
        err = .trailing k (.ahead e) ∧ e.atEnd = false ∧
          ∃ p d, (expression limit).Matches (.start source.toList) p d) := by
  have hoffset : ∀ before (e : Cursor), before ++ e.rest = source.toList →
      utf8Length source.toList - e.left = utf8Length before := by
    intro before e hsource
    rw [← hsource, utf8Length_append, e.left_eq, Nat.add_sub_cancel]
  rcases (expression limit).matches_or_fails (.start source.toList) with ⟨p, d, hp⟩ | hfails
  · rw [parse_eq_of_matches hp] at h
    obtain ⟨before, hbefore⟩ := Cursor.le_trans hp.le (Cursor.le_skipSpaces d)
    cases hend : d.skipSpaces.atEnd with
    | true =>
        rw [hend] at h
        contradiction
    | false =>
        rw [hend] at h
        obtain rfl := Except.error.inj h
        rw [hoffset before _ hbefore] at hk ⊢
        obtain rfl : utf8Length before = k := Option.some.inj hk
        refine ⟨before, d.skipSpaces, hbefore.symm, rfl, ⟨?_, ?_, ?_⟩, Or.inr ⟨rfl, hend, p, d, hp⟩⟩
        · exact within_expression limit _ p d hp
        · intro q f hq
          rw [(hp.unique hq).2]
        · intro hfails
          exact absurd hp hfails.not_matches
  · by_cases hlevels : (expression limit).levelsAt (.start source.toList) ≤ limit
    · obtain ⟨e, hmiss⟩ := Option.ne_none_iff_exists'.mp
        ((orderly_expression limit _).loud hfails hlevels)
      rw [parse_eq_of_fails hlevels hfails hmiss] at h
      obtain rfl := Except.error.inj h
      obtain ⟨before, hbefore⟩ := Rule.le_of_missAt hmiss
      rw [hoffset before _ hbefore] at hk ⊢
      obtain rfl : utf8Length before = k := Option.some.inj hk
      refine ⟨before, e, hbefore.symm, rfl, ⟨hlevels, ?_, fun _ => hmiss⟩, Or.inl ⟨rfl, hfails⟩⟩
      intro p d hp
      exact absurd hp hfails.not_matches
    · rw [parse_of_levels (Nat.lt_of_not_le hlevels)] at h
      obtain rfl := Except.error.inj h
      contradiction

/-- The offset of an unexpected input is the first place at which the text goes wrong.  What
stands in front of it is the beginning of a predicate, and if a whole token starts there, no
predicate has that token there, under whatever limit. -/
theorem parse_unexpected_offset {source : String} {limit k : Nat} {found : Found}
    (h : Predicate.parse source limit = .error (.unexpected k found)) :
    ∃ before after, source.toList = before ++ after ∧ utf8Length before = k ∧
      (∃ tail p, Predicate.parse (String.ofList (before ++ tail)) limit = .ok p) ∧
      ∀ t rest, Starts after t rest → ∀ rest', Starts (t.spelling ++ rest') t rest' →
        ∀ limit' p,
          Predicate.parse (String.ofList (before ++ t.spelling ++ rest')) limit' ≠ .ok p := by
  obtain ⟨before, e, hsource, hbefore, hstops, -⟩ := exists_stopsAt_of_error h rfl
  refine ⟨before, e.rest, hsource, hbefore, hstops.exists_accepted hsource, ?_⟩
  intro t rest ht rest' ht' limit' p
  exact hstops.not_accepted hsource ht ht' limit' p

/-- A parenthesis that nothing opens stands where a term is missing. -/
theorem parse_unexpected_offset_closeParen :
    Predicate.parse "a == )" 0 = .error (.unexpected 5 (.input ")")) ∧
      (∃ tail p, Predicate.parse (String.ofList ("a == ".toList ++ tail)) 0 = .ok p) ∧
      ∀ tail limit p,
        Predicate.parse (String.ofList ("a == ".toList ++ ")".toList ++ tail)) limit ≠ .ok p := by
  have h : Predicate.parse "a == )" 0 = .error (.unexpected 5 (.input ")")) := by
    decide +kernel
  obtain ⟨before, after, htext, hlength, hviable, hdead⟩ := parse_unexpected_offset h
  have hsplit : "a == ".toList ++ ")".toList = before ++ after := htext
  obtain ⟨rfl, rfl⟩ := append_inj_of_utf8Length hsplit hlength.symm
  refine ⟨h, hviable, fun tail limit p => ?_⟩
  exact hdead (.mark .closeParen) [] ⟨rfl, rfl, trivial⟩ tail ⟨rfl, rfl, trivial⟩ limit p

/-! ## Trailing text -/

theorem take?_of_matches_chain {operator : Symbol} {join : Predicate → Predicate → Predicate}
    {operand : Rule Predicate} {p : Predicate}
    (h : (chain operator join operand).Matches c p d) :
    operator.take? d = none ∧ ∃ c' q, operand.Matches c' q d := by
  induction h using chain_induction with
  | single hp hend => exact ⟨hend, _, _, hp⟩
  | joined _ _ _ ih => exact ih

/-- An expression is read as long as an operator joins another operand. -/
theorem take?_of_matches_expression {p : Predicate} (h : (expression limit).Matches c p d) :
    Symbol.and.take? d = none ∧ Symbol.or.take? d = none := by
  rw [expression_eq_disjunction] at h
  obtain ⟨hor, c', q, hq⟩ := take?_of_matches_chain h
  exact ⟨(take?_of_matches_chain hq).1, hor⟩

/-- A text is trailing exactly if what stands in front of it is a predicate.  It starts with a
character that is no space, with no operator that joins predicates, and with no token that a
predicate could have there. -/
theorem parse_trailing_iff {source : String} {limit k : Nat} {err : SyntaxError}
    (h : Predicate.parse source limit = .error err) (hk : err.offset? = some k) :
    ∃ before after, source.toList = before ++ after ∧ utf8Length before = k ∧
      ((∃ found, err = .trailing k found) ↔
        ∃ p, Predicate.parse (String.ofList before) limit = .ok p) ∧
      ∀ found, err = .trailing k found →
        after ≠ [] ∧ after.head?.any isSpace = false ∧
        (∀ rest, ¬Starts after Symbol.and.token rest ∧ ¬Starts after Symbol.or.token rest) ∧
        (∃ p, Predicate.parse (String.ofList before) limit = .ok p ∧
          (Reader.ofText source limit).readExpression.1 = some p) ∧
        ∀ t rest, Starts after t rest → ∀ rest', Starts (t.spelling ++ rest') t rest' →
          ∀ limit' p,
            Predicate.parse (String.ofList (before ++ t.spelling ++ rest')) limit' ≠ .ok p := by
  obtain ⟨before, e, hsource, hbefore, hstops, hcases⟩ := exists_stopsAt_of_error h hk
  refine ⟨before, e.rest, hsource, hbefore, ?_, ?_⟩
  · constructor
    · intro htrailing
      obtain ⟨found, htrailing⟩ := htrailing
      rcases hcases with ⟨hunexpected, -⟩ | ⟨-, -, p, d, hp⟩
      · rw [hunexpected] at htrailing
        contradiction
      · obtain rfl := hstops.matched hp
        exact ⟨p, parse_before_of_matches hp hsource⟩
    · intro haccepted
      obtain ⟨p, hp⟩ := haccepted
      obtain ⟨q, d, hq⟩ := hstops.exists_matches_of_accepted hsource hp
      rcases hcases with ⟨-, hfails⟩ | ⟨htrailing, -⟩
      · exact absurd hq hfails.not_matches
      · exact ⟨_, htrailing⟩
  · intro found htrailing
    rcases hcases with ⟨hunexpected, -⟩ | ⟨-, hend, p, d, hp⟩
    · rw [hunexpected] at htrailing
      contradiction
    have hplace := hstops.matched hp
    obtain ⟨hand, hor⟩ := take?_of_matches_expression hp
    refine ⟨?_, ?_, ?_, ?_, ?_⟩
    · intro hnil
      rw [Cursor.atEnd, hnil] at hend
      contradiction
    · rw [← hplace, Cursor.rest_skipSpaces]
      exact head_dropWhile isSpace d.rest
    · intro rest
      rw [← hplace, Cursor.rest_skipSpaces]
      exact ⟨Symbol.take?_eq_none_iff.mp hand (.start rest),
        Symbol.take?_eq_none_iff.mp hor (.start rest)⟩
    · rw [← hplace] at hsource
      refine ⟨p, parse_before_of_matches hp hsource, ?_⟩
      exact (Reader.readExpression_of_matches (r := .ofText source limit) hp).1
    · intro t rest ht rest' ht' limit' q
      exact hstops.not_accepted hsource ht ht' limit' q

/-- A word that follows a term is trailing, and no predicate has it there. -/
theorem parse_trailing_iff_word :
    Predicate.parse "a b c" 0 = .error (.trailing 2 (.input "b c")) ∧
      (∃ p, Predicate.parse (String.ofList "a ".toList) 0 = .ok p ∧
        (Reader.ofText "a b c" 0).readExpression.1 = some p) ∧
      ∀ tail limit p,
        Predicate.parse (String.ofList ("a ".toList ++ "b".toList ++ ' ' :: tail)) limit ≠
          .ok p := by
  have h : Predicate.parse "a b c" 0 = .error (.trailing 2 (.input "b c")) := by
    decide +kernel
  obtain ⟨before, after, htext, hlength, -, htrailing⟩ := parse_trailing_iff h rfl
  have hsplit : "a ".toList ++ "b c".toList = before ++ after := htext
  obtain ⟨rfl, rfl⟩ := append_inj_of_utf8Length hsplit hlength.symm
  obtain ⟨-, -, -, hexpression, hdead⟩ := htrailing _ rfl
  refine ⟨h, hexpression, fun tail limit p => ?_⟩
  have hproper : (Token.word "b").Proper := by decide
  exact hdead (.word "b") " c".toList ⟨rfl, hproper, rfl⟩ (' ' :: tail) ⟨rfl, hproper, rfl⟩ limit p

end PredicateLanguage
