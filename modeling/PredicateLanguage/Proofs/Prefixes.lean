import PredicateLanguage.Proofs.Misses

/-!
# Tokens in front of a mark

Wherever a rule of the grammar marks a token as missing, the tokens in front of that place can be
completed to a phrase that the rule could have read.  So no abandoned alternative ever marks a
place beyond the first one at which the text went wrong.
-/

namespace PredicateLanguage

open Grammar

/-! ## Coming to a place -/

/-- Tokens lead from `c` to the place behind the spaces that follow the last of them.  If the
last is a quoted text that is not closed, they lead to the end of the text. -/
inductive Leads (c : Cursor) : List Token → Cursor → Prop
  | behind {ts : List Token} {d : Cursor} (h : Reads c.rest ts d.rest) :
      Leads c ts d.skipSpaces
  | unclosed {ts : List Token} {d e : Cursor} {inside : List Char}
      (h : Reads c.rest ts d.rest) (htext : d.rest.dropWhile isSpace = quote :: inside)
      (hopen : quote ∉ inside) (hend : e.rest = []) :
      Leads c (ts ++ [.quoted (String.ofList inside)]) e

namespace Leads

variable {c d e : Cursor} {ts us : List Token}

theorem here (c : Cursor) : Leads c [] c.skipSpaces :=
  .behind (.nil c.rest)

theorem prepend (hts : Reads c.rest ts d.rest) (h : Leads d us e) : Leads c (ts ++ us) e := by
  cases h with
  | behind h => exact .behind (hts.append h)
  | unclosed h htext hopen hend =>
      rw [← List.append_assoc]
      exact .unclosed (hts.append h) htext hopen hend

theorem cons {t : Token} (ht : Next c t d) (h : Leads d us e) : Leads c (t :: us) e :=
  prepend (reads_singleton_iff.mpr ht) h

/-- No place in front of the next token is reached. -/
theorem skipSpaces_le (h : Leads c ts e) : c.skipSpaces ≤ e := by
  cases h with
  | behind h => exact Cursor.skipSpaces_mono (le_of_reads h)
  | unclosed _ _ _ hend =>
      rw [Cursor.le_def, hend]
      exact List.nil_suffix

/-- The first of the tokens is not one that does not come next. -/
theorem head_ne {s : Symbol} (h : Leads c ts e) (hs : s.take? c = none) :
    ts.head? ≠ some s.token := by
  intro hhead
  have hnone := Symbol.take?_eq_none_iff.mp hs
  cases h with
  | behind h =>
      obtain ⟨us, rfl⟩ := List.head?_eq_some_iff.mp hhead
      obtain ⟨d, hnext, -⟩ := reads_cons_iff.mp h
      exact hnone d hnext
  | @unclosed ts d e inside h =>
      cases ts with
      | nil =>
          have htoken : Token.quoted (String.ofList inside) = s.token := Option.some.inj hhead
          rw [Symbol.token] at htoken
          split at htoken
          · contradiction
          · contradiction
      | cons t ts =>
          obtain rfl : t = s.token := Option.some.inj hhead
          obtain ⟨d', hnext, -⟩ := reads_cons_iff.mp h
          exact hnone d' hnext

end Leads

/-! ## Completing tokens -/

theorem Symbol.proper_tokens (symbols : List Symbol) :
    ∀ u ∈ symbols.map Symbol.token, u.Proper := by
  intro u hu
  obtain ⟨s, -, rfl⟩ := List.mem_map.mp hu
  exact s.proper_token

/-- More tokens behind these make up tokens of the kind. -/
def Completes (kind : List Token → Prop) (ts : List Token) : Prop :=
  ∃ us, (∀ u ∈ us, u.Proper) ∧ kind (ts ++ us)

namespace Completes

variable {kind kind' : List Token → Prop} {ts : List Token}

theorem of_kind (h : kind ts) : Completes kind ts := by
  refine ⟨[], by simp, ?_⟩
  rwa [List.append_nil]

/-- What completes some tokens also completes them between others. -/
theorem between (front : List Token) {behind : List Token} (hbehind : ∀ u ∈ behind, u.Proper)
    (h : Completes kind ts) (hkind : ∀ us, kind us → kind' (front ++ us ++ behind)) :
    Completes kind' (front ++ ts) := by
  obtain ⟨us, hproper, hus⟩ := h
  refine ⟨us ++ behind, ?_, ?_⟩
  · intro u hu
    rcases List.mem_append.mp hu with hu | hu
    · exact hproper u hu
    · exact hbehind u hu
  · have hall := hkind _ hus
    rwa [List.append_assoc, List.append_assoc, ← List.append_assoc] at hall

theorem append (front : List Token) (h : Completes kind ts)
    (hkind : ∀ us, kind us → kind' (front ++ us)) : Completes kind' (front ++ ts) := by
  have hnone : ∀ u ∈ ([] : List Token), u.Proper := by simp
  refine h.between front hnone fun us hus => ?_
  rw [List.append_nil]
  exact hkind us hus

theorem mono (h : Completes kind ts) (hkind : ∀ us, kind us → kind' us) :
    Completes kind' ts :=
  h.append [] hkind

end Completes

/-- Whatever the rule marks at `c`, tokens that can be completed to the kind lead there. -/
def Rule.ExpectsAt (kind : List Token → Prop) (r : Rule α) (c : Cursor) : Prop :=
  ∀ e, r.missAt c = some e → ∃ ts, Leads c ts e ∧ Completes kind ts

/-! ## The kinds of phrases -/

def IsTerm (ts : List Token) : Prop :=
  ∃ t x, ts = [t] ∧ t.term? = some x

def IsElements (ts : List Token) : Prop :=
  ∃ values, DerivesElements values ts

def IsSet (ts : List Token) : Prop :=
  ∃ set, DerivesSet set ts

def IsComparison (ts : List Token) : Prop :=
  ∃ p, DerivesComparison p ts

/-- Tokens of a layer that nest less than `bound` levels deep. -/
def Layer.Phrase (layer : Layer) (bound : Nat) (ts : List Token) : Prop :=
  ∃ p, Derives layer p ts ∧ nesting ts < bound

/-- A word that can stand wherever a term or an element can. -/
def Token.anyWord : Token :=
  .word "a"

theorem Token.proper_anyWord : Token.anyWord.Proper := by
  decide

namespace Grammar

open Rule

variable {c d e : Cursor}

/-! ## Terms and sets -/

theorem Unclosed.leads (h : Unclosed c e) :
    ∃ value, Leads c [.quoted value] e := by
  obtain ⟨inside, htext, hopen, hend⟩ := h
  exact ⟨String.ofList inside, .unclosed (.nil c.rest) htext hopen hend⟩

theorem isTerm_anyWord : IsTerm [Token.anyWord] :=
  ⟨_, _, rfl, rfl⟩

theorem completes_anyWord {kind : List Token → Prop} {ts : List Token}
    (h : kind (ts ++ [Token.anyWord])) : Completes kind ts := by
  refine ⟨[Token.anyWord], ?_, h⟩
  intro u hu
  rw [List.mem_singleton.mp hu]
  exact Token.proper_anyWord

theorem expects_term (c : Cursor) : term.ExpectsAt IsTerm c := by
  intro e h
  rcases missAt_term h with rfl | hopen
  · exact ⟨[], .here c, completes_anyWord isTerm_anyWord⟩
  · obtain ⟨value, hleads⟩ := hopen.leads
    exact ⟨_, hleads, .of_kind ⟨_, _, rfl, rfl⟩⟩

theorem expects_elements (c : Cursor) :
    (separated .comma literal).ExpectsAt IsElements c := by
  induction hn : c.left using Nat.strongRecOn generalizing c with
  | ind n ih =>
      intro e h
      rw [separated_eq] at h
      rcases missAt_bind h with hfirst | ⟨value, d, hvalue, h⟩
      · rcases missAt_literal hfirst with rfl | hopen
        · exact ⟨[], .here c, completes_anyWord ⟨_, .last rfl⟩⟩
        · obtain ⟨value, hleads⟩ := hopen.leads
          exact ⟨_, hleads, .of_kind ⟨_, .last rfl⟩⟩
      obtain ⟨t, ht, helement⟩ := matches_literal_iff.mp hvalue
      rcases missAt_bind h with hcomma | ⟨found, d', hfound, h⟩
      · rw [missAt_eat hcomma]
        exact ⟨[t], .behind (reads_singleton_iff.mpr ht), .of_kind ⟨_, .last helement⟩⟩
      rcases matches_eat.mp hfound with ⟨rfl, hcomma⟩ | ⟨rfl, -, -⟩
      · rw [if_pos rfl, missAt_map] at h
        have hlt : d'.left < n := hn ▸ left_lt_of_item hvalue hcomma
        obtain ⟨ts, hleads, hcompletes⟩ := ih d'.left hlt d' rfl e h
        refine ⟨t :: Symbol.comma.token :: ts, .cons ht (.cons hcomma hleads), ?_⟩
        refine hcompletes.append [t, Symbol.comma.token] ?_
        rintro us ⟨values, hvalues⟩
        exact ⟨_, .more helement hvalues⟩
      · contradiction

/-- Symbols close what is open behind some tokens. -/
theorem completes_symbols {kind : List Token → Prop} {ts : List Token} (symbols : List Symbol)
    (h : kind (ts ++ symbols.map Symbol.token)) : Completes kind ts :=
  ⟨symbols.map Symbol.token, Symbol.proper_tokens symbols, h⟩

theorem expects_set (c : Cursor) : set.ExpectsAt IsSet c := by
  intro e h
  rw [set] at h
  rcases missAt_bind h with hopen | ⟨_, d, hopen, h⟩
  · rw [missAt_expect hopen]
    exact ⟨[], .here c, completes_symbols [.openBrace, .closeBrace] ⟨_, .empty⟩⟩
  have hbrace := matches_expect.mp hopen
  rcases missAt_bind h with hmembers | ⟨members, d', hmembers, h⟩
  · rcases missAt_orElse hmembers with hitems | ⟨-, hnone⟩
    · rw [missAt_map] at hitems
      obtain ⟨ts, hleads, hcompletes⟩ := expects_elements d e hitems
      refine ⟨Symbol.openBrace.token :: ts, .cons hbrace hleads, ?_⟩
      refine hcompletes.between [Symbol.openBrace.token] (Symbol.proper_tokens [.closeBrace]) ?_
      rintro us ⟨values, hvalues⟩
      exact ⟨_, .elements hvalues⟩
    · contradiction
  rcases missAt_bind h with hend | ⟨_, d'', -, h⟩
  · rw [missAt_expect hend]
    rcases matches_orElse.mp hmembers with hitems | ⟨-, hnone⟩
    · obtain ⟨items, hpairs, -⟩ := matches_map.mp hitems
      obtain ⟨ts, hts, hreads⟩ := derivesElements_of_matches hpairs
      refine ⟨Symbol.openBrace.token :: ts, .behind (.cons hbrace hreads), ?_⟩
      exact completes_symbols [.closeBrace] ⟨_, .elements hts⟩
    · obtain ⟨-, rfl⟩ := matches_pure.mp hnone
      refine ⟨[Symbol.openBrace.token], .behind (reads_singleton_iff.mpr hbrace), ?_⟩
      exact completes_symbols [.closeBrace] ⟨_, .empty⟩
  · contradiction

/-! ## Comparisons -/

/-- A right side that is still missing completes a comparison behind its operator. -/
theorem expects_behind_operator {kind : List Token → Prop} {r : Rule α} {next : α → Rule Predicate}
    (hr : r.ExpectsAt kind d) (hnext : ∀ x d', (next x).missAt d' = none)
    (front : List Token) (hfront : Reads c.rest front d.rest)
    (hkind : ∀ us, kind us → IsComparison (front ++ us))
    (h : (r >>= next).missAt d = some e) :
    ∃ ts, Leads c ts e ∧ Completes IsComparison ts := by
  rcases missAt_bind h with h | ⟨x, d', -, h⟩
  · obtain ⟨ts, hleads, hcompletes⟩ := hr e h
    exact ⟨front ++ ts, hleads.prepend hfront, hcompletes.append front hkind⟩
  · rw [hnext] at h
    contradiction

theorem expects_comparison (c : Cursor) : comparison.ExpectsAt IsComparison c := by
  intro e h
  rw [comparison] at h
  rcases missAt_bind h with hterm | ⟨left, d, hleft, h⟩
  · obtain ⟨ts, hleads, hcompletes⟩ := expects_term c e hterm
    refine ⟨ts, hleads, hcompletes.mono ?_⟩
    rintro us ⟨t, x, rfl, hx⟩
    exact ⟨_, .present hx⟩
  obtain ⟨t, ht, hx⟩ := matches_term.mp hleft
  have hfront := reads_singleton_iff.mpr ht
  have hpresent : ∃ ts, Leads c ts d.skipSpaces ∧ Completes IsComparison ts :=
    ⟨[t], .behind hfront, .of_kind ⟨_, .present hx⟩⟩
  rcases missAt_if_eat h with rfl | ⟨d', hequal, h⟩ | ⟨-, h⟩
  · exact hpresent
  · refine expects_behind_operator (expects_term d') (fun _ _ => rfl) _
      (hfront.append (reads_singleton_iff.mpr hequal)) ?_ h
    rintro us ⟨u, y, rfl, hy⟩
    exact ⟨_, .equal hx hy⟩
  rcases missAt_if_eat h with rfl | ⟨d', hnotEqual, h⟩ | ⟨-, h⟩
  · exact hpresent
  · refine expects_behind_operator (expects_term d') (fun _ _ => rfl) _
      (hfront.append (reads_singleton_iff.mpr hnotEqual)) ?_ h
    rintro us ⟨u, y, rfl, hy⟩
    exact ⟨_, .notEqual hx hy⟩
  rcases missAt_if_eat h with rfl | ⟨d', hmember, h⟩ | ⟨-, h⟩
  · exact hpresent
  · refine expects_behind_operator (expects_set d') (fun _ _ => rfl) _
      (hfront.append (reads_singleton_iff.mpr hmember)) ?_ h
    rintro us ⟨set, hset⟩
    exact ⟨_, .oneOf hx hset⟩
  rcases missAt_if_eat h with rfl | ⟨d', hnot, h⟩ | ⟨-, h⟩
  · exact hpresent
  · have hnots := hfront.append (reads_singleton_iff.mpr hnot)
    rcases missAt_bind h with hmember | ⟨_, d'', hmember, h⟩
    · rw [missAt_expect hmember]
      refine ⟨_, .behind hnots, completes_symbols [.member, .openBrace, .closeBrace] ?_⟩
      exact ⟨_, .noneOf hx .empty⟩
    · refine expects_behind_operator (expects_set d'') (fun _ _ => rfl) _
        (hnots.append (reads_singleton_iff.mpr (matches_expect.mp hmember))) ?_ h
      rintro us ⟨set, hset⟩
      exact ⟨_, .noneOf hx hset⟩
  · contradiction

/-! ## Groups and expressions -/

/-- A comparison behind any number of `not`, if it does not start with one itself. -/
theorem phrase_comparison {ts : List Token} (nots bound : Nat) (h : IsComparison ts)
    (hfirst : ts.head? ≠ some Symbol.not.token) :
    Layer.negation.Phrase (bound + 1) (List.replicate nots Symbol.not.token ++ ts) := by
  obtain ⟨p, hp⟩ := h
  refine ⟨_, .comparison nots hp hfirst, ?_⟩
  rw [(hp.nests.behind_nots nots).nesting_eq]
  exact Nat.succ_pos bound

/-- A phrase in parentheses behind any number of `not`. -/
theorem phrase_group {ts : List Token} {bound : Nat} (nots : Nat)
    (h : Layer.disjunction.Phrase bound ts) :
    Layer.negation.Phrase (bound + 1) (List.replicate nots Symbol.not.token ++
      Symbol.openParen.token :: (ts ++ [Symbol.closeParen.token])) := by
  obtain ⟨p, hp, hbound⟩ := h
  refine ⟨_, .group nots hp, ?_⟩
  rw [(hp.nests.group.behind_nots nots).nesting_eq]
  exact Nat.succ_lt_succ hbound

theorem completes_nots (nots bound : Nat) :
    Completes (Layer.negation.Phrase (bound + 1)) (List.replicate nots Symbol.not.token) :=
  completes_anyWord (phrase_comparison nots bound ⟨_, .present rfl⟩ (by decide))

section Groups

variable {inner : Rule Predicate} {bound nots : Nat}

theorem expects_group (hsound : Sound .disjunction bound inner)
    (hinner : ∀ c, inner.ExpectsAt (Layer.disjunction.Phrase bound) c)
    (hnots : Reads c.rest (List.replicate nots Symbol.not.token) d.rest)
    (h : (group inner).missAt d = some e) :
    ∃ ts, Leads c ts e ∧ Completes (Layer.negation.Phrase (bound + 1)) ts := by
  rw [group] at h
  rcases missAt_bind h with hopen | ⟨_, f, hopen, h⟩
  · rw [missAt_expect hopen]
    exact ⟨_, .behind hnots, completes_nots nots bound⟩
  have hparen := matches_expect.mp hopen
  rcases missAt_bind h with hinside | ⟨p, f', hinside, h⟩
  · rw [missAt_deeper] at hinside
    obtain ⟨ts, hleads, hcompletes⟩ := hinner f e hinside
    refine ⟨_, (Leads.cons hparen hleads).prepend hnots, ?_⟩
    rw [List.append_cons]
    refine hcompletes.between _ (Symbol.proper_tokens [.closeParen]) fun us hus => ?_
    simpa using phrase_group nots hus
  rcases missAt_bind h with hend | ⟨_, f'', -, h⟩
  · rw [missAt_expect hend]
    obtain ⟨ts, hts, hreads, hbound⟩ := hsound f p f' (matches_deeper.mp hinside)
    refine ⟨_, .behind (hnots.append (.cons hparen hreads)), ?_⟩
    refine completes_symbols [.closeParen] ?_
    simpa using phrase_group nots ⟨p, hts, hbound⟩
  · contradiction

theorem expects_negation (hsound : Sound .disjunction bound inner)
    (hinner : ∀ c, inner.ExpectsAt (Layer.disjunction.Phrase bound) c) (c : Cursor) :
    (negation inner).ExpectsAt (Layer.negation.Phrase (bound + 1)) c := by
  intro e h
  rw [negation] at h
  rcases missAt_bind h with hmore | ⟨nots, d, hall, h⟩
  · have hall : (eatAll .not).Matches c (Symbol.not.takeAll c).1 (Symbol.not.takeAll c).2 := rfl
    rw [missAt_eatAll hall] at hmore
    rw [← Option.some.inj hmore]
    exact ⟨_, .behind (matches_eatAll.mp hall).1, completes_nots _ bound⟩
  obtain ⟨hnots, hstop⟩ := matches_eatAll.mp hall
  rcases missAt_bind h with hoperand | ⟨p, d', -, h⟩
  · rcases missAt_orElse hoperand with hcomparison | ⟨-, hgroup⟩
    · obtain ⟨ts, hleads, us, hproper, hus⟩ := expects_comparison d e hcomparison
      by_cases hts : ts = []
      · rw [hts] at hleads
        refine ⟨_, hleads.prepend hnots, ?_⟩
        rw [List.append_nil]
        exact completes_nots nots bound
      · refine ⟨_, hleads.prepend hnots, us, hproper, ?_⟩
        rw [List.append_assoc]
        refine phrase_comparison nots bound hus ?_
        rw [List.head?_append_of_ne_nil _ hts]
        exact hleads.head_ne hstop
    · exact expects_group hsound hinner hnots hgroup
  · contradiction

end Groups

section Chain

variable {operator : Symbol} {join : Predicate → Predicate → Predicate}
  {lower upper : Layer}

theorem expects_chain {bound : Nat} {operand : Rule Predicate}
    (hjoins : Joins operator join lower upper) (hsound : Sound lower bound operand)
    (hoperand : ∀ c, operand.ExpectsAt (lower.Phrase bound) c) (c : Cursor) :
    (chain operator join operand).ExpectsAt (upper.Phrase bound) c := by
  induction hn : c.left using Nat.strongRecOn generalizing c with
  | ind n ih =>
      intro e h
      rw [chain_eq] at h
      rcases missAt_bind h with hfirst | ⟨p, d, hp, h⟩
      · obtain ⟨ts, hleads, hcompletes⟩ := hoperand c e hfirst
        refine ⟨ts, hleads, hcompletes.mono ?_⟩
        intro us hus
        obtain ⟨p, hp, hbound⟩ := hus
        exact ⟨p, hjoins.single hp, hbound⟩
      obtain ⟨ts, hts, hreads, hbound⟩ := hsound c p d hp
      rcases missAt_if_eat h with rfl | ⟨d', hnext, h⟩ | ⟨-, h⟩
      · exact ⟨ts, .behind hreads, .of_kind ⟨p, hjoins.single hts, hbound⟩⟩
      · rw [missAt_map] at h
        have hlt : d'.left < n := hn ▸ left_lt_of_item hp hnext
        obtain ⟨us, hleads, hcompletes⟩ := ih d'.left hlt d' rfl e h
        refine ⟨_, (Leads.cons hnext hleads).prepend hreads, ?_⟩
        rw [List.append_cons]
        refine hcompletes.append _ fun vs hvs => ?_
        obtain ⟨q, hq, hbound'⟩ := hvs
        rw [List.append_assoc, List.singleton_append]
        refine ⟨join p q, hjoins.joined hts hq, ?_⟩
        rw [hjoins.nesting_eq hts hq]
        exact Nat.max_lt.mpr ⟨hbound, hbound'⟩
      · contradiction

end Chain

theorem expects_disjunction {inner : Rule Predicate} {bound : Nat}
    (hsound : Sound .disjunction bound inner)
    (hinner : ∀ c, inner.ExpectsAt (Layer.disjunction.Phrase bound) c) (c : Cursor) :
    (disjunction inner).ExpectsAt (Layer.disjunction.Phrase (bound + 1)) c :=
  have hnegation := sound_negation hsound
  expects_chain joins_or (sound_chain joins_and hnegation)
    (expects_chain joins_and hnegation (expects_negation hsound hinner)) c

/-- Tokens that can be completed to an expression within the limit lead to every place that is
marked when an expression is tried. -/
theorem expects_expression (limit : Nat) (c : Cursor) :
    (expression limit).ExpectsAt (Layer.disjunction.Phrase (limit + 1)) c := by
  induction limit generalizing c with
  | zero =>
      refine expects_disjunction (sound_failure .disjunction) (fun d e h => ?_) c
      rw [missAt_failure] at h
      contradiction
  | succ limit ih => exact expects_disjunction (sound_expression limit) ih c

end Grammar

end PredicateLanguage
