import PredicateLanguage.Proofs.Chains
import PredicateLanguage.Proofs.Derivations

/-!
# Reading terms, sets and comparisons

The rules below groups and chains read exactly what the grammar over tokens derives.  Only
a term that stands alone depends on what follows it: with an operator behind it, it would
be the left side of a comparison.
-/

namespace PredicateLanguage.Grammar

open Rule

variable {c d : Cursor}

/-! ## Terms -/

theorem matches_term {x : Term} :
    term.Matches c x d ↔ ∃ t, Next c t d ∧ t.term? = some x := by
  rw [term, matches_orElse]
  constructor
  · rintro (h | ⟨hfails, h⟩)
    · obtain ⟨name, hname, rfl⟩ := matches_map.mp h
      obtain ⟨hnext, halpha⟩ := matches_identifier.mp hname
      exact ⟨.word name, hnext, by rw [Token.term?, if_pos halpha]⟩
    · obtain ⟨value, hvalue, rfl⟩ := matches_map.mp h
      rcases matches_literal.mp hvalue with hnext | hnext
      · have halpha : ¬value.toList.head?.any Char.isAlpha = true := by
          intro halpha
          have hname := matches_identifier.mpr ⟨hnext, halpha⟩
          exact hfails.not_matches (matches_map.mpr ⟨value, hname, rfl⟩)
        exact ⟨.word value, hnext, by rw [Token.term?, if_neg halpha]⟩
      · exact ⟨.quoted value, hnext, rfl⟩
  · rintro ⟨t, hnext, hterm⟩
    cases t with
    | mark s => contradiction
    | quoted value =>
        obtain rfl : Term.literal value = x := Option.some.inj hterm
        refine Or.inr ⟨?_, matches_map.mpr ⟨value, matches_literal.mpr (Or.inr hnext), rfl⟩⟩
        rw [fails_iff]
        intro y e h
        obtain ⟨name, hname, -⟩ := matches_map.mp h
        have htoken := (hnext.unique (matches_identifier.mp hname).1).1
        contradiction
    | word text =>
        by_cases halpha : text.toList.head?.any Char.isAlpha = true
        · rw [Token.term?, if_pos halpha] at hterm
          obtain rfl : Term.var text = x := Option.some.inj hterm
          have hname := matches_identifier.mpr ⟨hnext, halpha⟩
          exact Or.inl (matches_map.mpr ⟨text, hname, rfl⟩)
        · rw [Token.term?, if_neg halpha] at hterm
          obtain rfl : Term.literal text = x := Option.some.inj hterm
          have hliteral := matches_literal.mpr (Or.inl hnext)
          refine Or.inr ⟨?_, matches_map.mpr ⟨text, hliteral, rfl⟩⟩
          rw [fails_iff]
          intro y e h
          obtain ⟨name, hname, -⟩ := matches_map.mp h
          obtain ⟨hnext', halpha'⟩ := matches_identifier.mp hname
          obtain rfl : text = name := Token.word.inj (hnext.unique hnext').1
          exact halpha halpha'

/-! ## Sets -/

theorem matches_literal_iff {value : String} :
    literal.Matches c value d ↔ ∃ t, Next c t d ∧ t.element? = some value := by
  rw [matches_literal]
  constructor
  · rintro (h | h)
    · exact ⟨.word value, h, rfl⟩
    · exact ⟨.quoted value, h, rfl⟩
  · rintro ⟨t, hnext, helement⟩
    cases t with
    | word text =>
        obtain rfl : text = value := Option.some.inj helement
        exact Or.inl hnext
    | quoted text =>
        obtain rfl : text = value := Option.some.inj helement
        exact Or.inr hnext
    | mark s => contradiction

/-- What is read behind the brace that opens a set. -/
def setTail : Rule StringSet := do
  let members ← setMembers
  expect .closeBrace
  return .ofList members

theorem set_eq : set = expect .openBrace >>= fun _ => setTail := rfl

theorem derivesElements_of_matches {values : String × List String}
    (h : (separated .comma literal).Matches c values d) :
    ∃ ts, DerivesElements (values.1 :: values.2) ts ∧ Reads c.rest ts d.rest := by
  induction h using separated_induction with
  | last hvalue _ =>
      obtain ⟨t, ht, helement⟩ := matches_literal_iff.mp hvalue
      exact ⟨[t], .last helement, reads_singleton_iff.mpr ht⟩
  | more hvalue hcomma _ ih =>
      obtain ⟨t, ht, helement⟩ := matches_literal_iff.mp hvalue
      obtain ⟨ts, hts, hreads⟩ := ih
      refine ⟨t :: Symbol.comma.token :: ts, .more helement hts, ?_⟩
      exact .cons ht (.cons hcomma hreads)

theorem matches_elements_of_derives {values : List String} {ts : List Token}
    (h : DerivesElements values ts) (hreads : Reads c.rest ts d.rest)
    (hend : Symbol.comma.take? d = none) :
    ∃ first others, (separated .comma literal).Matches c (first, others) d ∧
      values = first :: others := by
  induction h generalizing c with
  | @last t value helement =>
      have hlast := matches_literal_iff.mpr ⟨t, reads_singleton_iff.mp hreads, helement⟩
      exact ⟨value, [], matches_separated_iff.mpr (Or.inl ⟨hlast, hend, rfl⟩), rfl⟩
  | @more t value values ts helement _ ih =>
      obtain ⟨e, ht, hreads⟩ := reads_cons_iff.mp hreads
      obtain ⟨e', hcomma, hreads⟩ := reads_cons_iff.mp hreads
      obtain ⟨first, others, hothers, rfl⟩ := ih hreads
      have hfirst := matches_literal_iff.mpr ⟨t, ht, helement⟩
      refine ⟨value, first :: others, matches_separated_iff.mpr (Or.inr ?_), rfl⟩
      exact ⟨e, e', (first, others), hfirst, hcomma, hothers, rfl⟩

/-- Where no element can be read, there are no members. -/
theorem matches_setMembers_nil {t : Token} (hnext : Next c t d) (ht : t.element? = none) :
    setMembers.Matches c [] c := by
  rw [setMembers, matches_orElse]
  refine Or.inr ⟨?_, matches_pure.mpr ⟨rfl, rfl⟩⟩
  rw [fails_iff]
  intro values e h
  obtain ⟨items, hitems, -⟩ := matches_map.mp h
  obtain ⟨ts, hts, hreads⟩ := derivesElements_of_matches hitems
  obtain ⟨u, us, value, rfl, helement⟩ := hts.exists_cons
  obtain ⟨e', hu, -⟩ := reads_cons_iff.mp hreads
  obtain rfl : t = u := (hnext.unique hu).1
  rw [ht] at helement
  contradiction

/-- A set is read exactly where tokens of a set stand. -/
theorem matches_set {members : StringSet} :
    set.Matches c members d ↔ ∃ ts, DerivesSet members ts ∧ Reads c.rest ts d.rest := by
  rw [set, matches_bind]
  constructor
  · rintro ⟨_, e, hopen, hrest⟩
    obtain ⟨values, e', hvalues, hrest⟩ := matches_bind.mp hrest
    obtain ⟨_, e'', hclose, hrest⟩ := matches_bind.mp hrest
    obtain ⟨rfl, rfl⟩ := matches_pure.mp hrest
    rw [matches_expect] at hopen hclose
    rcases matches_orElse.mp hvalues with hitems | ⟨-, hnone⟩
    · obtain ⟨items, hpairs, rfl⟩ := matches_map.mp hitems
      obtain ⟨ts, hts, hreads⟩ := derivesElements_of_matches hpairs
      refine ⟨_, .elements hts, .cons hopen ?_⟩
      exact hreads.append (reads_singleton_iff.mpr hclose)
    · obtain ⟨rfl, rfl⟩ := matches_pure.mp hnone
      exact ⟨_, .empty, .cons hopen (reads_singleton_iff.mpr hclose)⟩
  · rintro ⟨ts, hts, hreads⟩
    cases hts with
    | empty =>
        obtain ⟨e, hopen, hreads⟩ := reads_cons_iff.mp hreads
        have hclose := reads_singleton_iff.mp hreads
        refine ⟨(), e, matches_expect.mpr hopen, matches_bind.mpr ⟨[], e, ?_, ?_⟩⟩
        · exact matches_setMembers_nil hclose rfl
        · refine matches_bind.mpr ⟨(), d, matches_expect.mpr hclose, ?_⟩
          exact matches_pure.mpr ⟨rfl, rfl⟩
    | @elements values ts hts =>
        obtain ⟨e, hopen, hreads⟩ := reads_cons_iff.mp hreads
        obtain ⟨e', hreads, hclose⟩ := reads_append_iff.mp hreads
        rw [reads_singleton_iff] at hclose
        have hend : Symbol.comma.take? e' = none :=
          Symbol.take?_eq_none_of_next hclose (by decide)
        obtain ⟨first, others, hitems, rfl⟩ := matches_elements_of_derives hts hreads hend
        refine ⟨(), e, matches_expect.mpr hopen,
          matches_bind.mpr ⟨first :: others, e', ?_, ?_⟩⟩
        · rw [setMembers, matches_orElse]
          exact Or.inl (matches_map.mpr ⟨(first, others), hitems, rfl⟩)
        · refine matches_bind.mpr ⟨(), d, matches_expect.mpr hclose, ?_⟩
          exact matches_pure.mpr ⟨rfl, rfl⟩

/-! ## Comparisons -/

/-- The symbols that make a term the left side of a comparison. -/
def comparisonOperators : List Symbol :=
  [.equal, .notEqual, .member, .not]

/-- What is read behind the first term of a comparison. -/
def comparisonTail (left : Term) : Rule Predicate := do
  if ← eat .equal then
    return .equal left (← term)
  else if ← eat .notEqual then
    return .notEqual left (← term)
  else if ← eat .member then
    return .oneOf left (← set)
  else if ← eat .not then
    expect .member
    return .noneOf left (← set)
  else
    return .present left

theorem comparison_eq : comparison = term >>= comparisonTail := rfl

theorem derivesComparison_of_matches {p : Predicate} (h : comparison.Matches c p d) :
    ∃ ts, DerivesComparison p ts ∧ Reads c.rest ts d.rest := by
  rw [comparison, matches_bind] at h
  obtain ⟨left, e, hleft, h⟩ := h
  obtain ⟨t, ht, hterm⟩ := matches_term.mp hleft
  rcases matches_if_eat.mp h with ⟨e', hequal, h⟩ | ⟨-, h⟩
  · obtain ⟨right, d', hright, h⟩ := matches_bind.mp h
    obtain ⟨rfl, rfl⟩ := matches_pure.mp h
    obtain ⟨u, hu, hterm'⟩ := matches_term.mp hright
    exact ⟨_, .equal hterm hterm', .cons ht (.cons hequal (reads_singleton_iff.mpr hu))⟩
  rcases matches_if_eat.mp h with ⟨e', hnotEqual, h⟩ | ⟨-, h⟩
  · obtain ⟨right, d', hright, h⟩ := matches_bind.mp h
    obtain ⟨rfl, rfl⟩ := matches_pure.mp h
    obtain ⟨u, hu, hterm'⟩ := matches_term.mp hright
    exact ⟨_, .notEqual hterm hterm', .cons ht (.cons hnotEqual (reads_singleton_iff.mpr hu))⟩
  rcases matches_if_eat.mp h with ⟨e', hmember, h⟩ | ⟨-, h⟩
  · obtain ⟨members, d', hset, h⟩ := matches_bind.mp h
    obtain ⟨rfl, rfl⟩ := matches_pure.mp h
    obtain ⟨us, hus, hreads⟩ := matches_set.mp hset
    exact ⟨_, .oneOf hterm hus, .cons ht (.cons hmember hreads)⟩
  rcases matches_if_eat.mp h with ⟨e', hnot, h⟩ | ⟨-, h⟩
  · obtain ⟨_, e'', hmember, h⟩ := matches_bind.mp h
    obtain ⟨members, d', hset, h⟩ := matches_bind.mp h
    obtain ⟨rfl, rfl⟩ := matches_pure.mp h
    obtain ⟨us, hus, hreads⟩ := matches_set.mp hset
    rw [matches_expect] at hmember
    exact ⟨_, .noneOf hterm hus, .cons ht (.cons hnot (.cons hmember hreads))⟩
  · obtain ⟨rfl, rfl⟩ := matches_pure.mp h
    exact ⟨[t], .present hterm, reads_singleton_iff.mpr ht⟩

/-- A comparison is read whatever follows it; a term alone is read where no operator of a
comparison follows. -/
theorem matches_comparison_of_derives {p : Predicate} {ts : List Token}
    (h : DerivesComparison p ts) (hreads : Reads c.rest ts d.rest)
    (hend : ∀ x, p = .present x → ∀ s ∈ comparisonOperators, s.take? d = none) :
    comparison.Matches c p d := by
  rw [comparison, matches_bind]
  cases h with
  | @present t x hterm =>
      have ht := reads_singleton_iff.mp hreads
      refine ⟨x, d, matches_term.mpr ⟨t, ht, hterm⟩, ?_⟩
      have hstop := hend x rfl
      have hequal : Symbol.equal.take? d = none := hstop _ (by decide)
      have hnotEqual : Symbol.notEqual.take? d = none := hstop _ (by decide)
      have hmember : Symbol.member.take? d = none := hstop _ (by decide)
      have hnot : Symbol.not.take? d = none := hstop _ (by decide)
      refine matches_if_eat.mpr (Or.inr ⟨hequal, ?_⟩)
      refine matches_if_eat.mpr (Or.inr ⟨hnotEqual, ?_⟩)
      refine matches_if_eat.mpr (Or.inr ⟨hmember, ?_⟩)
      refine matches_if_eat.mpr (Or.inr ⟨hnot, ?_⟩)
      exact matches_pure.mpr ⟨rfl, rfl⟩
  | @equal t u x y hleft hright =>
      obtain ⟨e, ht, hreads⟩ := reads_cons_iff.mp hreads
      obtain ⟨e', hequal, hreads⟩ := reads_cons_iff.mp hreads
      have hu := reads_singleton_iff.mp hreads
      refine ⟨x, e, matches_term.mpr ⟨t, ht, hleft⟩, ?_⟩
      refine matches_if_eat.mpr (Or.inl ⟨e', hequal, matches_bind.mpr ⟨y, d, ?_, ?_⟩⟩)
      · exact matches_term.mpr ⟨u, hu, hright⟩
      · exact matches_pure.mpr ⟨rfl, rfl⟩
  | @notEqual t u x y hleft hright =>
      obtain ⟨e, ht, hreads⟩ := reads_cons_iff.mp hreads
      obtain ⟨e', hnotEqual, hreads⟩ := reads_cons_iff.mp hreads
      have hu := reads_singleton_iff.mp hreads
      have hequal : Symbol.equal.take? e = none :=
        Symbol.take?_eq_none_of_next hnotEqual (by decide)
      refine ⟨x, e, matches_term.mpr ⟨t, ht, hleft⟩, ?_⟩
      refine matches_if_eat.mpr (Or.inr ⟨hequal, ?_⟩)
      refine matches_if_eat.mpr (Or.inl ⟨e', hnotEqual, matches_bind.mpr ⟨y, d, ?_, ?_⟩⟩)
      · exact matches_term.mpr ⟨u, hu, hright⟩
      · exact matches_pure.mpr ⟨rfl, rfl⟩
  | @oneOf t x members us hleft hright =>
      obtain ⟨e, ht, hreads⟩ := reads_cons_iff.mp hreads
      obtain ⟨e', hmember, hreads⟩ := reads_cons_iff.mp hreads
      have hequal : Symbol.equal.take? e = none :=
        Symbol.take?_eq_none_of_next hmember (by decide)
      have hnotEqual : Symbol.notEqual.take? e = none :=
        Symbol.take?_eq_none_of_next hmember (by decide)
      refine ⟨x, e, matches_term.mpr ⟨t, ht, hleft⟩, ?_⟩
      refine matches_if_eat.mpr (Or.inr ⟨hequal, ?_⟩)
      refine matches_if_eat.mpr (Or.inr ⟨hnotEqual, ?_⟩)
      have hset := matches_set.mpr ⟨us, hright, hreads⟩
      refine matches_if_eat.mpr (Or.inl ⟨e', hmember, matches_bind.mpr ⟨members, d, hset, ?_⟩⟩)
      exact matches_pure.mpr ⟨rfl, rfl⟩
  | @noneOf t x members us hleft hright =>
      obtain ⟨e, ht, hreads⟩ := reads_cons_iff.mp hreads
      obtain ⟨e', hnot, hreads⟩ := reads_cons_iff.mp hreads
      obtain ⟨e'', hmember, hreads⟩ := reads_cons_iff.mp hreads
      have hequal : Symbol.equal.take? e = none :=
        Symbol.take?_eq_none_of_next hnot (by decide)
      have hnotEqual : Symbol.notEqual.take? e = none :=
        Symbol.take?_eq_none_of_next hnot (by decide)
      have hnoMember : Symbol.member.take? e = none :=
        Symbol.take?_eq_none_of_next hnot (by decide)
      refine ⟨x, e, matches_term.mpr ⟨t, ht, hleft⟩, ?_⟩
      refine matches_if_eat.mpr (Or.inr ⟨hequal, ?_⟩)
      refine matches_if_eat.mpr (Or.inr ⟨hnotEqual, ?_⟩)
      refine matches_if_eat.mpr (Or.inr ⟨hnoMember, ?_⟩)
      refine matches_if_eat.mpr (Or.inl ⟨e', hnot, ?_⟩)
      refine matches_bind.mpr ⟨(), e'', matches_expect.mpr hmember, ?_⟩
      refine matches_bind.mpr ⟨members, d, matches_set.mpr ⟨us, hright, hreads⟩, ?_⟩
      exact matches_pure.mpr ⟨rfl, rfl⟩

end PredicateLanguage.Grammar
