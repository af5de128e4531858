import PredicateLanguage.Proofs.Misses

/-!
# The same reading in two texts

Two texts may consist of the same tokens and differ in the spaces between them.  Wherever a rule
stands in the one text, there is a place in the other one with the same tokens in front of it and
behind it.  A rule is steady if it does the same at two such places: it reads the same, asks for as
many levels, and the places where it ends and where it misses something correspond again.
-/

namespace PredicateLanguage

variable {α β : Type} {text text' : List Char} {c c' d d' e e' f f' : Cursor} {t : Token}
  {ts us vs : List Token}

/-! ## Places with the same tokens around them -/

/-- Tokens that a text is cut into lead to the cursor behind the first of them. -/
theorem tokenizes_rest_cons_iff :
    Tokenizes c.rest (t :: ts) ↔ ∃ d, Next c t d ∧ Tokenizes d.rest ts := by
  rw [tokenizes_cons_iff]
  constructor
  · rintro ⟨rest, first, hts⟩
    exact ⟨.start rest, first, hts⟩
  · rintro ⟨d, first, hts⟩
    exact ⟨d.rest, first, hts⟩

/-- In two texts, the same tokens lead to the cursors, and the same tokens are left behind them. -/
def Aligned (text text' : List Char) (c c' : Cursor) : Prop :=
  ∃ us vs, (Reads text us c.rest ∧ Tokenizes c.rest vs) ∧
    Reads text' us c'.rest ∧ Tokenizes c'.rest vs

namespace Aligned

theorem start (h : Tokenizes text ts) (h' : Tokenizes text' ts) :
    Aligned text text' (.start text) (.start text') :=
  ⟨[], ts, ⟨.nil text, h⟩, .nil text', h'⟩

theorem symm (h : Aligned text text' c c') : Aligned text' text c' c := by
  obtain ⟨us, vs, hc, hc'⟩ := h
  exact ⟨us, vs, hc', hc⟩

/-- The token that comes next comes next in both texts. -/
theorem exists_next (h : Aligned text text' c c') (hnext : Next c t d) :
    ∃ d', Next c' t d' ∧ Aligned text text' d d' := by
  obtain ⟨us, vs, ⟨hreads, hvs⟩, hreads', hvs'⟩ := h
  obtain ⟨ws, rfl, hws⟩ := hvs.exists_cons hnext
  obtain ⟨d', hnext', hws'⟩ := tokenizes_rest_cons_iff.mp hvs'
  refine ⟨d', hnext', us ++ [t], ws, ⟨?_, hws⟩, ?_, hws'⟩
  · exact hreads.append (reads_singleton_iff.mpr hnext)
  · exact hreads'.append (reads_singleton_iff.mpr hnext')

theorem exists_reads (h : Aligned text text' c c') (hreads : Reads c.rest ts d.rest) :
    ∃ d' : Cursor, Reads c'.rest ts d'.rest ∧ Aligned text text' d d' := by
  induction ts generalizing c c' with
  | nil =>
      obtain rfl := reads_nil_iff.mp hreads
      exact ⟨c', .nil c'.rest, h⟩
  | cons t ts ih =>
      obtain ⟨e, hnext, hothers⟩ := reads_cons_iff.mp hreads
      obtain ⟨e', hnext', he⟩ := h.exists_next hnext
      obtain ⟨d', hothers', hd⟩ := ih he hothers
      exact ⟨d', .cons hnext' hothers', hd⟩

theorem take?_eq_none {s : Symbol} (h : Aligned text text' c c') (hnone : s.take? c = none) :
    s.take? c' = none := by
  rw [Symbol.take?_eq_none_iff] at hnone ⊢
  intro d' hnext'
  obtain ⟨d, hnext, -⟩ := h.symm.exists_next hnext'
  exact hnone d hnext

/-- Every quoted text is closed. -/
theorem not_unclosed (h : Aligned text text' c c') : ¬Grammar.Unclosed c e := by
  obtain ⟨us, vs, ⟨-, hvs⟩, -, -⟩ := h
  intro hopen
  cases vs with
  | nil =>
      obtain ⟨inside, htext, -⟩ := hopen
      rw [List.dropWhile_eq_nil_iff.mpr (tokenizes_nil_iff.mp hvs)] at htext
      contradiction
  | cons t vs =>
      obtain ⟨d, hnext, -⟩ := tokenizes_rest_cons_iff.mp hvs
      exact hopen.not_next hnext

end Aligned

/-! ## Places where tokens start -/

theorem left_lt_of_reads (h : Reads c.rest (t :: ts) d.rest) : d.left < c.skipSpaces.left := by
  obtain ⟨e, hnext, hothers⟩ := reads_cons_iff.mp h
  exact lt_of_le_of_lt (Cursor.left_le_of_le (le_of_reads hothers)) hnext.left_lt

/-- Of two places in a text, the one behind more tokens has fewer bytes ahead. -/
theorem left_skipSpaces_lt_iff (h : Reads c.rest us d.rest) (h' : Reads c.rest vs e.rest) :
    e.skipSpaces.left < d.skipSpaces.left ↔ us.length < vs.length := by
  induction us generalizing c vs with
  | nil =>
      obtain rfl := reads_nil_iff.mp h
      cases vs with
      | nil =>
          obtain rfl := reads_nil_iff.mp h'
          exact iff_of_false (Nat.lt_irrefl _) (Nat.lt_irrefl _)
      | cons v vs =>
          have hspaces := Cursor.left_le_of_le e.le_skipSpaces
          have hbeyond := lt_of_le_of_lt hspaces (left_lt_of_reads h')
          exact iff_of_true hbeyond (Nat.succ_pos _)
  | cons u us ih =>
      cases vs with
      | nil =>
          obtain rfl := reads_nil_iff.mp h'
          have hspaces := Cursor.left_le_of_le d.le_skipSpaces
          have hbeyond := lt_of_le_of_lt hspaces (left_lt_of_reads h)
          exact iff_of_false (Nat.lt_asymm hbeyond) (Nat.not_lt_zero _)
      | cons v vs =>
          obtain ⟨c₁, hu, hus⟩ := reads_cons_iff.mp h
          obtain ⟨c₂, hv, hvs⟩ := reads_cons_iff.mp h'
          obtain ⟨-, rfl⟩ := hu.unique hv
          rw [ih hus hvs, List.length_cons, List.length_cons, Nat.succ_lt_succ_iff]

/-- The places are those where the next token would start at two aligned cursors. -/
def SamePlace (text text' : List Char) (e e' : Cursor) : Prop :=
  ∃ d d', Aligned text text' d d' ∧ e = d.skipSpaces ∧ e' = d'.skipSpaces

theorem Aligned.samePlace (h : Aligned text text' d d') :
    SamePlace text text' d.skipSpaces d'.skipSpaces :=
  ⟨d, d', h, rfl, rfl⟩

/-- Which of two places is the later one can be told from the tokens in front of them. -/
theorem SamePlace.later (h : SamePlace text text' e e') (h' : SamePlace text text' f f') :
    SamePlace text text' (e.later f) (e'.later f') := by
  obtain ⟨d₁, d₁', hd₁, rfl, rfl⟩ := h
  obtain ⟨d₂, d₂', hd₂, rfl, rfl⟩ := h'
  obtain ⟨us, -, ⟨hus, -⟩, hus', -⟩ := id hd₁
  obtain ⟨vs, -, ⟨hvs, -⟩, hvs', -⟩ := id hd₂
  have hiff := left_skipSpaces_lt_iff (c := .start text) hus hvs
  have hiff' := left_skipSpaces_lt_iff (c := .start text') hus' hvs'
  rw [Cursor.later, Cursor.later]
  by_cases hlt : us.length < vs.length
  · rw [if_pos (hiff.mpr hlt), if_pos (hiff'.mpr hlt)]
    exact hd₂.samePlace
  · rw [if_neg (hiff.not.mpr hlt), if_neg (hiff'.not.mpr hlt)]
    exact hd₁.samePlace

theorem rel_laterMiss {m m' n n' : Option Cursor} (hm : Option.Rel (SamePlace text text') m m')
    (hn : Option.Rel (SamePlace text text') n n') :
    Option.Rel (SamePlace text text') (Marks.laterMiss m n) (Marks.laterMiss m' n') := by
  cases hm with
  | none => exact hn
  | some hplace =>
      cases hn with
      | none => exact .some hplace
      | some hplace' => exact .some (hplace.later hplace')

/-! ## Marks and attempts -/

/-- The marks are the same, up to where they are in the two texts. -/
structure Marks.Alike (text text' : List Char) (m m' : Marks) : Prop where
  levels : m.levels = m'.levels
  miss : Option.Rel (SamePlace text text') m.miss m'.miss

namespace Marks.Alike

variable {m m' n n' : Marks}

theorem empty : Alike text text' ∅ ∅ where
  levels := rfl
  miss := .none

theorem append (hm : Alike text text' m m') (hn : Alike text text' n n') :
    Alike text text' (m ++ n) (m' ++ n') where
  levels := by rw [levels_append, levels_append, hm.levels, hn.levels]
  miss := rel_laterMiss hm.miss hn.miss

end Marks.Alike

/-- The attempts have the same outcome and the same marks, up to where they are in the two texts. -/
structure Attempt.Alike (text text' : List Char) (a a' : Attempt α) : Prop where
  outcome : Option.Rel (fun y y' => y.1 = y'.1 ∧ Aligned text text' y.2 y'.2)
    a.outcome a'.outcome
  marks : a.marks.Alike text text' a'.marks

namespace Attempt.Alike

theorem found (x : α) (h : Aligned text text' d d') :
    Alike text text' (.found x d) (.found x d') where
  outcome := .some ⟨rfl, h⟩
  marks := .empty

theorem refused : Alike text text' (.refused : Attempt α) .refused where
  outcome := .none
  marks := .empty

theorem missing (h : SamePlace text text' e e') :
    Alike text text' (.missing e : Attempt α) (.missing e') where
  outcome := .none
  marks := ⟨rfl, .some h⟩

theorem after {m m' : Marks} {a a' : Attempt α} (hm : m.Alike text text' m')
    (ha : Alike text text' a a') : Alike text text' (a.after m) (a'.after m') where
  outcome := ha.outcome
  marks := hm.append ha.marks

variable {r s : Rule α} {next : α → Rule β} {x : α}

theorem exists_matches (h : Alike text text' (r.run c) (r.run c')) (hx : r.Matches c x d) :
    ∃ d', r.Matches c' x d' ∧ Aligned text text' d d' := by
  have houtcome := h.outcome
  have hfound : (r.run c).outcome = some (x, d) := hx
  rw [hfound] at houtcome
  generalize hrun : (r.run c').outcome = outcome at houtcome
  cases houtcome with
  | @some _ y hy =>
      obtain ⟨rfl, hd⟩ := hy
      exact ⟨y.2, hrun, hd⟩

theorem fails (h : Alike text text' (r.run c) (r.run c')) (hf : r.Fails c) : r.Fails c' := by
  have houtcome := h.outcome
  have hnone : (r.run c).outcome = none := hf
  rw [hnone] at houtcome
  generalize hrun : (r.run c').outcome = outcome at houtcome
  cases houtcome with
  | none => exact hrun

theorem exists_missAt (h : Alike text text' (r.run c) (r.run c')) (hmiss : r.missAt c = some e) :
    ∃ e', r.missAt c' = some e' ∧ SamePlace text text' e e' := by
  have hplaces : Option.Rel (SamePlace text text') (r.missAt c) (r.missAt c') := h.marks.miss
  rw [hmiss] at hplaces
  generalize hmiss' : r.missAt c' = place at hplaces ⊢
  cases hplaces with
  | some hplace => exact ⟨_, rfl, hplace⟩

theorem bind (hr : Alike text text' (r.run c) (r.run c'))
    (hnext : ∀ x d d', r.Matches c x d → Aligned text text' d d' →
      Alike text text' ((next x).run d) ((next x).run d')) :
    Alike text text' ((r >>= next).run c) ((r >>= next).run c') := by
  rw [Rule.run_bind, Rule.run_bind]
  rcases r.matches_or_fails c with ⟨x, d, hx⟩ | hf
  · obtain ⟨d', hx', hd⟩ := hr.exists_matches hx
    rw [hx.run_eq, hx'.run_eq]
    exact .after hr.marks (hnext x d d' hx hd)
  · rw [hf.run_eq, (hr.fails hf).run_eq]
    exact ⟨.none, hr.marks⟩

theorem map (f : α → β) (hr : Alike text text' (r.run c) (r.run c')) :
    Alike text text' ((f <$> r).run c) ((f <$> r).run c') :=
  hr.bind fun x _ _ _ hd => .found (f x) hd

theorem orElse (hr : Alike text text' (r.run c) (r.run c'))
    (hs : Alike text text' (s.run c) (s.run c')) :
    Alike text text' ((r <|> s).run c) ((r <|> s).run c') := by
  rw [Rule.run_orElse, Rule.run_orElse]
  rcases r.matches_or_fails c with ⟨x, d, hx⟩ | hf
  · obtain ⟨d', hx', hd⟩ := hr.exists_matches hx
    rw [hx.run_eq, hx'.run_eq]
    exact ⟨.some ⟨rfl, hd⟩, hr.marks⟩
  · rw [hf.run_eq, (hr.fails hf).run_eq]
    exact .after hr.marks hs

end Attempt.Alike

/-! ## Steady rules -/

/-- Wherever the rule is tried in two texts, it does the same at aligned cursors. -/
structure Rule.Steady (r : Rule α) : Prop where
  alike : ∀ {text text' c c'}, Aligned text text' c c' →
    Attempt.Alike text text' (r.run c) (r.run c')

namespace Rule.Steady

variable {r s : Rule α} {next : α → Rule β}

theorem pure (x : α) : (pure x : Rule α).Steady where
  alike h := .found x h

theorem failure : (failure : Rule α).Steady where
  alike _ := .refused

theorem bind (hr : r.Steady) (hnext : ∀ x, (next x).Steady) : (r >>= next).Steady where
  alike h := (hr.alike h).bind fun x _ _ _ hd => (hnext x).alike hd

theorem map (hr : r.Steady) (f : α → β) : (f <$> r).Steady where
  alike h := (hr.alike h).map f

theorem orElse (hr : r.Steady) (hs : s.Steady) : (r <|> s).Steady where
  alike h := (hr.alike h).orElse (hs.alike h)

theorem deeper (hr : r.Steady) : r.deeper.Steady where
  alike h :=
    have halike := hr.alike h
    ⟨halike.outcome, congrArg Nat.succ halike.marks.levels, halike.marks.miss⟩

/-- A rule that reads the next token if it is one of some kind, and else misses it. -/
theorem of_token (kind : Token → α → Prop)
    (hmatches : ∀ {c x d}, r.Matches c x d ↔ ∃ t, Next c t d ∧ kind t x)
    (hcases : ∀ c, (∃ x d, r.run c = .found x d) ∨ r.run c = .missing c.skipSpaces ∨
      ∃ e, Grammar.Unclosed c e ∧ r.run c = .missing e) : r.Steady := by
  have hfound : ∀ {c x d}, r.Matches c x d → r.run c = .found x d := by
    intro c x d hx
    rcases hcases c with ⟨y, e, hrun⟩ | hrun | ⟨e, -, hrun⟩
    · have hy : r.Matches c y e := congrArg Attempt.outcome hrun
      obtain ⟨rfl, rfl⟩ := hx.unique hy
      exact hrun
    · rw [Matches, hrun] at hx
      contradiction
    · rw [Matches, hrun] at hx
      contradiction
  -- What is read in one of the texts is read in the other, so neither misses what the other reads.
  have hcarried : ∀ {text text' c c' x d}, Aligned text text' c c' → r.Matches c x d →
      ∃ d', r.Matches c' x d' ∧ Aligned text text' d d' := by
    intro text text' c c' x d h hx
    obtain ⟨t, hnext, ht⟩ := hmatches.mp hx
    obtain ⟨d', hnext', hd⟩ := h.exists_next hnext
    exact ⟨d', hmatches.mpr ⟨t, hnext', ht⟩, hd⟩
  constructor
  intro text text' c c' h
  rcases hcases c with ⟨x, d, hrun⟩ | hrun | ⟨e, hopen, -⟩
  · obtain ⟨d', hx', hd⟩ := hcarried h (congrArg Attempt.outcome hrun)
    rw [hrun, hfound hx']
    exact .found x hd
  · rcases hcases c' with ⟨x, d', hrun'⟩ | hrun' | ⟨e', hopen', -⟩
    · obtain ⟨d, hx, -⟩ := hcarried h.symm (congrArg Attempt.outcome hrun')
      rw [Matches, hrun] at hx
      contradiction
    · rw [hrun, hrun']
      exact .missing h.samePlace
    · exact absurd hopen' h.symm.not_unclosed
  · exact absurd hopen h.not_unclosed

end Rule.Steady

namespace Grammar

open Rule

/-! ## Rules for tokens -/

theorem missingNext_alike (h : Aligned text text' c c') :
    (missingNext c).Alike text text' (missingNext c') where
  levels := rfl
  miss := .some h.samePlace

theorem steady_eat (s : Symbol) : (eat s).Steady := by
  constructor
  intro text text' c c' h
  cases htake : s.take? c with
  | none =>
      rw [run_eat_of_none htake, run_eat_of_none (h.take?_eq_none htake)]
      exact ⟨.some ⟨rfl, h⟩, missingNext_alike h⟩
  | some d =>
      obtain ⟨d', hnext', hd⟩ := h.exists_next (Symbol.take?_eq_some_iff.mp htake)
      rw [run_eat_of_some htake, run_eat_of_some (Symbol.take?_eq_some_iff.mpr hnext')]
      exact .found true hd

theorem steady_if_eat {s : Symbol} {r r' : Rule α} (hr : r.Steady) (hr' : r'.Steady) :
    (eat s >>= fun found => if found = true then r else r').Steady := by
  refine (steady_eat s).bind fun found => ?_
  cases found with
  | false => exact hr'
  | true => exact hr

theorem steady_expect (s : Symbol) : (expect s).Steady :=
  steady_if_eat (.pure ()) .failure

theorem steady_eatAll (s : Symbol) : (eatAll s).Steady := by
  have hrun : ∀ c, (eatAll s).run c = ⟨some (s.takeAll c), missingNext (s.takeAll c).2⟩ :=
    fun _ => rfl
  constructor
  intro text text' c c' h
  obtain ⟨⟨count, d⟩, hall⟩ : ∃ y, s.takeAll c = y := ⟨_, rfl⟩
  obtain ⟨hreads, hend⟩ := Symbol.takeAll_eq_iff.mp hall
  obtain ⟨d', hreads', hd⟩ := h.exists_reads hreads
  have hall' : s.takeAll c' = (count, d') :=
    Symbol.takeAll_eq_iff.mpr ⟨hreads', hd.take?_eq_none hend⟩
  rw [hrun, hrun, hall, hall']
  exact ⟨.some ⟨rfl, hd⟩, missingNext_alike hd⟩

/-- A name is a word that starts with a letter. -/
def IsName (t : Token) (name : String) : Prop :=
  t = .word name ∧ name.toList.head?.any Char.isAlpha = true

theorem steady_identifier : identifier.Steady := by
  refine .of_token IsName (fun {c name d} => ?_) fun c => ?_
  · rw [matches_identifier]
    constructor
    · rintro ⟨hnext, halpha⟩
      exact ⟨_, hnext, rfl, halpha⟩
    · rintro ⟨_, hnext, rfl, halpha⟩
      exact ⟨hnext, halpha⟩
  · rcases identifier_cases c with hfound | hmissing
    · exact Or.inl hfound
    · exact Or.inr (Or.inl hmissing)

theorem steady_literal : literal.Steady :=
  .of_token _ matches_literal_iff literal_cases

/-- Items with a symbol between them are read one after the other in both texts. -/
theorem steady_separated {s : Symbol} {item : Rule α} (hitem : item.Steady) :
    (separated s item).Steady := by
  constructor
  intro text text' c c' h
  induction hn : c.left using Nat.strongRecOn generalizing c c' with
  | ind n ih =>
      rw [separated_eq]
      refine (hitem.alike h).bind fun x d d' hx hd => ?_
      -- Behind the symbol both texts go on with aligned cursors and fewer bytes ahead.
      refine ((steady_eat s).alike hd).bind fun found e e' hfound he => ?_
      cases found with
      | false => exact .found (x, []) he
      | true =>
          rcases matches_eat.mp hfound with ⟨-, hnext⟩ | ⟨hfalse, -⟩
          · have hlt : e.left < n := hn ▸ left_lt_of_item hx hnext
            exact (ih e.left hlt he rfl).map _
          · contradiction

end Grammar

end PredicateLanguage
