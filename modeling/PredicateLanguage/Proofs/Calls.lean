import PredicateLanguage.Proofs.Orderly
import PredicateLanguage.Proofs.Prefixes
import PredicateLanguage.Proofs.Recognition

/-!
# One call after the other

A reader keeps the furthest place at which something was missing and the deepest nesting that was
asked for, and no call clears them.  They are harmless.  Behind an expression that was read, no
place beyond the next token has been marked, and a reader that failed stands where it will fail
in the same way.  So whatever calls were made, the next one gives what it would give if the text
began where the reader stands.
-/

namespace PredicateLanguage

open Grammar

variable {p : Predicate} {d e : Cursor} {limit : Nat}

/-! ## Calls and what they leave -/

/-- A call on a reader. -/
inductive Call where
  | expression
  | predicate
  deriving DecidableEq

/-- The same error of a text that stands behind some more bytes. -/
def SyntaxError.shift (bytes : Nat) : SyntaxError → SyntaxError
  | unexpected offset found => unexpected (bytes + offset) found
  | trailing offset found => trailing (bytes + offset) found
  | tooDeep limit => tooDeep limit

theorem skipSpaces_le_of_missAt {c : Cursor} (h : (expression limit).missAt c = some e) :
    c.skipSpaces ≤ e := by
  obtain ⟨ts, hleads, -⟩ := expects_expression limit c e h
  exact hleads.skipSpaces_le

theorem Cursor.dropBytes?_utf8Length (front rest : List Char) :
    dropBytes? (utf8Length front) (front ++ rest) = some rest := by
  induction front with
  | nil => rw [utf8Length_nil, List.nil_append, dropBytes?]
  | cons x front ih =>
      have hpos := x.utf8Size_pos
      obtain ⟨n, hn⟩ := Nat.exists_eq_succ_of_ne_zero (Nat.ne_of_gt hpos)
      have hlength : utf8Length (x :: front) = n + utf8Length front + 1 := by
        rw [utf8Length_cons, hn]
        omega
      have hbytes : n + utf8Length front + 1 - x.utf8Size = utf8Length front := by omega
      rw [hlength, List.cons_append, dropBytes?, if_pos (by omega), hbytes, ih]

namespace Reader

variable {r : Reader}

/-- The reader behind a call, whatever the call gave. -/
def call (r : Reader) : Call → Reader
  | .expression => r.readExpression.2
  | .predicate => r.readPredicate.2

/-- The reader behind some calls. -/
def after (r : Reader) (calls : List Call) : Reader :=
  calls.foldl call r

theorem readPredicate_snd_of_fails (h : (expression r.limit).Fails r.cursor) :
    r.readPredicate.2 = r.readExpression.2 := by
  by_cases hlevels : r.limit < r.readExpression.2.levels
  · rw [readPredicate_of_refused hlevels]
  · rw [readPredicate_of_fails (Nat.le_of_not_lt hlevels) h]

theorem readPredicate_snd (r : Reader) :
    r.readPredicate.2 = r.readExpression.2 ∨
      r.readPredicate.2 = r.readExpression.2.skipSpaces := by
  by_cases hlevels : r.limit < r.readExpression.2.levels
  · rw [readPredicate_of_refused hlevels]
    exact Or.inl rfl
  rcases (expression r.limit).matches_or_fails r.cursor with ⟨p, d, hp⟩ | hfails
  · rw [readPredicate_of_matches (Nat.le_of_not_lt hlevels) hp]
    exact Or.inr rfl
  · exact Or.inl (readPredicate_snd_of_fails hfails)

theorem le_cursor_readExpression (r : Reader) : r.cursor ≤ r.readExpression.2.cursor :=
  ((expression r.limit).run_from r.cursor).le_cursorFrom (Cursor.le_refl _)

theorem le_cursor_readPredicate (r : Reader) : r.cursor ≤ r.readPredicate.2.cursor := by
  rcases r.readPredicate_snd with h | h
  · rw [h]
    exact r.le_cursor_readExpression
  · rw [h]
    exact Cursor.le_trans r.le_cursor_readExpression (Cursor.le_skipSpaces _)

theorem source_call (r : Reader) (c : Call) :
    (r.call c).source = r.source ∧ (r.call c).limit = r.limit := by
  cases c with
  | expression => exact ⟨rfl, rfl⟩
  | predicate =>
      rw [call]
      rcases r.readPredicate_snd with h | h
      · rw [h]
        exact ⟨rfl, rfl⟩
      · rw [h]
        exact ⟨rfl, rfl⟩

/-- No call changes the text or the limit. -/
theorem source_after (r : Reader) (calls : List Call) :
    (r.after calls).source = r.source ∧ (r.after calls).limit = r.limit := by
  induction calls generalizing r with
  | nil => exact ⟨rfl, rfl⟩
  | cons c calls ih =>
      obtain ⟨hsource, hlimit⟩ := ih (r.call c)
      obtain ⟨hsource', hlimit'⟩ := r.source_call c
      exact ⟨hsource.trans hsource', hlimit.trans hlimit'⟩

/-! ## What the reader remembers -/

/-- Nothing that the reader remembers shows in what it reads next. -/
structure Forgetful (r : Reader) : Prop where
  refused : r.limit < r.levels → r.limit < (expression r.limit).levelsAt r.cursor
  missed : ∀ {e}, (expression r.limit).Fails r.cursor →
    (expression r.limit).missAt r.cursor = some e → r.furthest ≤ e
  matched : ∀ {p d}, (expression r.limit).Matches r.cursor p d → r.furthest ≤ d.skipSpaces

namespace Forgetful

theorem of_le (hlevels : r.levels ≤ r.limit) (h : r.furthest ≤ r.cursor.skipSpaces) :
    r.Forgetful where
  refused hlt := absurd hlevels (Nat.not_le_of_lt hlt)
  missed _ hmiss := Cursor.le_trans h (skipSpaces_le_of_missAt hmiss)
  matched hp := Cursor.le_trans h (Cursor.skipSpaces_mono hp.le)

theorem ofText (text : String) (limit : Nat) : (Reader.ofText text limit).Forgetful :=
  of_le (Nat.zero_le limit) (Cursor.le_skipSpaces _)

/-- The nesting has always kept to the limit if it does so now. -/
theorem levels_le (h : r.Forgetful)
    (hlevels : (expression r.limit).levelsAt r.cursor ≤ r.limit) :
    r.readExpression.2.levels ≤ r.limit := by
  refine Nat.max_le.mpr ⟨Nat.le_of_not_lt fun hlt => ?_, hlevels⟩
  exact absurd hlevels (Nat.not_le_of_lt (h.refused hlt))

theorem levels_le_of_matches (h : r.Forgetful)
    (hp : (expression r.limit).Matches r.cursor p d) :
    r.readExpression.2.levels ≤ r.limit :=
  h.levels_le (within_expression r.limit _ p d hp)

theorem furthest_le (h : r.Forgetful) (hp : (expression r.limit).Matches r.cursor p d) :
    r.readExpression.2.furthest ≤ d.skipSpaces := by
  cases hmiss : (expression r.limit).missAt r.cursor with
  | none =>
      rw [furthest_readExpression_of_none hmiss]
      exact h.matched hp
  | some e =>
      rw [furthest_readExpression_of_some hmiss]
      exact Cursor.later_le (h.matched hp) ((orderly_expression _ _).tidy hp hmiss)

theorem furthest_eq (h : r.Forgetful) (hfails : (expression r.limit).Fails r.cursor)
    (hmiss : (expression r.limit).missAt r.cursor = some e) :
    r.readExpression.2.furthest = e := by
  rw [furthest_readExpression_of_some hmiss]
  exact Cursor.later_of_le (h.missed hfails hmiss)

theorem readExpression (h : r.Forgetful) : r.readExpression.2.Forgetful := by
  rcases (expression r.limit).matches_or_fails r.cursor with ⟨p, d, hp⟩ | hfails
  · refine of_le (h.levels_le_of_matches hp) ?_
    rw [(readExpression_of_matches hp).2]
    exact h.furthest_le hp
  · have hcursor := (readExpression_of_fails hfails).2
    constructor
    · intro hlt
      rw [hcursor]
      by_cases hbefore : r.limit < r.levels
      · exact h.refused hbefore
      · rw [levels_readExpression, limit_readExpression] at hlt
        rw [limit_readExpression]
        omega
    · intro e _ hmiss
      rw [hcursor] at hmiss
      rw [h.furthest_eq hfails hmiss]
      exact Cursor.le_refl e
    · intro p d hp
      rw [hcursor] at hp
      exact absurd hp hfails.not_matches

theorem readPredicate_snd_of_matches (h : r.Forgetful)
    (hp : (expression r.limit).Matches r.cursor p d) :
    r.readPredicate.2 = r.readExpression.2.skipSpaces := by
  rw [readPredicate_of_matches (h.levels_le_of_matches hp) hp]

theorem readPredicate (h : r.Forgetful) : r.readPredicate.2.Forgetful := by
  rcases (expression r.limit).matches_or_fails r.cursor with ⟨p, d, hp⟩ | hfails
  · have hcursor : r.readExpression.2.skipSpaces.cursor = d.skipSpaces :=
      congrArg Cursor.skipSpaces (readExpression_of_matches hp).2
    rw [h.readPredicate_snd_of_matches hp]
    refine of_le (h.levels_le_of_matches hp) ?_
    rw [hcursor, Cursor.skipSpaces_skipSpaces]
    exact h.furthest_le hp
  · rw [readPredicate_snd_of_fails hfails]
    exact h.readExpression

theorem after (h : r.Forgetful) (calls : List Call) : (r.after calls).Forgetful := by
  induction calls generalizing r with
  | nil => exact h
  | cons c calls ih =>
      cases c with
      | expression => exact ih h.readExpression
      | predicate => exact ih h.readPredicate

end Forgetful

/-! ## A fresh reader -/

/-- A new reader of what is still to be read. -/
def fresh (r : Reader) : Reader :=
  .ofText r.remaining r.limit

theorem cursor_fresh (r : Reader) : r.fresh.cursor = r.cursor := by
  apply Cursor.ext
  show r.remaining.toList = r.cursor.rest
  rw [remaining, String.toList_ofList]

theorem source_fresh (r : Reader) : r.fresh.source = r.cursor :=
  r.cursor_fresh

/-- Offsets from the place of a reader add to the offset of that place. -/
theorem offsetOf_eq_add (h : r.cursor ≤ e) :
    r.offsetOf e = r.position + r.fresh.offsetOf e := by
  have hsource := Cursor.left_le_of_le r.source_le_cursor
  have hle := Cursor.left_le_of_le h
  rw [position, offsetOf, offsetOf, offsetOf, source_fresh]
  omega

theorem position_eq_add {now new : Reader} (hnow : now.source = r.source)
    (hnew : new.source = r.fresh.source) (hcursor : now.cursor = new.cursor)
    (hle : r.cursor ≤ now.cursor) : now.position = r.position + new.position := by
  have hnow' : now.position = r.offsetOf now.cursor := by
    rw [position, offsetOf, hnow, offsetOf]
  have hnew' : new.position = r.fresh.offsetOf now.cursor := by
    rw [position, offsetOf, hnew, hcursor, offsetOf]
  rw [hnow', hnew']
  exact offsetOf_eq_add hle

/-- What is still to be read stands behind as many bytes as were read. -/
theorem dropBytes?_position (r : Reader) :
    Cursor.dropBytes? r.position r.source.rest = some r.remaining.toList := by
  obtain ⟨front, hfront⟩ := r.source_le_cursor
  have hposition : r.position = utf8Length front := by
    rw [position, offsetOf, r.source.left_eq, ← hfront, utf8Length_append, r.cursor.left_eq,
      Nat.add_sub_cancel]
  rw [hposition, ← hfront, remaining, String.toList_ofList]
  exact Cursor.dropBytes?_utf8Length front r.cursor.rest

theorem readExpression_fresh (r : Reader) :
    r.fresh.readExpression.1 = r.readExpression.1 ∧
      r.fresh.readExpression.2.cursor = r.readExpression.2.cursor := by
  have hrun : (expression r.fresh.limit).run r.fresh.cursor = (expression r.limit).run r.cursor :=
    congrArg (expression r.limit).run r.cursor_fresh
  refine ⟨congrArg (fun a => a.outcome.map Prod.fst) hrun, ?_⟩
  rw [cursor_readExpression, cursor_readExpression, hrun, cursor_fresh]

namespace Forgetful

/-- The next predicate is read, or refused, as by a fresh reader. -/
theorem readPredicate_fst (h : r.Forgetful) :
    r.readPredicate.1 = r.fresh.readPredicate.1.mapError (SyntaxError.shift r.position) := by
  have hfresh : r.fresh.Forgetful := .ofText r.remaining r.limit
  by_cases hlevels : (expression r.limit).levelsAt r.cursor ≤ r.limit
  · have hnow := h.levels_le hlevels
    rw [← cursor_fresh] at hlevels
    have hnew := hfresh.levels_le hlevels
    rcases (expression r.limit).matches_or_fails r.cursor with ⟨p, d, hp⟩ | hfails
    · have hplace := Cursor.le_trans hp.le (Cursor.le_skipSpaces d)
      rw [readPredicate_of_matches hnow hp, offsetOf_eq_add hplace]
      rw [← cursor_fresh] at hp
      rw [readPredicate_of_matches hnew hp]
      cases d.skipSpaces.atEnd with
      | true => rfl
      | false => rfl
    · obtain ⟨e, hmiss⟩ := Option.ne_none_iff_exists'.mp
        ((orderly_expression r.limit r.cursor).loud hfails (by rwa [← cursor_fresh]))
      rw [readPredicate_of_fails hnow hfails, furthestOffset, h.furthest_eq hfails hmiss]
      have hplace : r.readExpression.2.offsetOf e = r.position + r.fresh.offsetOf e :=
        offsetOf_eq_add (Rule.le_of_missAt hmiss)
      rw [← cursor_fresh] at hfails hmiss
      rw [hplace, readPredicate_of_fails hnew hfails, furthestOffset,
        hfresh.furthest_eq hfails hmiss]
      rfl
  · have hrefused := Nat.lt_of_not_le hlevels
    have hnow := lt_of_lt_of_le hrefused (Nat.le_max_right r.levels _)
    rw [← cursor_fresh] at hrefused
    have hnew := lt_of_lt_of_le hrefused (Nat.le_max_right r.fresh.levels _)
    rw [readPredicate_of_refused hnow]
    rw [readPredicate_of_refused (r := r.fresh) hnew]
    rfl

theorem cursor_readPredicate (h : r.Forgetful) :
    r.readPredicate.2.cursor = r.fresh.readPredicate.2.cursor := by
  have hfresh : r.fresh.Forgetful := .ofText r.remaining r.limit
  have hcursor := r.readExpression_fresh.2
  rcases (expression r.limit).matches_or_fails r.cursor with ⟨p, d, hp⟩ | hfails
  · rw [h.readPredicate_snd_of_matches hp]
    rw [← cursor_fresh] at hp
    rw [hfresh.readPredicate_snd_of_matches hp]
    exact congrArg Cursor.skipSpaces hcursor.symm
  · rw [readPredicate_snd_of_fails hfails]
    rw [← cursor_fresh] at hfails
    rw [readPredicate_snd_of_fails (r := r.fresh) hfails, hcursor]

end Forgetful

/-! ## After a failure -/

/-- Where no expression can be read, no call goes on. -/
theorem cursor_after_of_fails (h : (expression r.limit).Fails r.cursor) (calls : List Call) :
    (r.after calls).cursor = r.cursor := by
  induction calls generalizing r with
  | nil => rfl
  | cons c calls ih =>
      have hcall : (r.call c).cursor = r.cursor := by
        cases c with
        | expression => exact (readExpression_of_fails h).2
        | predicate =>
            rw [call, readPredicate_snd_of_fails h]
            exact (readExpression_of_fails h).2
      have hfails : (expression (r.call c).limit).Fails (r.call c).cursor := by
        rw [hcall, (r.source_call c).2]
        exact h
      exact (ih hfails).trans hcall

/-- An error that is not about trailing text leaves a reader where it was. -/
theorem fails_of_error {err : SyntaxError} (h : r.Forgetful)
    (herr : r.readPredicate.1 = .error err)
    (htrailing : ∀ offset found, err ≠ .trailing offset found) :
    (expression r.limit).Fails r.cursor := by
  rcases (expression r.limit).matches_or_fails r.cursor with ⟨p, d, hp⟩ | hfails
  · rw [readPredicate_of_matches (h.levels_le_of_matches hp) hp] at herr
    cases hend : d.skipSpaces.atEnd with
    | true =>
        rw [hend] at herr
        contradiction
    | false =>
        rw [hend] at herr
        exact absurd (Except.error.inj herr).symm (htrailing _ _)
  · exact hfails

/-- What a reader says depends on where it stands, and not on how it got there. -/
theorem readPredicate_fst_congr {r' : Reader} (h : r.Forgetful) (h' : r'.Forgetful)
    (hsource : r'.source = r.source) (hlimit : r'.limit = r.limit)
    (hcursor : r'.cursor = r.cursor) : r'.readPredicate.1 = r.readPredicate.1 := by
  have hfresh : r'.fresh = r.fresh := by
    rw [fresh, fresh, remaining, remaining, hcursor, hlimit]
  have hposition : r'.position = r.position := by
    rw [position, position, offsetOf, offsetOf, hcursor, hsource]
  rw [h'.readPredicate_fst, h.readPredicate_fst, hfresh, hposition]

/-- Whatever calls were made, the next one gives what it gives on a fresh reader of what is still
to be read, with every place as many bytes further on as were read before.  An error that is not
about trailing text is given again by every later call. -/
theorem after_calls_as_fresh (source : String) (limit : Nat) (calls : List Call) :
    let r := (ofText source limit).after calls
    let new := ofText r.remaining limit
    Cursor.dropBytes? r.position source.toList = some r.remaining.toList ∧
      r.readExpression.1 = new.readExpression.1 ∧
      r.readExpression.2.position = r.position + new.readExpression.2.position ∧
      r.readPredicate.1 = new.readPredicate.1.mapError (SyntaxError.shift r.position) ∧
      r.readPredicate.2.position = r.position + new.readPredicate.2.position ∧
      ∀ err, r.readPredicate.1 = .error err →
        (∀ offset found, err ≠ .trailing offset found) →
          ∀ later, (r.readPredicate.2.after later).readPredicate.1 = .error err := by
  intro r new
  obtain ⟨hsource, hlimit⟩ := (ofText source limit).source_after calls
  have h : r.Forgetful := (Forgetful.ofText source limit).after calls
  have hnew : new = r.fresh := congrArg (fun limit => ofText r.remaining limit) hlimit.symm
  obtain ⟨hexpression, hcursor⟩ := r.readExpression_fresh
  refine ⟨?_, ?_, ?_, ?_, ?_, ?_⟩
  · have hdrop := r.dropBytes?_position
    rw [hsource] at hdrop
    exact hdrop
  · rw [hnew, hexpression]
  · rw [hnew]
    exact position_eq_add rfl rfl hcursor.symm r.le_cursor_readExpression
  · rw [hnew]
    exact h.readPredicate_fst
  · rw [hnew]
    exact position_eq_add (r.source_call .predicate).1 (r.fresh.source_call .predicate).1
      h.cursor_readPredicate r.le_cursor_readPredicate
  · intro err herr htrailing later
    have hfails := fails_of_error h herr htrailing
    have hafter : r.after (.predicate :: later) = r.readPredicate.2.after later := rfl
    obtain ⟨hsource', hlimit'⟩ := r.source_after (.predicate :: later)
    have hcursor' := cursor_after_of_fails hfails (.predicate :: later)
    have h' := h.after (.predicate :: later)
    rw [← hafter, readPredicate_fst_congr h h' hsource' hlimit' hcursor', herr]

/-- Behind a first expression the rest of a text is refused at its end, and is so ever after. -/
theorem after_calls_as_fresh_dangling :
    ((ofText "a b ==" 0).after [.expression]).readPredicate.1 =
        .error (.unexpected 6 .endOfInput) ∧
      ∀ later, (((ofText "a b ==" 0).after [.expression]).readPredicate.2.after
        later).readPredicate.1 = .error (.unexpected 6 .endOfInput) := by
  have h : ((ofText "a b ==" 0).after [.expression]).readPredicate.1 =
      .error (.unexpected 6 .endOfInput) := by
    decide +kernel
  obtain ⟨-, -, -, -, -, hagain⟩ := after_calls_as_fresh "a b ==" 0 [.expression]
  exact ⟨h, hagain _ h (by intro offset found; exact nofun)⟩

end Reader

end PredicateLanguage
