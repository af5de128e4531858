import PredicateLanguage.Grammar.Reader
import PredicateLanguage.Proofs.Misses

/-!
# What a reader says

A reader tries the rule for expressions where it stands.  Whether the rule matches, fails or asks
for too many levels decides what the reader says of the text, where it goes on and what it
remembers.
-/

namespace PredicateLanguage.Reader

open Grammar

variable {r : Reader} {p : Predicate} {d e : Cursor}

/-! ## Expressions -/

@[simp]
theorem limit_readExpression (r : Reader) : r.readExpression.2.limit = r.limit := rfl

/-- The deepest nesting that is asked for up to the end of the next expression. -/
theorem levels_readExpression (r : Reader) :
    r.readExpression.2.levels = max r.levels ((expression r.limit).levelsAt r.cursor) := rfl

theorem cursor_readExpression (r : Reader) :
    r.readExpression.2.cursor = ((expression r.limit).run r.cursor).cursorFrom r.cursor := rfl

theorem furthest_readExpression (r : Reader) :
    r.readExpression.2.furthest =
      ((expression r.limit).run r.cursor).marks.furthestFrom r.furthest := rfl

theorem readExpression_of_matches (h : (expression r.limit).Matches r.cursor p d) :
    r.readExpression.1 = some p ∧ r.readExpression.2.cursor = d := by
  refine ⟨congrArg (Option.map Prod.fst) h, ?_⟩
  rw [cursor_readExpression, h.run_eq]
  rfl

theorem readExpression_of_fails (h : (expression r.limit).Fails r.cursor) :
    r.readExpression.1 = none ∧ r.readExpression.2.cursor = r.cursor := by
  refine ⟨congrArg (Option.map Prod.fst) h, ?_⟩
  rw [cursor_readExpression, h.run_eq]
  rfl

theorem furthest_readExpression_of_some (h : (expression r.limit).missAt r.cursor = some e) :
    r.readExpression.2.furthest = r.furthest.later e := by
  have hmiss : ((expression r.limit).run r.cursor).marks.miss = some e := h
  rw [furthest_readExpression, Marks.furthestFrom, hmiss]

theorem furthest_readExpression_of_none (h : (expression r.limit).missAt r.cursor = none) :
    r.readExpression.2.furthest = r.furthest := by
  have hmiss : ((expression r.limit).run r.cursor).marks.miss = none := h
  rw [furthest_readExpression, Marks.furthestFrom, hmiss]

/-! ## Whole predicates -/

theorem readPredicate_of_refused (h : r.limit < r.readExpression.2.levels) :
    r.readPredicate = (.error (.tooDeep r.limit), r.readExpression.2) := by
  rw [readPredicate]
  exact if_pos h

theorem readPredicate_of_fails (hlevels : r.readExpression.2.levels ≤ r.limit)
    (h : (expression r.limit).Fails r.cursor) :
    r.readPredicate = (.error (.unexpected r.readExpression.2.furthestOffset
      (.ahead r.readExpression.2.furthest)), r.readExpression.2) := by
  have hnone := (readExpression_of_fails h).1
  rw [readPredicate]
  dsimp only
  rw [limit_readExpression, if_neg (Nat.not_lt_of_le hlevels), hnone]

theorem readPredicate_of_matches (hlevels : r.readExpression.2.levels ≤ r.limit)
    (h : (expression r.limit).Matches r.cursor p d) :
    r.readPredicate = (if d.skipSpaces.atEnd then .ok p else
      .error (.trailing (r.offsetOf d.skipSpaces) (.ahead d.skipSpaces)),
      r.readExpression.2.skipSpaces) := by
  obtain ⟨hsome, hcursor⟩ := readExpression_of_matches h
  have hplace : r.readExpression.2.skipSpaces.cursor = d.skipSpaces :=
    congrArg Cursor.skipSpaces hcursor
  have hend : r.readExpression.2.skipSpaces.atEnd = d.skipSpaces.atEnd :=
    congrArg Cursor.atEnd hplace
  have hposition : r.readExpression.2.skipSpaces.position = r.offsetOf d.skipSpaces :=
    congrArg r.offsetOf hplace
  rw [readPredicate]
  dsimp only
  rw [limit_readExpression, if_neg (Nat.not_lt_of_le hlevels), hsome]
  dsimp only
  rw [hend, hposition, hplace]
  by_cases hatEnd : d.skipSpaces.atEnd = true
  · rw [if_pos hatEnd, if_pos hatEnd]
  · rw [if_neg hatEnd, if_neg hatEnd]

end PredicateLanguage.Reader
