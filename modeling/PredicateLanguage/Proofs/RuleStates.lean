import PredicateLanguage.Proofs.Chains

/-!
# States that rules change

Rules hand on cursors and leave marks.  Whoever tries one rule after the other keeps a state that
stands at a cursor and takes up the marks.  What else there is in the state does not matter for how
a rule that is built from others changes it, as long as marks are taken up one after the other.
-/

namespace PredicateLanguage

open Grammar Rule

theorem Marks.furthestFrom_append (m n : Marks) (c : Cursor) :
    (m ++ n).furthestFrom c = n.furthestFrom (m.furthestFrom c) := by
  cases hm : m.miss with
  | none => simp [furthestFrom, hm, laterMiss]
  | some d =>
      cases hn : n.miss with
      | none => simp [furthestFrom, hm, hn, laterMiss]
      | some e => simp [furthestFrom, hm, hn, laterMiss, Cursor.later_assoc]

/-- States that stand at a cursor and take up marks. -/
class RuleState (σ : Type) where
  cursor : σ → Cursor
  moveTo : σ → Cursor → σ
  mark : σ → Marks → σ
  cursor_moveTo : ∀ s c, cursor (moveTo s c) = c
  cursor_mark : ∀ s m, cursor (mark s m) = cursor s
  moveTo_cursor : ∀ s, moveTo s (cursor s) = s
  moveTo_moveTo : ∀ s c d, moveTo (moveTo s c) d = moveTo s d
  mark_moveTo : ∀ s c m, mark (moveTo s c) m = moveTo (mark s m) c
  mark_empty : ∀ s, mark s ∅ = s
  mark_mark : ∀ s m n, mark (mark s m) n = mark s (m ++ n)

namespace RuleState

variable {α β σ : Type} [RuleState σ]

/-- Tries a rule. -/
def read (s : σ) (rule : Rule α) : Option α × σ :=
  let a := rule.run (cursor s)
  (a.outcome.map Prod.fst, moveTo (mark s a.marks) (a.cursorFrom (cursor s)))

/-- Goes back to a cursor if nothing was read. -/
def orBackTo (c : Cursor) : Option α × σ → Option α × σ
  | (none, s) => (none, moveTo s c)
  | (some x, s) => (some x, s)

variable {s t : σ} {c d : Cursor} {m : Marks} {x : α}

theorem moveTo_mark_cursor (s : σ) (m : Marks) : moveTo (mark s m) (cursor s) = mark s m := by
  rw [← cursor_mark s m, moveTo_cursor]

theorem read_of_found {rule : Rule α} (h : rule.run (cursor s) = ⟨some (x, d), m⟩) :
    read s rule = (some x, moveTo (mark s m) d) := by
  rw [read, h]
  rfl

theorem read_of_missed {rule : Rule α} (h : rule.run (cursor s) = ⟨none, m⟩) :
    read s rule = (none, mark s m) := by
  rw [read, h]
  exact Prod.ext rfl (moveTo_mark_cursor s m)

/-- A rule matches, or it fails and leaves the cursor where it was. -/
theorem read_cases (s : σ) (rule : Rule α) :
    (∃ x d m, rule.run (cursor s) = ⟨some (x, d), m⟩ ∧
        read s rule = (some x, moveTo (mark s m) d)) ∨
      ∃ m, rule.run (cursor s) = ⟨none, m⟩ ∧ read s rule = (none, mark s m) := by
  rcases rule.matches_or_fails (cursor s) with ⟨x, d, h⟩ | h
  · exact Or.inl ⟨x, d, _, h.run_eq, read_of_found h.run_eq⟩
  · exact Or.inr ⟨_, h.run_eq, read_of_missed h.run_eq⟩

theorem orBackTo_read (s : σ) (rule : Rule α) :
    orBackTo (cursor s) (read s rule) = read s rule := by
  rcases read_cases s rule with ⟨x, d, m, -, h⟩ | ⟨m, -, h⟩
  · rw [h]
    rfl
  · rw [h, orBackTo, moveTo_mark_cursor]

theorem orBackTo_orBackTo (c d : Cursor) (result : Option α × σ) :
    orBackTo d (orBackTo c result) = orBackTo d result := by
  rcases result with ⟨_ | x, s⟩
  · exact Prod.ext rfl (moveTo_moveTo s c d)
  · rfl

/-! ## Rules that are built from others -/

theorem read_pure (x : α) (s : σ) : read s (pure x) = (some x, s) := by
  rw [read_of_found (run_pure x (cursor s)), mark_empty, moveTo_cursor]

theorem read_failure (s : σ) : read s (failure : Rule α) = (none, s) := by
  rw [read_of_missed (run_failure (cursor s)), mark_empty]

/-- What is read next is read in the state that was left, and all of it is given up if that
fails. -/
theorem read_bind (r : Rule α) (next : α → Rule β) (s : σ) :
    read s (r >>= next) =
      match read s r with
      | (none, t) => (none, t)
      | (some x, t) => orBackTo (cursor s) (read t (next x)) := by
  rcases read_cases s r with ⟨x, d, m, hrun, h⟩ | ⟨m, hrun, h⟩
  · rw [h]
    have hbind : (r >>= next).run (cursor s) = ((next x).run d).after m := by
      rw [run_bind, hrun]
    have hd : cursor (moveTo (mark s m) d) = d := cursor_moveTo _ d
    dsimp only
    rcases read_cases (moveTo (mark s m) d) (next x) with ⟨y, e, n, hnext, h'⟩ | ⟨n, hnext, h'⟩
    · rw [hd] at hnext
      rw [hnext] at hbind
      rw [h', read_of_found hbind, mark_moveTo, mark_mark, moveTo_moveTo]
      rfl
    · rw [hd] at hnext
      rw [hnext] at hbind
      rw [h', read_of_missed hbind, mark_moveTo, mark_mark, orBackTo, moveTo_moveTo,
        moveTo_mark_cursor]
  · have hbind : (r >>= next).run (cursor s) = ⟨none, m⟩ := by rw [run_bind, hrun]
    rw [h, read_of_missed hbind]

theorem read_map (f : α → β) (r : Rule α) (s : σ) :
    read s (f <$> r) = ((read s r).1.map f, (read s r).2) := by
  have hmap := run_map f r (cursor s)
  rcases read_cases s r with ⟨x, d, m, hrun, h⟩ | ⟨m, hrun, h⟩
  · rw [hrun] at hmap
    rw [h, read_of_found hmap]
    rfl
  · rw [hrun] at hmap
    rw [h, read_of_missed hmap]
    rfl

theorem read_orElse (r r' : Rule α) (s : σ) :
    read s (r <|> r') =
      match read s r with
      | (none, t) => read t r'
      | (some x, t) => (some x, t) := by
  have horElse := run_orElse r r' (cursor s)
  rcases read_cases s r with ⟨x, d, m, hrun, h⟩ | ⟨m, hrun, h⟩
  · rw [hrun] at horElse
    rw [h, read_of_found horElse]
  · rw [hrun] at horElse
    rw [h]
    dsimp only
    rcases read_cases (mark s m) r' with ⟨y, e, n, hnext, h'⟩ | ⟨n, hnext, h'⟩
    · rw [cursor_mark] at hnext
      rw [hnext] at horElse
      rw [h', read_of_found horElse, mark_mark]
    · rw [cursor_mark] at hnext
      rw [hnext] at horElse
      rw [h', read_of_missed horElse, mark_mark]

theorem read_eat_of_some {operator : Symbol} (h : operator.take? (cursor s) = some d) :
    read s (eat operator) = (some true, moveTo s d) := by
  rw [read_of_found (run_eat_of_some h), mark_empty]

theorem read_eat_of_none {operator : Symbol} (h : operator.take? (cursor s) = none) :
    read s (eat operator) = (some false, mark s (missingNext (cursor s))) := by
  rw [read_of_found (run_eat_of_none h), moveTo_mark_cursor]

/-! ## Where reading goes on -/

theorem matches_of_read {rule : Rule α} (h : read s rule = (some x, t)) :
    rule.Matches (cursor s) x (cursor t) := by
  rcases read_cases s rule with ⟨y, d, m, hrun, h'⟩ | ⟨m, -, h'⟩
  · obtain ⟨hx, rfl⟩ := Prod.mk.inj (h'.symm.trans h)
    rw [Matches, hrun, cursor_moveTo, Option.some.inj hx]
  · cases h'.symm.trans h

/-- No rule goes back behind the cursor, and one that fails leaves it where it was. -/
theorem cursor_le_of_read {rule : Rule α} {result : Option α} (h : read s rule = (result, t)) :
    cursor s ≤ cursor t := by
  obtain rfl : (read s rule).2 = t := congrArg Prod.snd h
  rw [read, cursor_moveTo]
  exact (rule.run_from (cursor s)).le_cursorFrom (Cursor.le_refl (cursor s))

theorem cursor_eq_of_missed {rule : Rule α} (h : read s rule = (none, t)) :
    cursor t = cursor s := by
  rcases read_cases s rule with ⟨x, d, m, -, h'⟩ | ⟨m, -, h'⟩
  · cases h'.symm.trans h
  · obtain rfl := (Prod.mk.inj (h'.symm.trans h)).2
    exact cursor_mark s m

end RuleState

end PredicateLanguage
