import PredicateLanguage.Grammar.Rule
import PredicateLanguage.Grammar.Symbol

/-!
# Reading tokens

There is no separate list of tokens: a rule for a token skips spaces and reads at
the cursor, so the grammar decides whether a bare word is a name or a literal.
A token that is not there is marked as missing where the spaces end.
-/

namespace PredicateLanguage

/-- The cursor behind a symbol, if after spaces the symbol stands next. -/
def Symbol.take? (s : Symbol) (c : Cursor) : Option Cursor :=
  let d := c.skipSpaces
  if s.opens d.rest then
    some (d.advance s.text.toList.length)
  else
    none

theorem Symbol.le_of_take? {s : Symbol} {c d : Cursor} (h : s.take? c = some d) : c ≤ d := by
  simp only [take?] at h
  split at h
  · obtain rfl := Option.some.inj h
    exact Cursor.le_trans (Cursor.le_skipSpaces c) (Cursor.le_advance _ _)
  · contradiction

/-- A symbol that is there leaves fewer bytes ahead. -/
theorem Symbol.left_lt_of_take? {s : Symbol} {c d : Cursor} (h : s.take? c = some d) :
    d.left < c.left := by
  simp only [take?] at h
  split at h
  · rename_i hs
    obtain rfl := Option.some.inj h
    have hd := Cursor.left_le_of_le (Cursor.le_skipSpaces c)
    have hn : s.text.toList.length ≠ 0 := by cases s <;> decide
    have hc : c.skipSpaces.rest ≠ [] := by
      intro hnil
      rw [hnil] at hs
      revert hs
      cases s <;> decide
    have := Cursor.left_advance_lt hn hc
    omega
  · contradiction

/-- How often a symbol stands next, and the cursor behind the last time. -/
def Symbol.takeAll (s : Symbol) (c : Cursor) : Nat × Cursor :=
  match _h : s.take? c with
  | some d =>
    let (count, e) := s.takeAll d
    (count + 1, e)
  | none => (0, c)
termination_by c.left
decreasing_by exact Symbol.left_lt_of_take? _h

theorem Symbol.takeAll_eq (s : Symbol) (c : Cursor) :
    s.takeAll c =
      match s.take? c with
      | some d => ((s.takeAll d).1 + 1, (s.takeAll d).2)
      | none => (0, c) := by
  fun_cases takeAll s c <;> simp [*]

theorem Symbol.le_takeAll (s : Symbol) (c : Cursor) : c ≤ (s.takeAll c).2 := by
  fun_induction takeAll s c with
  | case1 c d h count e he ih =>
    rw [he] at ih
    exact Cursor.le_trans (Symbol.le_of_take? h) ih
  | case2 c => exact Cursor.le_refl c

namespace Grammar

/-- The mark of a token that does not stand next. -/
def missingNext (c : Cursor) : Marks :=
  { miss := some c.skipSpaces }

theorem missingNext_from (c : Cursor) : (missingNext c).From c := by
  intro d h
  obtain rfl := Option.some.inj h
  exact Cursor.le_skipSpaces c

/-- Reads a symbol if it stands next; matches either way and tells which. -/
def eat (s : Symbol) : Rule Bool where
  run c :=
    match s.take? c with
    | some d => .found true d
    | none => ⟨some (false, c), missingNext c⟩
  run_from c := by
    split
    · exact .found (Symbol.le_of_take? ‹_›)
    · exact ⟨by rintro x d ⟨⟩; exact Cursor.le_refl c, missingNext_from c⟩

/-- Reads a symbol that has to stand next. -/
def expect (s : Symbol) : Rule Unit := do
  if ← eat s then
    pure ()
  else
    failure

/-- Reads a name: a letter, then as many word characters as follow. -/
def identifier : Rule String where
  run c :=
    let d := c.skipSpaces
    if d.rest.head?.any Char.isAlpha then
      .found (String.ofList (d.rest.takeWhile isWord)) (d.dropWhile isWord)
    else
      .missing d
  run_from c := by
    have hd := Cursor.le_skipSpaces c
    dsimp only
    split
    · exact .found (Cursor.le_trans hd (Cursor.le_dropWhile _ _))
    · exact .missing hd

/-- The quote that opens and closes a quoted literal. -/
def quote : Char := '\x27'

/-- Reads a literal: the text between two quotes, in which nothing is escaped, or as
many word characters as follow.  A quote that is never closed is marked as missing at
the end of the text. -/
def literal : Rule String where
  run c :=
    let d := c.skipSpaces
    if d.rest.head? = some quote then
      let inside := d.advance 1
      let closing := inside.dropWhile (· ≠ quote)
      if closing.atEnd then
        .missing closing
      else
        .found (String.ofList (inside.rest.takeWhile (· ≠ quote))) (closing.advance 1)
    else if d.rest.head?.any isWord then
      .found (String.ofList (d.rest.takeWhile isWord)) (d.dropWhile isWord)
    else
      .missing d
  run_from c := by
    have hd := Cursor.le_skipSpaces c
    have hc : c ≤ (c.skipSpaces.advance 1).dropWhile (· ≠ quote) :=
      Cursor.le_trans hd (Cursor.le_trans (Cursor.le_advance _ _) (Cursor.le_dropWhile _ _))
    dsimp only
    split
    · split
      · exact .missing hc
      · exact .found (Cursor.le_trans hc (Cursor.le_advance _ _))
    · split
      · exact .found (Cursor.le_trans hd (Cursor.le_dropWhile _ _))
      · exact .missing hd

/-- Reads a symbol as often as it stands next, and counts. -/
def eatAll (s : Symbol) : Rule Nat where
  run c :=
    let (count, d) := s.takeAll c
    ⟨some (count, d), missingNext d⟩
  run_from c :=
    have h := s.le_takeAll c
    ⟨by rintro x d ⟨⟩; exact h, (missingNext_from _).mono h⟩

/-- The items of a reading in order, given the last of them and those before it, the
latest first. -/
def inOrder (last : α) : List α → List α → α × List α
  | [], behind => (last, behind)
  | x :: earlier, behind => inOrder x earlier (last :: behind)

/-- Goes on reading items and symbols in turn, with the items and marks so far, the
latest item first. -/
def separatedFrom (s : Symbol) (item : Rule α) (earlier : List α) (marks : Marks)
    (c : Cursor) : Attempt (α × List α) :=
  match _hx : item.run c with
  | ⟨none, m⟩ => ⟨none, marks ++ m⟩
  | ⟨some (x, d), m⟩ =>
    match _hs : s.take? d with
    | some e => separatedFrom s item (x :: earlier) (marks ++ m) e
    | none => ⟨some (inOrder x earlier [], d), marks ++ m ++ missingNext d⟩
termination_by c.left
decreasing_by
  have := Symbol.left_lt_of_take? _hs
  have := Cursor.left_le_of_le (Rule.le_of_run (r := item) (by rw [_hx]))
  omega

theorem separatedFrom_eq (s : Symbol) (item : Rule α) (earlier : List α) (marks : Marks)
    (c : Cursor) :
    separatedFrom s item earlier marks c =
      match item.run c with
      | ⟨none, m⟩ => ⟨none, marks ++ m⟩
      | ⟨some (x, d), m⟩ =>
        match s.take? d with
        | some e => separatedFrom s item (x :: earlier) (marks ++ m) e
        | none => ⟨some (inOrder x earlier [], d), marks ++ m ++ missingNext d⟩ := by
  fun_cases separatedFrom s item earlier marks c <;> simp [*]

theorem separatedFrom_from (s : Symbol) (item : Rule α) (earlier : List α) (marks : Marks)
    {b c : Cursor} (hbc : b ≤ c) (hm : marks.From b) :
    (separatedFrom s item earlier marks c).From b := by
  fun_induction separatedFrom s item earlier marks c with
  | case1 earlier marks c m hx =>
    have hi := (item.run_from c).mono hbc
    rw [hx] at hi
    exact ⟨by rintro x e ⟨⟩, hm.append hi.marks⟩
  | case2 earlier marks c x d m hx e hs ih =>
    have hi := (item.run_from c).mono hbc
    rw [hx] at hi
    exact ih (Cursor.le_trans (hi.outcome x d rfl) (Symbol.le_of_take? hs))
      (hm.append hi.marks)
  | case3 earlier marks c x d m hx hs =>
    have hi := (item.run_from c).mono hbc
    rw [hx] at hi
    have hd := hi.outcome x d rfl
    exact ⟨by rintro y z ⟨⟩; exact hd,
      (hm.append hi.marks).append ((missingNext_from d).mono hd)⟩

/-- Reads one or more items with a symbol between every two of them.  A symbol that no
item follows makes the whole fail. -/
def separated (s : Symbol) (item : Rule α) : Rule (α × List α) where
  run c := separatedFrom s item [] ∅ c
  run_from c := separatedFrom_from s item [] ∅ (Cursor.le_refl c) (Marks.From.empty c)

end Grammar

end PredicateLanguage
