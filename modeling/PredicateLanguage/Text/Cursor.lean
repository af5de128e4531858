import PredicateLanguage.Text.Character

/-!
# Places in a text

A cursor is held as the text that follows it, so two cursors with the same text
ahead are equal and whatever is read from them is the same.  A cursor always
stands between two characters.  `c ≤ d` says that `d` is reached from `c` by
moving forward; the bytes left give the distance between the two.
-/

namespace PredicateLanguage

/-- A place in a text: what follows it, and the length of that in bytes. -/
structure Cursor where
  rest : List Char
  left : Nat
  left_eq : left = utf8Length rest

namespace Cursor

@[ext]
theorem ext {c d : Cursor} (h : c.rest = d.rest) : c = d := by
  obtain ⟨rest, left, left_eq⟩ := c
  obtain ⟨rest', left', left_eq'⟩ := d
  subst h
  simp [left_eq, left_eq']

instance : DecidableEq Cursor := fun c d =>
  decidable_of_iff (c.rest = d.rest) ⟨Cursor.ext, fun h => h ▸ rfl⟩

def start (text : List Char) : Cursor :=
  ⟨text, utf8Length text, rfl⟩

@[simp]
theorem rest_start (text : List Char) : (start text).rest = text := rfl

/-- Nothing follows the end of a text. -/
def atEnd (c : Cursor) : Bool :=
  c.rest.isEmpty

instance : LE Cursor :=
  ⟨fun c d => d.rest <:+ c.rest⟩

theorem le_def {c d : Cursor} : c ≤ d ↔ d.rest <:+ c.rest := Iff.rfl

theorem le_refl (c : Cursor) : c ≤ c :=
  List.suffix_refl c.rest

theorem le_trans {c d e : Cursor} (hcd : c ≤ d) (hde : d ≤ e) : c ≤ e :=
  List.IsSuffix.trans hde hcd

/-- Moving forward leaves no more bytes ahead. -/
theorem left_le_of_le {c d : Cursor} (h : c ≤ d) : d.left ≤ c.left := by
  obtain ⟨skipped, h⟩ := h
  rw [c.left_eq, d.left_eq, ← h, utf8Length_append]
  omega

/-- Moves over `n` characters, or to the end of the text. -/
def advance (n : Nat) (c : Cursor) : Cursor where
  rest := c.rest.drop n
  left := c.left - utf8Length (c.rest.take n)
  left_eq := by
    have h : utf8Length (c.rest.take n ++ c.rest.drop n) = c.left := by
      rw [List.take_append_drop, c.left_eq]
    rw [utf8Length_append] at h
    omega

@[simp]
theorem rest_advance (n : Nat) (c : Cursor) : (c.advance n).rest = c.rest.drop n := rfl

theorem le_advance (n : Nat) (c : Cursor) : c ≤ c.advance n :=
  List.drop_suffix n c.rest

/-- Moving over a character leaves fewer bytes ahead. -/
theorem left_advance_lt {n : Nat} {c : Cursor} (hn : n ≠ 0) (hc : c.rest ≠ []) :
    (c.advance n).left < c.left := by
  obtain ⟨rest, left, rfl⟩ := c
  obtain _ | ⟨x, rest⟩ := rest
  · contradiction
  obtain _ | n := n
  · contradiction
  have := x.utf8Size_pos
  simp only [advance, List.take_succ_cons, utf8Length_cons]
  omega

/-- Moves over the characters of a class, up to the first of another class. -/
def dropWhile (p : Char → Bool) (c : Cursor) : Cursor :=
  c.advance (c.rest.takeWhile p).length

@[simp]
theorem rest_dropWhile (p : Char → Bool) (c : Cursor) :
    (c.dropWhile p).rest = c.rest.dropWhile p := by
  have h : (c.rest.takeWhile p ++ c.rest.dropWhile p).drop (c.rest.takeWhile p).length =
      c.rest.dropWhile p :=
    List.drop_left
  rwa [List.takeWhile_append_dropWhile] at h

theorem le_dropWhile (p : Char → Bool) (c : Cursor) : c ≤ c.dropWhile p :=
  le_advance _ c

def skipSpaces (c : Cursor) : Cursor :=
  c.dropWhile isSpace

@[simp]
theorem rest_skipSpaces (c : Cursor) : c.skipSpaces.rest = c.rest.dropWhile isSpace :=
  rest_dropWhile isSpace c

theorem le_skipSpaces (c : Cursor) : c ≤ c.skipSpaces :=
  le_dropWhile isSpace c

/-- Of two cursors the one further on; the first where neither is. -/
def later (c d : Cursor) : Cursor :=
  if d.left < c.left then d else c

theorem later_eq_or (c d : Cursor) : later c d = c ∨ later c d = d := by
  unfold later
  split <;> simp

/-- The later of two cursors has as few bytes left as either. -/
theorem left_later (c d : Cursor) : (later c d).left = min c.left d.left := by
  unfold later
  split <;> omega

theorem later_assoc (c d e : Cursor) : later (later c d) e = later c (later d e) := by
  unfold later
  grind

/-- The text behind a given number of bytes, if a character ends there. -/
def dropBytes? : Nat → List Char → Option (List Char)
  | 0, rest => some rest
  | _ + 1, [] => none
  | n + 1, x :: rest =>
    if x.utf8Size ≤ n + 1 then dropBytes? (n + 1 - x.utf8Size) rest else none

theorem suffix_of_dropBytes? {bytes : Nat} {text rest : List Char}
    (h : dropBytes? bytes text = some rest) : rest <:+ text := by
  fun_induction dropBytes? bytes text with
  | case1 text =>
    obtain rfl := Option.some.inj h
    exact List.suffix_refl _
  | case2 => contradiction
  | case3 n x text _ ih => exact (ih h).trans (List.suffix_cons x text)
  | case4 => contradiction

/-- The cursor a given number of bytes further on, if one stands there. -/
def forward? (bytes : Nat) (c : Cursor) : Option Cursor :=
  (dropBytes? bytes c.rest).map start

theorem le_of_forward? {bytes : Nat} {c d : Cursor} (h : c.forward? bytes = some d) :
    c ≤ d := by
  obtain ⟨rest, hr, rfl⟩ := Option.map_eq_some_iff.1 h
  exact suffix_of_dropBytes? hr

end Cursor

end PredicateLanguage
