/-!
# Character classes and lengths in bytes

The classes of the language are ASCII: a letter or a space of another script
belongs to none of them.  Lengths are those of the UTF-8 form of a text, because
that is how places in a text are counted.
-/

namespace PredicateLanguage

/-- The characters that may stand between tokens: space, tab, line feed, vertical
tab, form feed and carriage return. -/
def isSpace (c : Char) : Bool :=
  c = ' ' || ('\t' ≤ c && c ≤ '\r')

/-- The characters of bare words: ASCII letters, ASCII digits and the underscore. -/
def isWord (c : Char) : Bool :=
  c.isAlphanum || c = '_'

theorem isWord_of_isAlpha {c : Char} (h : c.isAlpha = true) : isWord c = true := by
  simp [isWord, Char.isAlphanum, h]

theorem isAlpha_eq (c : Char) :
    c.isAlpha =
      ((0x41 ≤ c.toNat && c.toNat ≤ 0x5a) || (0x61 ≤ c.toNat && c.toNat ≤ 0x7a)) := by
  change (decide (0x41 ≤ c.toNat ∧ c.toNat ≤ 0x5a) || (0x61 ≤ c.toNat && c.toNat ≤ 0x7a)) = _
  rw [Bool.decide_and]

theorem isWord_eq (c : Char) :
    isWord c = (c.isAlpha || (0x30 ≤ c.toNat && c.toNat ≤ 0x39) || c = '_') := rfl

/-- Word characters are ASCII characters. -/
theorem toNat_of_isWord {c : Char} (h : isWord c = true) : 0x30 ≤ c.toNat ∧ c.toNat ≤ 0x7a := by
  rw [isWord_eq, isAlpha_eq] at h
  simp only [Bool.or_eq_true, Bool.and_eq_true, decide_eq_true_eq] at h
  rcases h with (hletter | hdigit) | rfl
  · omega
  · omega
  · decide

/-- The number of bytes in the UTF-8 form of a text. -/
def utf8Length : List Char → Nat
  | [] => 0
  | c :: cs => c.utf8Size + utf8Length cs

@[simp]
theorem utf8Length_nil : utf8Length [] = 0 := rfl

@[simp]
theorem utf8Length_cons (c : Char) (cs : List Char) :
    utf8Length (c :: cs) = c.utf8Size + utf8Length cs := rfl

@[simp]
theorem utf8Length_append (cs ds : List Char) :
    utf8Length (cs ++ ds) = utf8Length cs + utf8Length ds := by
  induction cs with
  | nil => simp
  | cons c cs ih =>
    rw [List.cons_append, utf8Length_cons, utf8Length_cons, ih]
    omega

/-- Every character takes at least one byte. -/
theorem length_le_utf8Length (cs : List Char) : cs.length ≤ utf8Length cs := by
  induction cs with
  | nil => simp
  | cons c cs ih =>
    have := c.utf8Size_pos
    simp
    omega

end PredicateLanguage
