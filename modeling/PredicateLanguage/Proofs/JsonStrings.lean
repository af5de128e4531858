import Mathlib.Tactic.IntervalCases
import PredicateLanguage.Json.Decoder

/-!
# Strings in JSON are read back

Every character is written in a form from which it is read back, whatever stands behind it:
quotes, backslashes and control characters by their escapes, all others as they are.  So a
string is read back up to the quote that closes it.
-/

namespace PredicateLanguage.Json

/-! ## Characters given by their numbers -/

theorem hexValue?_digitChar {n : Nat} (h : n < 16) : hexValue? (Nat.digitChar n) = some n := by
  interval_cases n <;> decide

theorem utf8Size_digitChar {n : Nat} (h : n < 16) : (Nat.digitChar n).utf8Size = 1 := by
  interval_cases n <;> decide

/-- The four digits of an escaped character give back its number. -/
theorem readHex_digits {n : Nat} (h : n < 256) (rest : List Char) :
    readHex ('0' :: '0' :: Nat.digitChar (n / 16) :: Nat.digitChar (n % 16) :: rest) =
      .ok (n, rest) := by
  have hhigh : n / 16 < 16 := by omega
  have hlow : n % 16 < 16 := by omega
  have hzero : hexValue? '0' = some 0 := by decide
  have hlength : utf8Length ['0', '0', Nat.digitChar (n / 16), Nat.digitChar (n % 16)] = 4 := by
    simp only [utf8Length_cons, utf8Length_nil, utf8Size_digitChar hhigh,
      utf8Size_digitChar hlow]
    decide
  have hnumber : hexNumber? ['0', '0', Nat.digitChar (n / 16), Nat.digitChar (n % 16)] =
      some n := by
    simp only [hexNumber?, List.foldlM_cons, List.foldlM_nil, hzero, hexValue?_digitChar hhigh,
      hexValue?_digitChar hlow, Option.map_eq_map, Option.map_some, Option.bind_eq_bind,
      Option.bind_some, Option.pure_def, Option.some.injEq]
    omega
  simp only [readHex, List.take_succ_cons, List.take_zero, hlength, hnumber]
  rfl

theorem readPiece_escapedControl {c : Char} (h : c < ' ') (rest : List Char) :
    readPiece (escapedControl c ++ rest) = .ok (some c, rest) := by
  have hc : c.toNat < 32 := h
  have hread := readHex_digits (n := c.toNat) (by omega) rest
  have hlow : isLowSurrogate c.toNat = false := by
    simp only [isLowSurrogate, Bool.and_eq_false_iff, decide_eq_false_iff_not]
    omega
  have hhigh : isHighSurrogate c.toNat = false := by
    simp only [isHighSurrogate, Bool.and_eq_false_iff, decide_eq_false_iff_not]
    omega
  have hnumbered : readNumbered
      ('0' :: '0' :: Nat.digitChar (c.toNat / 16) :: Nat.digitChar (c.toNat % 16) :: rest) =
        .ok (c, rest) := by
    rw [readNumbered, hread]
    simp only [bind, Except.bind, hlow, hhigh, Char.ofNat_toNat]
    rfl
  have hpiece : readPiece (escapedControl c ++ rest) =
      (fun read => (some read.1, read.2)) <$> readNumbered
        ('0' :: '0' :: Nat.digitChar (c.toNat / 16) :: Nat.digitChar (c.toNat % 16) :: rest) :=
    rfl
  rw [hpiece, hnumbered]
  rfl

/-! ## Characters and strings -/

/-- A letter behind a backslash stands for the character that it is known for. -/
theorem readPiece_escaped {letter c : Char} (h : unescape? letter = some c)
    (rest : List Char) : readPiece ('\\' :: letter :: rest) = .ok (some c, rest) := by
  have hletter : letter ≠ 'u' := by
    intro hu
    rw [hu] at h
    contradiction
  change (fun read => (some read.1, read.2)) <$> readEscape (letter :: rest) = _
  rw [readEscape, if_neg hletter, h]
  rfl

theorem readPiece_plain {c : Char} (hquote : c ≠ '"') (hbackslash : c ≠ '\\') (h : ¬c < ' ')
    (rest : List Char) : readPiece (c :: rest) = .ok (some c, rest) := by
  rw [readPiece, if_neg hquote, if_neg hbackslash, if_neg h]

/-- A character is written with a letter that stands for it, or by its number, or as it
is. -/
theorem writeChar_cases (c : Char) :
    (∃ letter, writeChar c = ['\\', letter] ∧ unescape? letter = some c) ∨
      (writeChar c = escapedControl c ∧ c < ' ') ∨
      (writeChar c = [c] ∧ c ≠ '"' ∧ c ≠ '\\' ∧ ¬c < ' ') := by
  by_cases hmark : c = '"' ∨ c = '\\'
  · refine Or.inl ⟨c, if_pos hmark, ?_⟩
    rcases hmark with rfl | rfl
    · rfl
    · rfl
  rw [writeChar, if_neg hmark]
  by_cases hb : c = '\x08'
  · exact Or.inl ⟨'b', if_pos hb, by rw [hb]; rfl⟩
  rw [if_neg hb]
  by_cases hf : c = '\x0c'
  · exact Or.inl ⟨'f', if_pos hf, by rw [hf]; rfl⟩
  rw [if_neg hf]
  by_cases hn : c = '\n'
  · exact Or.inl ⟨'n', if_pos hn, by rw [hn]; rfl⟩
  rw [if_neg hn]
  by_cases hr : c = '\r'
  · exact Or.inl ⟨'r', if_pos hr, by rw [hr]; rfl⟩
  rw [if_neg hr]
  by_cases ht : c = '\t'
  · exact Or.inl ⟨'t', if_pos ht, by rw [ht]; rfl⟩
  rw [if_neg ht]
  by_cases hcontrol : c < ' '
  · exact Or.inr (Or.inl ⟨if_pos hcontrol, hcontrol⟩)
  · obtain ⟨hquote, hbackslash⟩ := not_or.mp hmark
    exact Or.inr (Or.inr ⟨if_neg hcontrol, hquote, hbackslash, hcontrol⟩)

/-- A written character is read back. -/
theorem readPiece_writeChar (c : Char) (rest : List Char) :
    readPiece (writeChar c ++ rest) = .ok (some c, rest) := by
  rcases writeChar_cases c with
    ⟨letter, hwrite, hletter⟩ | ⟨hwrite, hcontrol⟩ | ⟨hwrite, hquote, hbackslash, hcontrol⟩
  · rw [hwrite]
    exact readPiece_escaped hletter rest
  · rw [hwrite]
    exact readPiece_escapedControl hcontrol rest
  · rw [hwrite]
    exact readPiece_plain hquote hbackslash hcontrol rest

theorem readStringFrom_write (earlier cs rest : List Char) :
    readStringFrom earlier (cs.flatMap writeChar ++ '"' :: rest) =
      .ok (String.ofList (earlier.reverse ++ cs), rest) := by
  induction cs generalizing earlier with
  | nil =>
      have hclose : readPiece ('"' :: rest) = .ok (none, rest) := rfl
      rw [List.flatMap_nil, List.nil_append, readStringFrom_eq, hclose, List.append_nil]
  | cons c cs ih =>
      rw [List.flatMap_cons, List.append_assoc, readStringFrom_eq, readPiece_writeChar]
      simp only [ih, List.reverse_cons, List.append_assoc, List.singleton_append]

/-- A written string is read back up to the quote that closes it. -/
theorem readString_write (s : String) (rest : List Char) :
    readString (s.toList.flatMap writeChar ++ '"' :: rest) = .ok (s, rest) := by
  rw [readString, readStringFrom_write, List.reverse_nil, List.nil_append, String.ofList_toList]

end PredicateLanguage.Json
