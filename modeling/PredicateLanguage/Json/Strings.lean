import PredicateLanguage.Json.Fault
import PredicateLanguage.Text.Character
import PredicateLanguage.Text.Writer

/-!
# Strings in JSON

Writing escapes quotes, backslashes and control characters and nothing else.
Reading takes every escape: a character may also be given by the four hexadecimal
digits of its number, or by two such numbers that make up a surrogate pair.
-/

namespace PredicateLanguage.Json

/-! ## Writing -/

/-- The number of a control character with four hexadecimal digits. -/
def escapedControl (c : Char) : List Char :=
  ['\\', 'u', '0', '0', Nat.digitChar (c.toNat / 16), Nat.digitChar (c.toNat % 16)]

/-- How a character is written inside a string. -/
def writeChar (c : Char) : List Char :=
  if c = '"' ∨ c = '\\' then ['\\', c]
  else if c = '\x08' then ['\\', 'b']
  else if c = '\x0c' then ['\\', 'f']
  else if c = '\n' then ['\\', 'n']
  else if c = '\r' then ['\\', 'r']
  else if c = '\t' then ['\\', 't']
  else if c < ' ' then escapedControl c
  else [c]

/-- Writes a string between double quotes. -/
def writeString (s : String) : Writer :=
  .between '"' '"' (.ofChars (s.toList.flatMap writeChar))

/-! ## Reading -/

/-- The value of a hexadecimal digit of either case. -/
def hexValue? (c : Char) : Option Nat :=
  if '0' ≤ c ∧ c ≤ '9' then some (c.toNat - '0'.toNat)
  else if 'a' ≤ c ∧ c ≤ 'f' then some (c.toNat - 'a'.toNat + 10)
  else if 'A' ≤ c ∧ c ≤ 'F' then some (c.toNat - 'A'.toNat + 10)
  else none

/-- The value of a number with hexadecimal digits. -/
def hexNumber? (digits : List Char) : Option Nat :=
  digits.foldlM (fun n c => (16 * n + ·) <$> hexValue? c) 0

/-- Reads a number of four hexadecimal digits.  Where fewer than four bytes are left the
text counts as broken off. -/
def readHex (s : List Char) : Except Fault (Nat × List Char) :=
  if utf8Length (s.take 4) < 4 then
    .error (.endOfText .string)
  else
    match hexNumber? (s.take 4) with
    | some n => .ok (n, s.drop 4)
    | none => .error .unknownEscape

/-- The numbers that are the first half of a surrogate pair. -/
def isHighSurrogate (n : Nat) : Bool :=
  0xD800 ≤ n && n < 0xDC00

/-- The numbers that are the second half of a surrogate pair. -/
def isLowSurrogate (n : Nat) : Bool :=
  0xDC00 ≤ n && n < 0xE000

/-- The character that a surrogate pair stands for. -/
def pairedSurrogates (high low : Nat) : Char :=
  Char.ofNat (0x10000 + (high - 0xD800) * 0x400 + (low - 0xDC00))

/-- Reads a character by its number, behind the letter that announces the number. -/
def readNumbered (s : List Char) : Except Fault (Char × List Char) := do
  let (n, rest) ← readHex s
  if isLowSurrogate n then
    throw .loneSurrogate
  else if isHighSurrogate n then
    match rest with
    | [] => throw (.endOfText .string)
    | ['\\'] => throw (.endOfText .string)
    | '\\' :: 'u' :: rest =>
      let (m, rest) ← readHex rest
      if isLowSurrogate m then
        return (pairedSurrogates n m, rest)
      else
        throw .loneSurrogate
    | _ => throw .halfSurrogatePair
  else
    return (Char.ofNat n, rest)

/-- The character that a letter stands for behind a backslash. -/
def unescape? (c : Char) : Option Char :=
  if c = '"' ∨ c = '\\' ∨ c = '/' then some c
  else if c = 'b' then some '\x08'
  else if c = 'f' then some '\x0c'
  else if c = 'n' then some '\n'
  else if c = 'r' then some '\r'
  else if c = 't' then some '\t'
  else none

/-- Reads what a backslash announces. -/
def readEscape : List Char → Except Fault (Char × List Char)
  | [] => .error (.endOfText .string)
  | c :: rest =>
    if c = 'u' then
      readNumbered rest
    else
      match unescape? c with
      | some d => .ok (d, rest)
      | none => .error .unknownEscape

/-- Reads the next character of a string, or the quote that closes it. -/
def readPiece : List Char → Except Fault (Option Char × List Char)
  | [] => .error (.endOfText .string)
  | c :: rest =>
    if c = '"' then .ok (none, rest)
    else if c = '\\' then (fun (d, rest) => (some d, rest)) <$> readEscape rest
    else if c < ' ' then .error .controlCharacter
    else .ok (some c, rest)

/-! ## What is left is the end of what was there -/

theorem readHex_suffix {s rest : List Char} {n : Nat} (h : readHex s = .ok (n, rest)) :
    rest <:+ s := by
  unfold readHex at h
  split at h
  · contradiction
  · split at h
    · obtain ⟨-, rfl⟩ := Prod.mk.inj (Except.ok.inj h)
      exact List.drop_suffix 4 s
    · contradiction

theorem readNumbered_suffix {s rest : List Char} {c : Char}
    (h : readNumbered s = .ok (c, rest)) : rest <:+ s := by
  unfold readNumbered at h
  cases hs : readHex s with
  | error f => simp [hs, bind, Except.bind] at h
  | ok r =>
    obtain ⟨n, r⟩ := r
    have hr := readHex_suffix hs
    simp only [hs, bind, Except.bind] at h
    split at h
    · contradiction
    · split at h
      · split at h
        · contradiction
        · contradiction
        · rename_i r'
          cases ht : readHex r' with
          | error f => simp [ht] at h
          | ok t =>
            obtain ⟨m, t⟩ := t
            have hsuffix := (readHex_suffix ht).trans
              ((List.suffix_cons 'u' r').trans (List.suffix_cons '\\' ('u' :: r')))
            simp only [ht] at h
            split at h
            · obtain ⟨-, rfl⟩ := Prod.mk.inj (Except.ok.inj h)
              exact hsuffix.trans hr
            · contradiction
        · contradiction
      · obtain ⟨-, rfl⟩ := Prod.mk.inj (Except.ok.inj h)
        exact hr

theorem readEscape_suffix {s rest : List Char} {c : Char}
    (h : readEscape s = .ok (c, rest)) : rest <:+ s := by
  cases s with
  | nil => contradiction
  | cons x s =>
    have hx := List.suffix_cons x s
    rw [readEscape] at h
    split at h
    · exact (readNumbered_suffix h).trans hx
    · split at h
      · obtain ⟨-, rfl⟩ := Prod.mk.inj (Except.ok.inj h)
        exact hx
      · contradiction

theorem readPiece_suffix {s rest : List Char} {c : Option Char}
    (h : readPiece s = .ok (c, rest)) : ∃ x t, s = x :: t ∧ rest <:+ t := by
  cases s with
  | nil => contradiction
  | cons x s =>
    refine ⟨x, s, rfl, ?_⟩
    rw [readPiece] at h
    split at h
    · obtain ⟨-, rfl⟩ := Prod.mk.inj (Except.ok.inj h)
      exact List.suffix_refl _
    · split at h
      · cases hs : readEscape s with
        | error f => simp [hs, Functor.map, Except.map] at h
        | ok r =>
          simp only [hs, Functor.map, Except.map] at h
          obtain ⟨-, rfl⟩ := Prod.mk.inj (Except.ok.inj h)
          exact readEscape_suffix hs
      · split at h
        · contradiction
        · obtain ⟨-, rfl⟩ := Prod.mk.inj (Except.ok.inj h)
          exact List.suffix_refl _

theorem length_lt_of_readPiece {s rest : List Char} {c : Option Char}
    (h : readPiece s = .ok (c, rest)) : rest.length < s.length := by
  obtain ⟨x, t, rfl, ht⟩ := readPiece_suffix h
  exact Nat.lt_succ_of_le ht.length_le

/-- Reads the characters of a string up to the quote that closes it, given those before
in reverse. -/
def readStringFrom (earlier : List Char) (s : List Char) :
    Except Fault (String × List Char) :=
  match _h : readPiece s with
  | .error fault => .error fault
  | .ok (none, rest) => .ok (String.ofList earlier.reverse, rest)
  | .ok (some c, rest) => readStringFrom (c :: earlier) rest
termination_by s.length
decreasing_by exact length_lt_of_readPiece _h

theorem readStringFrom_eq (earlier s : List Char) :
    readStringFrom earlier s =
      match readPiece s with
      | .error fault => .error fault
      | .ok (none, rest) => .ok (String.ofList earlier.reverse, rest)
      | .ok (some c, rest) => readStringFrom (c :: earlier) rest := by
  fun_cases readStringFrom earlier s <;> simp [*]

/-- Reads a string behind the quote that opens it. -/
def readString (s : List Char) : Except Fault (String × List Char) :=
  readStringFrom [] s

theorem readStringFrom_suffix {earlier s rest : List Char} {x : String}
    (h : readStringFrom earlier s = .ok (x, rest)) : rest <:+ s := by
  fun_induction readStringFrom earlier s with
  | case1 => contradiction
  | case2 earlier s r hs =>
    obtain ⟨-, rfl⟩ := Prod.mk.inj (Except.ok.inj h)
    obtain ⟨y, t, rfl, ht⟩ := readPiece_suffix hs
    exact ht.trans (List.suffix_cons y t)
  | case3 earlier s c r hs ih =>
    obtain ⟨y, t, rfl, ht⟩ := readPiece_suffix hs
    exact (ih h).trans (ht.trans (List.suffix_cons y t))

theorem readString_suffix {s rest : List Char} {x : String}
    (h : readString s = .ok (x, rest)) : rest <:+ s :=
  readStringFrom_suffix h

end PredicateLanguage.Json
