import Mathlib.Computability.Language
import Mathlib.Data.List.TakeWhile
import PredicateLanguage.Json.Decoder

/-!
# Texts of JSON values

Which texts spell a JSON value is said here by languages over characters, without the decoders.
Blanks may stand before and behind every token, and a character of a string may be spelled as it
is, by a letter behind a backslash or by its number.  Of the values only strings, lists and
objects occur; no other is part of what is read.
-/

namespace PredicateLanguage.Json

/-! ## Characters of strings -/

/-- A hexadecimal digit, in either case. -/
def HexDigit (n : Nat) (c : Char) : Prop :=
  n < 16 ∧ (c = n.digitChar ∨ c = n.digitChar.toUpper)

/-- The four hexadecimal digits of a number. -/
def HexDigits (n : Nat) (digits : List Char) : Prop :=
  ∃ a b c d, digits = [a, b, c, d] ∧ HexDigit (n / 0x1000) a ∧ HexDigit (n / 0x100 % 0x10) b ∧
    HexDigit (n / 0x10 % 0x10) c ∧ HexDigit (n % 0x10) d

/-- The letters that may stand behind a backslash, and the characters that they stand for. -/
def escapes : List (Char × Char) :=
  [('"', '"'), ('\\', '\\'), ('/', '/'), ('b', '\x08'), ('f', '\x0c'), ('n', '\n'), ('r', '\r'),
    ('t', '\t')]

/-- The spellings of a character inside a string.  Characters beyond the first 65536 are numbered
by a pair of surrogates. -/
inductive SpellsChar (c : Char) : List Char → Prop
  | plain (hquote : c ≠ '"') (hbackslash : c ≠ '\\') (hcontrol : ' ' ≤ c) : SpellsChar c [c]
  | escaped {letter : Char} (h : (letter, c) ∈ escapes) : SpellsChar c ['\\', letter]
  | numbered {digits : List Char} (h : HexDigits c.toNat digits) :
      SpellsChar c ('\\' :: 'u' :: digits)
  | paired {high low : List Char} (hc : 0x10000 ≤ c.toNat)
      (hhigh : HexDigits (0xD800 + (c.toNat - 0x10000) / 0x400) high)
      (hlow : HexDigits (0xDC00 + (c.toNat - 0x10000) % 0x400) low) :
      SpellsChar c ('\\' :: 'u' :: (high ++ '\\' :: 'u' :: low))

/-! ## Values -/

/-- The texts that consist of blanks. -/
def blanks : Language Char :=
  {text : List Char | ∀ c ∈ text, isBlank c = true}

/-- The text of a single character. -/
def symbol (c : Char) : Language Char :=
  {[c]}

/-- The spellings of a character inside a string. -/
def charTexts (c : Char) : Language Char :=
  {text : List Char | SpellsChar c text}

/-- The spellings of a string up to the quote that closes it. -/
def bodyTexts (s : String) : Language Char :=
  (s.toList.map charTexts).prod * symbol '"'

/-- The spellings of a string with its quotes. -/
def stringTexts (s : String) : Language Char :=
  symbol '"' * bodyTexts s

/-- Texts with blanks around them and commas between them. -/
def separatedTexts : List (Language Char) → Language Char
  | [] => blanks
  | [l] => blanks * (l * blanks)
  | l :: m :: ls => blanks * (l * (blanks * (symbol ',' * separatedTexts (m :: ls))))

/-- A string, a list or an object. -/
inductive Value where
  | string (value : String)
  | list (items : List Value)
  | object (members : List (String × Value))

namespace Value

/-- An object with one key. -/
def tagged (tag : String) (content : Value) : Value :=
  object [(tag, content)]

mutual

/-- The texts that spell a value, without blanks around them. -/
def texts : Value → Language Char
  | string value => stringTexts value
  | list items => symbol '[' * (separatedTexts (itemTexts items) * symbol ']')
  | object members => symbol '\x7b' * (separatedTexts (memberTexts members) * symbol '\x7d')

def itemTexts : List Value → List (Language Char)
  | [] => []
  | v :: vs => v.texts :: itemTexts vs

def memberTexts : List (String × Value) → List (Language Char)
  | [] => []
  | (key, v) :: members =>
      stringTexts key * (blanks * (symbol ':' * (blanks * v.texts))) :: memberTexts members

end

mutual

/-- The greatest number of containers that are open at the same time in a value. -/
def depth : Value → Nat
  | string _ => 0
  | list items => itemsDepth items + 1
  | object members => membersDepth members + 1

def itemsDepth : List Value → Nat
  | [] => 0
  | v :: vs => max v.depth (itemsDepth vs)

def membersDepth : List (String × Value) → Nat
  | [] => 0
  | (_, v) :: members => max v.depth (membersDepth members)

end

theorem depth_tagged (tag : String) (content : Value) :
    (tagged tag content).depth = content.depth + 1 := by
  rw [tagged, depth, membersDepth, membersDepth, Nat.max_zero]

theorem depth_pair (v w : Value) : (list [v, w]).depth = max v.depth w.depth + 1 := by
  rw [depth, itemsDepth, itemsDepth, itemsDepth, Nat.max_zero]

/-- A list of strings is one open container. -/
theorem depth_strings (values : List String) : (list (values.map string)).depth = 1 := by
  rw [depth]
  induction values with
  | nil => rfl
  | cons value values ih =>
      rw [List.map_cons, itemsDepth, depth, Nat.zero_max]
      exact ih

theorem itemTexts_strings (values : List String) :
    itemTexts (values.map string) = values.map stringTexts := by
  induction values with
  | nil => rfl
  | cons value values ih => rw [List.map_cons, List.map_cons, itemTexts, texts, ih]

end Value

/-! ## Where a text starts with another -/

/-- The text starts with one of the language, and the rest follows it. -/
def Begins (l : Language Char) (text rest : List Char) : Prop :=
  ∃ front ∈ l, text = front ++ rest

/-- No text of the language is empty or starts with a blank. -/
def Solid (l : Language Char) : Prop :=
  ∀ text ∈ l, ∃ c cs, text = c :: cs ∧ isBlank c = false

section Begins

variable {l m : Language Char} {c : Char} {text rest : List Char}

theorem begins_mul :
    Begins (l * m) text rest ↔ ∃ middle, Begins l text middle ∧ Begins m middle rest := by
  constructor
  · rintro ⟨front, hfront, rfl⟩
    obtain ⟨first, hfirst, second, hsecond, rfl⟩ := Language.mem_mul.mp hfront
    exact ⟨second ++ rest, ⟨first, hfirst, List.append_assoc ..⟩, ⟨second, hsecond, rfl⟩⟩
  · rintro ⟨middle, ⟨first, hfirst, rfl⟩, second, hsecond, rfl⟩
    exact ⟨first ++ second, Language.append_mem_mul hfirst hsecond, (List.append_assoc ..).symm⟩

theorem begins_symbol : Begins (symbol c) text rest ↔ text = c :: rest := by
  constructor
  · rintro ⟨front, rfl, rfl⟩
    rfl
  · rintro rfl
    exact ⟨[c], rfl, rfl⟩

theorem begins_blanks_dropWhile (text : List Char) :
    Begins blanks text (text.dropWhile isBlank) :=
  ⟨text.takeWhile isBlank, fun _ h => List.mem_takeWhile_imp h,
    List.takeWhile_append_dropWhile.symm⟩

theorem Begins.dropWhile_eq (h : Begins blanks text rest) :
    text.dropWhile isBlank = rest.dropWhile isBlank := by
  obtain ⟨front, hfront, rfl⟩ := h
  exact List.dropWhile_append_of_pos hfront

theorem Solid.mul (hl : Solid l) (m : Language Char) : Solid (l * m) := by
  intro text htext
  obtain ⟨first, hfirst, second, -, rfl⟩ := Language.mem_mul.mp htext
  obtain ⟨c, cs, rfl, hc⟩ := hl first hfirst
  exact ⟨c, cs ++ second, rfl, hc⟩

theorem solid_symbol (hc : isBlank c = false) : Solid (symbol c) := by
  rintro text rfl
  exact ⟨c, [], rfl, hc⟩

theorem Solid.dropWhile_eq (hl : Solid l) (h : Begins l text rest) :
    text.dropWhile isBlank = text := by
  obtain ⟨front, hfront, rfl⟩ := h
  obtain ⟨c, cs, rfl, hc⟩ := hl front hfront
  exact List.dropWhile_cons_of_neg (by rw [hc]; exact Bool.false_ne_true)

/-- In front of what does not start with a blank, all blanks are passed over. -/
theorem Solid.begins_blanks_mul (hl : Solid l) :
    Begins (blanks * l) text rest ↔ Begins l (text.dropWhile isBlank) rest := by
  rw [begins_mul]
  constructor
  · rintro ⟨middle, hblanks, h⟩
    rw [hblanks.dropWhile_eq, hl.dropWhile_eq h]
    exact h
  · intro h
    exact ⟨_, begins_blanks_dropWhile text, h⟩

theorem begins_blanks_symbol (hc : isBlank c = false) :
    Begins (blanks * symbol c) text rest ↔ text.dropWhile isBlank = c :: rest := by
  rw [(solid_symbol hc).begins_blanks_mul, begins_symbol]

theorem begins_symbol_mul :
    Begins (symbol c * l) text rest ↔ ∃ behind, text = c :: behind ∧ Begins l behind rest := by
  rw [begins_mul]
  constructor
  · rintro ⟨behind, hsymbol, h⟩
    exact ⟨behind, begins_symbol.mp hsymbol, h⟩
  · rintro ⟨behind, hsymbol, h⟩
    exact ⟨behind, begins_symbol.mpr hsymbol, h⟩

theorem begins_blanks_symbol_mul (hc : isBlank c = false) :
    Begins (blanks * (symbol c * l)) text rest ↔
      ∃ behind, text.dropWhile isBlank = c :: behind ∧ Begins l behind rest := by
  rw [((solid_symbol hc).mul l).begins_blanks_mul, begins_symbol_mul]

end Begins

theorem solid_stringTexts (s : String) : Solid (stringTexts s) :=
  (solid_symbol (by decide)).mul _

theorem Value.solid_texts (v : Value) : Solid v.texts := by
  cases v with
  | string value => exact solid_stringTexts value
  | list items => exact (solid_symbol (by decide)).mul _
  | object members => exact (solid_symbol (by decide)).mul _

/-! ## Where a text starts with a value -/

namespace Value

/-- Behind blanks the text starts with a spelling of the value, and the rest follows it. -/
def Leads (v : Value) (text rest : List Char) : Prop :=
  Begins v.texts (text.dropWhile isBlank) rest

variable {text rest : List Char}

theorem leads_string {value : String} :
    (string value).Leads text rest ↔
      ∃ inside, text.dropWhile isBlank = '"' :: inside ∧ Begins (bodyTexts value) inside rest := by
  rw [Leads, texts, stringTexts, begins_symbol_mul]

theorem begins_blanks_stringTexts_mul {s : String} {l : Language Char} :
    Begins (blanks * (stringTexts s * l)) text rest ↔
      ∃ inside, text.dropWhile isBlank = '"' :: inside ∧
        ∃ behind, Begins (bodyTexts s) inside behind ∧ Begins l behind rest := by
  simp only [stringTexts, mul_assoc, begins_blanks_symbol_mul (c := '"') (by decide), begins_mul]

theorem begins_blanks_texts_mul {v : Value} {l : Language Char} :
    Begins (blanks * (v.texts * l)) text rest ↔
      ∃ behind, v.Leads text behind ∧ Begins l behind rest := by
  rw [(v.solid_texts.mul l).begins_blanks_mul, begins_mul]
  rfl

theorem leads_tagged {tag : String} {content : Value} :
    (tagged tag content).Leads text rest ↔
      ∃ inside, text.dropWhile isBlank = '{' :: inside ∧
      ∃ key, inside.dropWhile isBlank = '"' :: key ∧
      ∃ behind, Begins (bodyTexts tag) key behind ∧
      ∃ value, behind.dropWhile isBlank = ':' :: value ∧
      ∃ closing, content.Leads value closing ∧ closing.dropWhile isBlank = '}' :: rest := by
  simp only [Leads, tagged, texts, memberTexts, separatedTexts, mul_assoc, begins_symbol_mul,
    begins_blanks_stringTexts_mul, begins_blanks_symbol_mul (c := ':') (by decide),
    begins_blanks_texts_mul, begins_blanks_symbol (c := '}') (by decide)]

theorem leads_pair {v w : Value} :
    (list [v, w]).Leads text rest ↔
      ∃ inside, text.dropWhile isBlank = '[' :: inside ∧
      ∃ behind, v.Leads inside behind ∧
      ∃ second, behind.dropWhile isBlank = ',' :: second ∧
      ∃ closing, w.Leads second closing ∧ closing.dropWhile isBlank = ']' :: rest := by
  simp only [Leads, texts, itemTexts, separatedTexts, mul_assoc, begins_symbol_mul,
    begins_blanks_symbol_mul (c := ',') (by decide), begins_blanks_texts_mul,
    begins_blanks_symbol (c := ']') (by decide)]

/-- A value does not start with the bracket that closes a container. -/
theorem Leads.head_ne {v : Value} (h : v.Leads text rest) :
    ∃ c cs, text.dropWhile isBlank = c :: cs ∧ isBlank c = false ∧ c ≠ ']' ∧ c ≠ '}' := by
  cases v with
  | string value =>
      obtain ⟨cs, hcs, -⟩ := leads_string.mp h
      exact ⟨_, cs, hcs, by decide, by decide, by decide⟩
  | list items =>
      obtain ⟨cs, hcs, -⟩ := begins_symbol_mul.mp h
      exact ⟨_, cs, hcs, by decide, by decide, by decide⟩
  | object members =>
      obtain ⟨cs, hcs, -⟩ := begins_symbol_mul.mp h
      exact ⟨_, cs, hcs, by decide, by decide, by decide⟩

end Value

end PredicateLanguage.Json
