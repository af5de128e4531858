import Mathlib.Data.List.TakeWhile
import PredicateLanguage.Proofs.ByteOrder
import PredicateLanguage.Proofs.TokenRules

/-!
# Classes of bytes

The classes of the language are made of ASCII characters.  Such a character is a single byte, and
every byte of any other character is above all of them.  So a class can be told from any byte of a
character, and a text can be passed over byte by byte as it is character by character.
-/

namespace PredicateLanguage

open Grammar

/-! ## The bytes of a character -/

theorem utf8EncodeChar_of_ascii {c : Char} (h : c.toNat < 0x80) :
    String.utf8EncodeChar c = [.ofNat c.toNat] := by
  have hv : c.val.toNat ≤ 0x7f := Nat.le_of_lt_succ h
  rw [utf8EncodeChar_eq, leadingByte, continuationLength, if_pos hv, if_pos hv, continuation]
  rfl

theorem toNat_of_mem_continuation {n v : Nat} {b : UInt8} (h : b ∈ continuation n v) :
    0x80 ≤ b.toNat := by
  induction n with
  | zero => contradiction
  | succ n ih =>
      rw [continuation, List.mem_cons] at h
      rcases h with rfl | h
      · have hlt : v / 64 ^ n % 64 < 64 := Nat.mod_lt _ (by decide)
        rw [UInt8.toNat_ofNat', Nat.mod_eq_of_lt (by omega)]
        omega
      · exact ih h

theorem toNat_of_mem_utf8EncodeChar {c : Char} {b : UInt8} (hc : 0x80 ≤ c.toNat)
    (h : b ∈ String.utf8EncodeChar c) : 0x80 ≤ b.toNat := by
  rw [utf8EncodeChar_eq, List.mem_cons] at h
  rcases h with rfl | h
  · have hlead : 0x80 ≤ leadingByte c.val.toNat := by
      have hv : 0x80 ≤ c.val.toNat := hc
      unfold leadingByte
      split_ifs <;> omega
    rw [UInt8.toNat_ofNat', Nat.mod_eq_of_lt (leadingByte_lt (charVal_lt c))]
    exact hlead
  · exact toNat_of_mem_continuation h

theorem utf8EncodeChar_ne_nil (c : Char) : String.utf8EncodeChar c ≠ [] := by
  rw [utf8EncodeChar_eq]
  exact List.cons_ne_nil _ _

/-! ## The bytes of a text -/

/-- The bytes of some characters. -/
def bytesOf (text : List Char) : List UInt8 :=
  text.flatMap String.utf8EncodeChar

@[simp]
theorem bytesOf_nil : bytesOf [] = [] := rfl

@[simp]
theorem bytesOf_cons (c : Char) (text : List Char) :
    bytesOf (c :: text) = String.utf8EncodeChar c ++ bytesOf text := rfl

@[simp]
theorem bytesOf_append (front text : List Char) :
    bytesOf (front ++ text) = bytesOf front ++ bytesOf text :=
  List.flatMap_append

theorem utf8Bytes_injective {s t : String} (h : utf8Bytes s = utf8Bytes t) : s = t :=
  String.toByteArray_inj.mp (ByteArray.ext (Array.toList_inj.mp h))

theorem utf8Bytes_ofList (text : List Char) : utf8Bytes (.ofList text) = bytesOf text := by
  rw [utf8Bytes_eq, String.toList_ofList, bytesOf]

theorem length_bytesOf (text : List Char) : (bytesOf text).length = utf8Length text := by
  induction text with
  | nil => rfl
  | cons c text ih =>
      rw [bytesOf_cons, List.length_append, ih, String.length_utf8EncodeChar, utf8Length_cons]

theorem bytesOf_cons_of_ascii {c : Char} (h : c.toNat < 0x80) (text : List Char) :
    bytesOf (c :: text) = .ofNat c.toNat :: bytesOf text := by
  rw [bytesOf_cons, utf8EncodeChar_of_ascii h]
  rfl

/-- Some character begins the text exactly if its first byte does. -/
theorem exists_bytesOf_cons (c : Char) (text : List Char) :
    ∃ b bs, b ∈ String.utf8EncodeChar c ∧ bytesOf (c :: text) = b :: bs := by
  obtain ⟨b, bs, hbs⟩ := List.exists_cons_of_ne_nil (utf8EncodeChar_ne_nil c)
  refine ⟨b, bs ++ bytesOf text, ?_, ?_⟩
  · rw [hbs]
    exact List.mem_cons_self
  · rw [bytesOf_cons, hbs]
    rfl

/-- Whether a text starts with ASCII characters can be told from the bytes. -/
theorem isPrefixOf_bytesOf {front : List Char} (h : ∀ c ∈ front, c.toNat < 0x80)
    (text : List Char) : (bytesOf front).isPrefixOf (bytesOf text) = front.isPrefixOf text := by
  induction front generalizing text with
  | nil => rfl
  | cons c front ih =>
      obtain ⟨hc, hfront⟩ := List.forall_mem_cons.mp h
      rw [bytesOf_cons_of_ascii hc]
      cases text with
      | nil => rfl
      | cons d text =>
          by_cases hd : d.toNat < 0x80
          · have heq : (UInt8.ofNat c.toNat == UInt8.ofNat d.toNat) = (c == d) := by
              rw [Bool.eq_iff_iff, beq_iff_eq, beq_iff_eq, ← UInt8.toNat_inj, UInt8.toNat_ofNat',
                UInt8.toNat_ofNat', Nat.mod_eq_of_lt (by omega), Nat.mod_eq_of_lt (by omega),
                Char.toNat_inj]
            rw [bytesOf_cons_of_ascii hd, List.isPrefixOf_cons_cons, List.isPrefixOf_cons_cons,
              heq, ih hfront]
          · obtain ⟨b, bs, hb, hbs⟩ := exists_bytesOf_cons d text
            have hge := toNat_of_mem_utf8EncodeChar (Nat.le_of_not_lt hd) hb
            have hbyte : (UInt8.ofNat c.toNat == b) = false := by
              rw [beq_eq_false_iff_ne]
              rintro rfl
              rw [UInt8.toNat_ofNat', Nat.mod_eq_of_lt (by omega)] at hge
              omega
            have hchar : (c == d) = false := by
              rw [beq_eq_false_iff_ne]
              rintro rfl
              exact hd hc
            rw [hbs, List.isPrefixOf_cons_cons, List.isPrefixOf_cons_cons, hbyte, hchar,
              Bool.false_and, Bool.false_and]

theorem Symbol.ascii_text (s : Symbol) : ∀ c ∈ s.text.toList, c.toNat < 0x80 := by
  cases s <;> simp [text]

/-! ## Classes -/

/-- The bytes of a character are in one class exactly if the character is in the other. -/
def TellsBytes (p : UInt8 → Bool) (q : Char → Bool) : Prop :=
  ∀ c, ∀ b ∈ String.utf8EncodeChar c, p b = q c

/-- Classes that are given by numbers and take all that is not ASCII to be alike. -/
theorem tellsBytes_of_number {f : Nat → Bool} (hf : ∀ n, 0x80 ≤ n → f n = f 0x80)
    {p : UInt8 → Bool} {q : Char → Bool} (hp : ∀ b, p b = f b.toNat) (hq : ∀ c, q c = f c.toNat) :
    TellsBytes p q := by
  intro c b hb
  rw [hp, hq]
  by_cases hc : c.toNat < 0x80
  · rw [utf8EncodeChar_of_ascii hc, List.mem_singleton] at hb
    rw [hb, UInt8.toNat_ofNat', Nat.mod_eq_of_lt (by omega)]
  · have hc : 0x80 ≤ c.toNat := Nat.le_of_not_lt hc
    rw [hf _ (toNat_of_mem_utf8EncodeChar hc hb), hf _ hc]

namespace TellsBytes

variable {p : UInt8 → Bool} {q : Char → Bool}

/-- A class of bytes ends where the class of characters does. -/
theorem takeWhile_bytesOf (h : TellsBytes p q) (text : List Char) :
    (bytesOf text).takeWhile p = bytesOf (text.takeWhile q) := by
  induction text with
  | nil => rfl
  | cons c text ih =>
      rw [List.takeWhile_cons]
      cases hc : q c with
      | true =>
          have hall : ∀ b ∈ String.utf8EncodeChar c, p b = true :=
            fun b hb => (h c b hb).trans hc
          rw [bytesOf_cons, List.takeWhile_append_of_pos hall, ih, if_pos rfl, bytesOf_cons]
      | false =>
          obtain ⟨b, bs, hb, hbs⟩ := exists_bytesOf_cons c text
          rw [hbs, List.takeWhile_cons, (h c b hb).trans hc, if_neg Bool.false_ne_true,
            if_neg Bool.false_ne_true]
          rfl

theorem head_bytesOf (h : TellsBytes p q) (text : List Char) :
    (bytesOf text).head?.any p = text.head?.any q := by
  cases text with
  | nil => rfl
  | cons c text =>
      obtain ⟨b, bs, hb, hbs⟩ := exists_bytesOf_cons c text
      rw [hbs]
      exact h c b hb

end TellsBytes

/-! ## The classes of the language -/

/-- Space, tab, line feed, vertical tab, form feed and carriage return. -/
def isSpaceByte (b : UInt8) : Bool :=
  b = 0x20 || (0x09 ≤ b && b ≤ 0x0d)

def isLetterByte (b : UInt8) : Bool :=
  (0x41 ≤ b && b ≤ 0x5a) || (0x61 ≤ b && b ≤ 0x7a)

def isWordByte (b : UInt8) : Bool :=
  isLetterByte b || (0x30 ≤ b && b ≤ 0x39) || b = 0x5f

def quoteByte : UInt8 := 0x27

theorem tellsBytes_space : TellsBytes isSpaceByte isSpace := by
  refine tellsBytes_of_number (f := fun n => n = 0x20 || (0x09 ≤ n && n ≤ 0x0d)) ?_ ?_ ?_
  · intro n hn
    simp
    omega
  · intro b
    simp [isSpaceByte, UInt8.le_iff_toNat_le, ← UInt8.toNat_inj]
  · intro c
    simp [isSpace, Char.le_def, UInt32.le_iff_toNat_le, ← Char.toNat_inj]

theorem tellsBytes_letter : TellsBytes isLetterByte Char.isAlpha := by
  refine tellsBytes_of_number
    (f := fun n => (0x41 ≤ n && n ≤ 0x5a) || (0x61 ≤ n && n ≤ 0x7a)) ?_ ?_ ?_
  · intro n hn
    simp
    omega
  · intro b
    simp [isLetterByte, UInt8.le_iff_toNat_le]
  · intro c
    rw [isAlpha_eq]

theorem tellsBytes_word : TellsBytes isWordByte isWord := by
  refine tellsBytes_of_number
    (f := fun n => (0x41 ≤ n && n ≤ 0x5a) || (0x61 ≤ n && n ≤ 0x7a) ||
      (0x30 ≤ n && n ≤ 0x39) || n = 0x5f) ?_ ?_ ?_
  · intro n hn
    simp
    omega
  · intro b
    simp [isWordByte, isLetterByte, UInt8.le_iff_toNat_le, ← UInt8.toNat_inj]
  · intro c
    rw [isWord_eq, isAlpha_eq]
    simp [← Char.toNat_inj]

theorem tellsBytes_not_quote : TellsBytes (· ≠ quoteByte) (· ≠ quote) := by
  refine tellsBytes_of_number (f := fun n => n ≠ 0x27) ?_ ?_ ?_
  · intro n hn
    simp
    omega
  · intro b
    simp [quoteByte, ← UInt8.toNat_inj]
  · intro c
    simp [quote, ← Char.toNat_inj]

/-! ## Symbols and quotes -/

/-- Whether a symbol opens a text can be told from the bytes. -/
theorem Symbol.opens_bytes (s : Symbol) (rest : List Char) :
    ((utf8Bytes s.text).isPrefixOf (bytesOf rest) && !(s.isKeyword &&
      ((bytesOf rest)[(utf8Bytes s.text).length]?).any isWordByte)) = s.opens rest := by
  have hascii := s.ascii_text
  have htext : utf8Bytes s.text = bytesOf s.text.toList := utf8Bytes_eq s.text
  rw [htext, isPrefixOf_bytesOf hascii, Symbol.opens]
  cases hfront : s.text.toList.isPrefixOf rest with
  | false => rfl
  | true =>
      obtain ⟨tail, rfl⟩ := List.isPrefixOf_iff_prefix.mp hfront
      rw [bytesOf_append, List.getElem?_append_right (Nat.le_refl _), Nat.sub_self,
        ← List.head?_eq_getElem?, tellsBytes_word.head_bytesOf, List.drop_left]

/-- Whether a quote opens a text can be told from its first byte. -/
theorem head?_bytesOf_eq_quote (text : List Char) :
    (bytesOf text).head? = some quoteByte ↔ text.head? = some quote := by
  cases text with
  | nil => exact iff_of_false nofun nofun
  | cons c text =>
      obtain ⟨b, bs, hb, hbs⟩ := exists_bytesOf_cons c text
      have htells : b = quoteByte ↔ c = quote := by
        simpa using tellsBytes_not_quote c b hb
      rw [hbs, List.head?_cons, List.head?_cons, Option.some_inj, Option.some_inj, htells]

theorem findIdx?_quoteByte (text : List Char) :
    (bytesOf text).findIdx? (· = quoteByte) =
      if text.dropWhile (· ≠ quote) = [] then none
      else some (utf8Length (text.takeWhile (· ≠ quote))) := by
  have hlength : (bytesOf text).findIdx (· = quoteByte) =
      utf8Length (text.takeWhile (· ≠ quote)) := by
    rw [← length_bytesOf, ← tellsBytes_not_quote.takeWhile_bytesOf,
      List.takeWhile_eq_take_findIdx_not, List.length_take, Nat.min_eq_left List.findIdx_le_length]
    congr 1
    funext b
    simp
  have hsplit := congrArg utf8Length
    (List.takeWhile_append_dropWhile (p := (· ≠ quote)) (l := text))
  rw [utf8Length_append] at hsplit
  rw [List.findIdx?_eq_guard_findIdx_lt, hlength, length_bytesOf]
  rcases dropWhile_quote_cases text with hnil | ⟨rest, hrest⟩
  · rw [hnil, utf8Length_nil, Nat.add_zero] at hsplit
    rw [if_pos hnil, hsplit]
    simp [Option.guard]
  · have hne : text.dropWhile (· ≠ quote) ≠ [] := by
      rw [hrest]
      exact List.cons_ne_nil quote rest
    have hlt : utf8Length (text.takeWhile (· ≠ quote)) < utf8Length text := by
      have hpos := quote.utf8Size_pos
      rw [hrest, utf8Length_cons] at hsplit
      omega
    rw [if_neg hne]
    simpa [Option.guard] using hlt

end PredicateLanguage
