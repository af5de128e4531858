import PredicateLanguage.Proofs.JsonStrings
import PredicateLanguage.Proofs.JsonTexts

/-!
# Which texts are read as strings

A string is read exactly from its spellings.  The proof goes from hexadecimal digits to numbers,
to escapes and single characters, and then along the string.
-/

namespace PredicateLanguage.Json

variable {s rest : List Char} {c : Char} {n : Nat}

/-! ## Numbers -/

instance (n : Nat) (c : Char) : Decidable (HexDigit n c) :=
  inferInstanceAs (Decidable (n < 16 ∧ (c = n.digitChar ∨ c = n.digitChar.toUpper)))

theorem toNat_lt_of_hexValue? (h : hexValue? c = some n) : c.toNat < 128 := by
  rw [hexValue?] at h
  split at h
  · rename_i hc
    have hle : c.toNat ≤ 57 := hc.2
    omega
  · split at h
    · rename_i hc
      have hle : c.toNat ≤ 102 := hc.2
      omega
    · split at h
      · rename_i hc
        have hle : c.toNat ≤ 70 := hc.2
        omega
      · contradiction

theorem hexValue?_eq_some_iff : hexValue? c = some n ↔ HexDigit n c := by
  constructor
  · intro h
    have hascii : ∀ m < 128, ∀ k ∈ hexValue? (Char.ofNat m), HexDigit k (Char.ofNat m) := by
      decide
    have hdigit := hascii c.toNat (toNat_lt_of_hexValue? h)
    rw [Char.ofNat_toNat] at hdigit
    exact hdigit n h
  · rintro ⟨hn, rfl | rfl⟩
    · exact hexValue?_digitChar hn
    · interval_cases n <;> decide

theorem HexDigit.utf8Size_eq (h : HexDigit n c) : c.utf8Size = 1 := by
  obtain ⟨hn, rfl | rfl⟩ := h
  · exact utf8Size_digitChar hn
  · interval_cases n <;> decide

/-- Four digits are put together to one number. -/
theorem hexNumber?_eq_some_iff {a b c d : Char} :
    hexNumber? [a, b, c, d] = some n ↔ HexDigits n [a, b, c, d] := by
  constructor
  · intro h
    simp only [hexNumber?, List.foldlM_cons, List.foldlM_nil, Option.bind_eq_bind,
      Option.map_eq_map, Option.bind_eq_some_iff, Option.map_eq_some_iff, Option.pure_def,
      Option.some.injEq, hexValue?_eq_some_iff] at h
    obtain ⟨_, ⟨i, ha, rfl⟩, _, ⟨j, hb, rfl⟩, _, ⟨k, hc, rfl⟩, _, ⟨l, hd, rfl⟩, rfl⟩ := h
    obtain ⟨hi, hj, hk, hl⟩ := And.intro ha.1 (And.intro hb.1 (And.intro hc.1 hd.1))
    refine ⟨a, b, c, d, rfl, ?_, ?_, ?_, ?_⟩
    · convert ha using 1
      omega
    · convert hb using 1
      omega
    · convert hc using 1
      omega
    · convert hd using 1
      omega
  · rintro ⟨_, _, _, _, heq, ha, hb, hc, hd⟩
    obtain ⟨rfl, rfl, rfl, rfl⟩ : a = _ ∧ b = _ ∧ c = _ ∧ d = _ := by simpa using heq
    simp only [hexNumber?, List.foldlM_cons, List.foldlM_nil, hexValue?_eq_some_iff.mpr ha,
      hexValue?_eq_some_iff.mpr hb, hexValue?_eq_some_iff.mpr hc, hexValue?_eq_some_iff.mpr hd,
      Option.map_eq_map, Option.map_some, Option.bind_eq_bind, Option.bind_some, Option.pure_def,
      Option.some.injEq]
    omega

/-- Hexadecimal digits take one byte each. -/
theorem utf8Length_of_hexNumber? {digits : List Char} (h : hexNumber? digits = some n) :
    utf8Length digits = digits.length := by
  rw [hexNumber?] at h
  -- The number before the digits starts as zero and is any on the way through them.
  generalize 0 = before at h
  induction digits generalizing before with
  | nil => rfl
  | cons c digits ih =>
      rw [List.foldlM_cons] at h
      obtain ⟨next, hnext, h⟩ := Option.bind_eq_some_iff.mp h
      obtain ⟨k, hk, -⟩ := Option.map_eq_some_iff.mp hnext
      rw [utf8Length_cons, (hexValue?_eq_some_iff.mp hk).utf8Size_eq, ih next h, List.length_cons,
        Nat.add_comm]

theorem readHex_eq_ok_iff :
    readHex s = .ok (n, rest) ↔ ∃ digits, HexDigits n digits ∧ s = digits ++ rest := by
  constructor
  · intro h
    rw [readHex] at h
    split at h
    · contradiction
    · rename_i hlength
      split at h
      · rename_i m hm
        obtain ⟨rfl, rfl⟩ := Prod.mk.inj (Except.ok.inj h)
        refine ⟨s.take 4, ?_, (List.take_append_drop 4 s).symm⟩
        rw [utf8Length_of_hexNumber? hm] at hlength
        have hfour : (s.take 4).length = 4 :=
          Nat.le_antisymm (List.length_take_le 4 s) (Nat.le_of_not_lt hlength)
        obtain ⟨a, b, c, d, hdigits⟩ := List.length_eq_four.mp hfour
        rw [hdigits] at hm ⊢
        exact hexNumber?_eq_some_iff.mp hm
      · contradiction
  · rintro ⟨digits, hdigits, rfl⟩
    obtain ⟨a, b, c, d, rfl, -⟩ := id hdigits
    have hnumber := hexNumber?_eq_some_iff.mpr hdigits
    have hlength : ¬utf8Length [a, b, c, d] < 4 := by
      rw [utf8Length_of_hexNumber? hnumber]
      exact Nat.lt_irrefl 4
    simp only [readHex, List.cons_append, List.take_succ_cons, List.take_zero, List.nil_append,
      List.drop_succ_cons, List.drop_zero, if_neg hlength, hnumber]

theorem HexDigits.lt {digits : List Char} (h : HexDigits n digits) : n < 0x10000 := by
  obtain ⟨_, _, _, _, -, ha, -⟩ := h
  have := ha.1
  omega

/-! ## Characters given by their numbers -/

theorem toNat_ofNat_of_isValidChar (h : n.isValidChar) : (Char.ofNat n).toNat = n := by
  rw [Char.ofNat, dif_pos h]
  rfl

/-- The number of a character is no surrogate. -/
theorem not_surrogate (c : Char) :
    isLowSurrogate c.toNat = false ∧ isHighSurrogate c.toNat = false := by
  have hvalid : c.toNat < 0xd800 ∨ 0xdfff < c.toNat ∧ c.toNat < 0x110000 := c.valid
  rw [isLowSurrogate, isHighSurrogate]
  simp only [Bool.and_eq_false_iff, decide_eq_false_iff_not]
  omega

theorem isHighSurrogate_iff : isHighSurrogate n = true ↔ 0xD800 ≤ n ∧ n < 0xDC00 := by
  rw [isHighSurrogate, Bool.and_eq_true, decide_eq_true_iff, decide_eq_true_iff]

theorem isLowSurrogate_iff : isLowSurrogate n = true ↔ 0xDC00 ≤ n ∧ n < 0xE000 := by
  rw [isLowSurrogate, Bool.and_eq_true, decide_eq_true_iff, decide_eq_true_iff]

/-- A pair of surrogates stands for the character that it numbers. -/
theorem toNat_pairedSurrogates {high low : Nat} (hhigh : isHighSurrogate high = true)
    (hlow : isLowSurrogate low = true) :
    (pairedSurrogates high low).toNat = 0x10000 + (high - 0xD800) * 0x400 + (low - 0xDC00) := by
  rw [isHighSurrogate_iff] at hhigh
  rw [isLowSurrogate_iff] at hlow
  refine toNat_ofNat_of_isValidChar (Or.inr ?_)
  omega

theorem readNumbered_of_readHex {digits : List Char} (h : HexDigits n digits)
    (hlow : isLowSurrogate n = false) (hhigh : isHighSurrogate n = false) :
    readNumbered (digits ++ rest) = .ok (Char.ofNat n, rest) := by
  simp only [readNumbered, readHex_eq_ok_iff.mpr ⟨digits, h, rfl⟩, bind, Except.bind, hlow, hhigh]
  rfl

theorem readNumbered_of_pair {m : Nat} {high low : List Char} (h : HexDigits n high)
    (h' : HexDigits m low) (hhigh : isHighSurrogate n = true) (hlow : isLowSurrogate m = true) :
    readNumbered (high ++ '\\' :: 'u' :: (low ++ rest)) = .ok (pairedSurrogates n m, rest) := by
  have hnot : isLowSurrogate n = false := by
    rw [isHighSurrogate_iff] at hhigh
    rw [isLowSurrogate, Bool.and_eq_false_iff, decide_eq_false_iff_not]
    omega
  simp only [readNumbered, readHex_eq_ok_iff.mpr ⟨high, h, rfl⟩,
    readHex_eq_ok_iff.mpr ⟨low, h', rfl⟩, bind, Except.bind, hnot, hhigh, hlow]
  rfl

/-- What is read by its number is a number that is no surrogate, or a pair of surrogates. -/
theorem readNumbered_cases (h : readNumbered s = .ok (c, rest)) :
    (∃ n digits, HexDigits n digits ∧ isLowSurrogate n = false ∧ isHighSurrogate n = false ∧
      s = digits ++ rest ∧ c = Char.ofNat n) ∨
    ∃ n m high low, HexDigits n high ∧ HexDigits m low ∧ isHighSurrogate n = true ∧
      isLowSurrogate m = true ∧ s = high ++ '\\' :: 'u' :: (low ++ rest) ∧
      c = pairedSurrogates n m := by
  rw [readNumbered] at h
  cases hs : readHex s with
  | error f => simp [hs, bind, Except.bind] at h
  | ok r =>
      obtain ⟨n, r⟩ := r
      obtain ⟨digits, hdigits, rfl⟩ := readHex_eq_ok_iff.mp hs
      simp only [hs, bind, Except.bind] at h
      split at h
      · contradiction
      rename_i hlow
      split at h
      · rename_i hhigh
        split at h
        · contradiction
        · contradiction
        · rename_i r'
          cases ht : readHex r' with
          | error f => simp [ht] at h
          | ok t =>
              obtain ⟨m, t⟩ := t
              obtain ⟨digits', hdigits', rfl⟩ := readHex_eq_ok_iff.mp ht
              simp only [ht] at h
              split at h
              · rename_i hm
                obtain ⟨rfl, rfl⟩ := Prod.mk.inj (Except.ok.inj h)
                exact Or.inr ⟨n, m, digits, digits', hdigits, hdigits', hhigh, hm, rfl, rfl⟩
              · contradiction
        · contradiction
      · rename_i hhigh
        obtain ⟨rfl, rfl⟩ := Prod.mk.inj (Except.ok.inj h)
        rw [Bool.not_eq_true] at hlow hhigh
        exact Or.inl ⟨n, digits, hdigits, hlow, hhigh, rfl, rfl⟩

/-- Behind a backslash and `u` a character is read from its number, or from the two surrogates
that make up its number. -/
theorem readNumbered_eq_ok_iff :
    readNumbered s = .ok (c, rest) ↔
      (∃ digits, HexDigits c.toNat digits ∧ s = digits ++ rest) ∨
      ∃ high low, 0x10000 ≤ c.toNat ∧ HexDigits (0xD800 + (c.toNat - 0x10000) / 0x400) high ∧
        HexDigits (0xDC00 + (c.toNat - 0x10000) % 0x400) low ∧
        s = high ++ '\\' :: 'u' :: (low ++ rest) := by
  constructor
  · intro h
    rcases readNumbered_cases h with ⟨n, digits, hdigits, hlow, hhigh, hs, hc⟩ |
      ⟨n, m, high, low, hdigits, hdigits', hhigh, hlow, hs, hc⟩
    · have hlt := hdigits.lt
      rw [isLowSurrogate, Bool.and_eq_false_iff, decide_eq_false_iff_not,
        decide_eq_false_iff_not] at hlow
      rw [isHighSurrogate, Bool.and_eq_false_iff, decide_eq_false_iff_not,
        decide_eq_false_iff_not] at hhigh
      have hvalid : n.isValidChar := by
        rw [Nat.isValidChar]
        omega
      refine Or.inl ⟨digits, ?_, hs⟩
      rwa [hc, toNat_ofNat_of_isValidChar hvalid]
    · have hnumber := toNat_pairedSurrogates hhigh hlow
      rw [isHighSurrogate_iff] at hhigh
      rw [isLowSurrogate_iff] at hlow
      rw [← hc] at hnumber
      refine Or.inr ⟨high, low, by omega, ?_, ?_, hs⟩
      · convert hdigits using 1
        omega
      · convert hdigits' using 1
        omega
  · rintro (⟨digits, hdigits, rfl⟩ | ⟨high, low, hc, hhigh, hlow, rfl⟩)
    · obtain ⟨hnotLow, hnotHigh⟩ := not_surrogate c
      rw [readNumbered_of_readHex hdigits hnotLow hnotHigh, Char.ofNat_toNat]
    · have hvalid : c.toNat < 0xd800 ∨ 0xdfff < c.toNat ∧ c.toNat < 0x110000 := c.valid
      have hh := isHighSurrogate_iff.mpr
        (show 0xD800 ≤ 0xD800 + (c.toNat - 0x10000) / 0x400 ∧ _ < 0xDC00 by omega)
      have hl := isLowSurrogate_iff.mpr
        (show 0xDC00 ≤ 0xDC00 + (c.toNat - 0x10000) % 0x400 ∧ _ < 0xE000 by omega)
      have hpair : pairedSurrogates (0xD800 + (c.toNat - 0x10000) / 0x400)
          (0xDC00 + (c.toNat - 0x10000) % 0x400) = c := by
        rw [← Char.toNat_inj, toNat_pairedSurrogates hh hl]
        omega
      rw [readNumbered_of_pair hhigh hlow hh hl, hpair]

/-! ## Characters and strings -/

theorem unescape?_eq_some_iff {letter : Char} :
    unescape? letter = some c ↔ (letter, c) ∈ escapes := by
  have hall : ∀ e ∈ escapes, unescape? e.1 = some e.2 := by simp [escapes, unescape?]
  constructor
  · intro h
    have hletter : letter ∈ escapes.map Prod.fst := by
      by_contra hnot
      simp only [escapes, List.map_cons, List.map_nil, List.mem_cons, List.not_mem_nil, or_false,
        not_or] at hnot
      simp [unescape?, hnot] at h
    obtain ⟨e, he, rfl⟩ := List.mem_map.mp hletter
    rw [hall e he] at h
    obtain rfl := Option.some.inj h
    exact he
  · intro h
    exact hall _ h

theorem readEscape_eq_ok_iff {letter : Char} :
    readEscape (letter :: s) = .ok (c, rest) ↔
      ((letter, c) ∈ escapes ∧ s = rest) ∨ letter = 'u' ∧ readNumbered s = .ok (c, rest) := by
  rw [readEscape]
  by_cases hu : letter = 'u'
  · have hnone : ('u', c) ∉ escapes := by
      rw [← unescape?_eq_some_iff]
      intro h
      cases h
    rw [if_pos hu, hu]
    constructor
    · intro h
      exact Or.inr ⟨rfl, h⟩
    · rintro (⟨hescape, -⟩ | ⟨-, h⟩)
      · exact absurd hescape hnone
      · exact h
  · rw [if_neg hu, ← unescape?_eq_some_iff]
    constructor
    · intro h
      split at h
      · rename_i d hd
        obtain ⟨rfl, rfl⟩ := Prod.mk.inj (Except.ok.inj h)
        exact Or.inl ⟨hd, rfl⟩
      · contradiction
    · rintro (⟨hescape, rfl⟩ | ⟨hu', -⟩)
      · rw [hescape]
      · exact absurd hu' hu

theorem readPiece_backslash :
    readPiece ('\\' :: s) = .ok (some c, rest) ↔ readEscape s = .ok (c, rest) := by
  change (fun read => (some read.1, read.2)) <$> readEscape s = _ ↔ _
  cases readEscape s with
  | error fault => simp [Functor.map, Except.map]
  | ok read => simp [Functor.map, Except.map, Prod.ext_iff]

/-- A character is read exactly from its spellings. -/
theorem readPiece_eq_some_iff :
    readPiece s = .ok (some c, rest) ↔ Begins (charTexts c) s rest := by
  constructor
  · intro h
    obtain ⟨x, t, rfl, -⟩ := readPiece_suffix h
    by_cases hbackslash : x = '\\'
    · subst hbackslash
      have hescape := readPiece_backslash.mp h
      cases t with
      | nil => contradiction
      | cons letter t =>
          rcases readEscape_eq_ok_iff.mp hescape with ⟨hletter, rfl⟩ | ⟨rfl, hnumbered⟩
          · exact ⟨_, .escaped hletter, rfl⟩
          · rcases readNumbered_eq_ok_iff.mp hnumbered with
              ⟨digits, hdigits, rfl⟩ | ⟨high, low, hc, hhigh, hlow, rfl⟩
            · exact ⟨_, .numbered hdigits, rfl⟩
            · exact ⟨_, .paired hc hhigh hlow, by simp⟩
    · rw [readPiece, if_neg hbackslash] at h
      split at h
      · cases h
      · rename_i hquote
        split at h
        · contradiction
        · rename_i hcontrol
          obtain ⟨hc, rfl⟩ := Prod.mk.inj (Except.ok.inj h)
          obtain rfl := Option.some.inj hc
          exact ⟨_, .plain hquote hbackslash (Char.not_lt.mp hcontrol), rfl⟩
  · rintro ⟨front, hfront, rfl⟩
    cases hfront with
    | plain hquote hbackslash hcontrol =>
        exact readPiece_plain hquote hbackslash (Char.not_lt.mpr hcontrol) rest
    | escaped hletter => exact readPiece_escaped (unescape?_eq_some_iff.mpr hletter) rest
    | numbered hdigits =>
        refine readPiece_backslash.mpr (readEscape_eq_ok_iff.mpr (Or.inr ⟨rfl, ?_⟩))
        exact readNumbered_eq_ok_iff.mpr (Or.inl ⟨_, hdigits, rfl⟩)
    | paired hc hhigh hlow =>
        refine readPiece_backslash.mpr (readEscape_eq_ok_iff.mpr (Or.inr ⟨rfl, ?_⟩))
        exact readNumbered_eq_ok_iff.mpr (Or.inr ⟨_, _, hc, hhigh, hlow, by simp⟩)

/-- A string is closed exactly by a quote. -/
theorem readPiece_eq_none_iff : readPiece s = .ok (none, rest) ↔ s = '"' :: rest := by
  constructor
  · intro h
    obtain ⟨x, t, rfl, -⟩ := readPiece_suffix h
    by_cases hquote : x = '"'
    · subst hquote
      obtain ⟨-, rfl⟩ := Prod.mk.inj (Except.ok.inj h)
      rfl
    · rw [readPiece, if_neg hquote] at h
      split at h
      · cases hescape : readEscape t with
        | error fault => simp [hescape, Functor.map, Except.map] at h
        | ok read => simp [hescape, Functor.map, Except.map] at h
      · split at h
        · contradiction
        · cases h
  · rintro rfl
    rfl

/-- From inside a string the characters that are left are read from their spellings. -/
theorem readStringFrom_eq_ok_iff {earlier : List Char} {x : String} :
    readStringFrom earlier s = .ok (x, rest) ↔
      ∃ cs, x = String.ofList (earlier.reverse ++ cs) ∧
        Begins ((cs.map charTexts).prod * symbol '"') s rest := by
  constructor
  · intro h
    fun_induction readStringFrom earlier s with
    | case1 => contradiction
    | case2 earlier s r hs =>
        obtain ⟨rfl, rfl⟩ := Prod.mk.inj (Except.ok.inj h)
        refine ⟨[], by rw [List.append_nil], ?_⟩
        rw [List.map_nil, List.prod_nil, one_mul, begins_symbol]
        exact readPiece_eq_none_iff.mp hs
    | case3 earlier s c r hs ih =>
        obtain ⟨cs, rfl, hcs⟩ := ih h
        refine ⟨c :: cs, by rw [List.reverse_cons, List.append_assoc, List.singleton_append], ?_⟩
        rw [List.map_cons, List.prod_cons, mul_assoc, begins_mul]
        exact ⟨r, readPiece_eq_some_iff.mp hs, hcs⟩
  · rintro ⟨cs, rfl, h⟩
    induction cs generalizing earlier s with
    | nil =>
        rw [List.map_nil, List.prod_nil, one_mul, begins_symbol] at h
        rw [readStringFrom_eq, readPiece_eq_none_iff.mpr h, List.append_nil]
    | cons c cs ih =>
        rw [List.map_cons, List.prod_cons, mul_assoc, begins_mul] at h
        obtain ⟨r, hc, hcs⟩ := h
        rw [readStringFrom_eq, readPiece_eq_some_iff.mpr hc]
        have htail : readStringFrom (c :: earlier) r =
            .ok (String.ofList ((c :: earlier).reverse ++ cs), rest) := ih hcs
        rwa [List.reverse_cons, List.append_assoc, List.singleton_append] at htail

/-- Behind its first quote a string is read exactly from its spellings. -/
theorem readString_eq_ok_iff {x : String} :
    readString s = .ok (x, rest) ↔ Begins (bodyTexts x) s rest := by
  rw [readString, readStringFrom_eq_ok_iff]
  constructor
  · rintro ⟨cs, rfl, h⟩
    rwa [bodyTexts, List.reverse_nil, List.nil_append, String.toList_ofList]
  · intro h
    exact ⟨x.toList, by rw [List.reverse_nil, List.nil_append, String.ofList_toList], h⟩

end PredicateLanguage.Json
