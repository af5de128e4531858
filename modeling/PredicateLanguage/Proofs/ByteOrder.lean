import Mathlib.Algebra.Group.Nat.Defs
import Mathlib.Tactic.SplitIfs
import PredicateLanguage.Predicate.StringSet

/-!
# The order of bytes

Strings are ordered by their code points, character by character.  Their UTF-8 forms are ordered
in the same way, byte by byte: the first byte of a character tells how many bytes follow it, the
more of them the greater it is, and every byte behind the first holds the next six bits.
-/

namespace PredicateLanguage

variable {v w n : Nat} {c d : Char}

/-! ## Characters -/

/-- The first byte of the character with a number. -/
def leadingByte (v : Nat) : Nat :=
  if v ≤ 0x7f then v
  else if v ≤ 0x7ff then v / 64 + 0xc0
  else if v ≤ 0xffff then v / 64 ^ 2 + 0xe0
  else v / 64 ^ 3 + 0xf0

/-- How many bytes follow the first one. -/
def continuationLength (v : Nat) : Nat :=
  if v ≤ 0x7f then 0
  else if v ≤ 0x7ff then 1
  else if v ≤ 0xffff then 2
  else 3

/-- The last bytes of a character, with six bits in each of them. -/
def continuation : Nat → Nat → List UInt8
  | 0, _ => []
  | n + 1, v => .ofNat (v / 64 ^ n % 64 + 0x80) :: continuation n v

theorem charVal_lt (c : Char) : c.val.toNat < 0x110000 := by
  have hvalid := c.valid
  simp only [UInt32.isValidChar, Nat.isValidChar] at hvalid
  omega

theorem leadingByte_lt (h : v < 0x110000) : leadingByte v < 256 := by
  unfold leadingByte
  split_ifs <;> omega

theorem utf8EncodeChar_eq (c : Char) :
    String.utf8EncodeChar c =
      .ofNat (leadingByte c.val.toNat) ::
        continuation (continuationLength c.val.toNat) c.val.toNat := by
  have hlt := charVal_lt c
  unfold String.utf8EncodeChar leadingByte continuationLength
  generalize c.val.toNat = v at hlt
  dsimp only
  -- The bits of the first byte need no mask, since the number is not greater.
  split_ifs with h1 h2 h3
  · rfl
  · rw [Nat.mod_eq_of_lt (by omega)]
    simp [continuation]
  · rw [Nat.mod_eq_of_lt (by omega)]
    simp [continuation]
  · rw [Nat.mod_eq_of_lt (by omega)]
    simp [continuation]

theorem ofNat_lt_ofNat (h : v < w) (hw : w < 256) : UInt8.ofNat v < UInt8.ofNat w := by
  rw [UInt8.lt_iff_toNat_lt, UInt8.toNat_ofNat', UInt8.toNat_ofNat', Nat.mod_eq_of_lt hw,
    Nat.mod_eq_of_lt (Nat.lt_trans h hw)]
  exact h

/-- The last bytes of two numbers are ordered as the numbers if the bits before them agree. -/
theorem continuation_lt (h : v < w) (hbits : v / 64 ^ n = w / 64 ^ n) (bs bs' : List UInt8) :
    continuation n v ++ bs < continuation n w ++ bs' := by
  induction n with
  | zero =>
      rw [Nat.pow_zero, Nat.div_one, Nat.div_one] at hbits
      omega
  | succ n ih =>
      rw [Nat.pow_succ, ← Nat.div_div_eq_div_mul, ← Nat.div_div_eq_div_mul] at hbits
      rw [continuation, continuation, List.cons_append, List.cons_append, List.cons_lt_cons_iff]
      have hle : v / 64 ^ n ≤ w / 64 ^ n := Nat.div_le_div_right (Nat.le_of_lt h)
      rcases Nat.lt_or_eq_of_le hle with hlt | heq
      · apply Or.inl
        apply ofNat_lt_ofNat
        · omega
        · omega
      · rw [heq]
        exact Or.inr ⟨rfl, ih heq⟩

/-- The first byte of the greater number is greater, unless both numbers have as many bytes and
agree in the bits of the first one. -/
theorem leadingByte_lt_or (h : v < w) (hw : w < 0x110000) :
    leadingByte v < leadingByte w ∨ leadingByte v = leadingByte w ∧
      continuationLength v = continuationLength w ∧
      v / 64 ^ continuationLength w = w / 64 ^ continuationLength w := by
  unfold leadingByte continuationLength
  split_ifs <;> omega

theorem utf8EncodeChar_lt (h : c < d) (bs bs' : List UInt8) :
    String.utf8EncodeChar c ++ bs < String.utf8EncodeChar d ++ bs' := by
  have hlt : c.val.toNat < d.val.toNat := h
  rw [utf8EncodeChar_eq, utf8EncodeChar_eq, List.cons_append, List.cons_append,
    List.cons_lt_cons_iff]
  rcases leadingByte_lt_or hlt (charVal_lt d) with hlead | ⟨hlead, hlength, hbits⟩
  · exact Or.inl (ofNat_lt_ofNat hlead (leadingByte_lt (charVal_lt d)))
  · rw [hlead, hlength]
    exact Or.inr ⟨rfl, continuation_lt hlt hbits bs bs'⟩

/-! ## Strings -/

/-- The bytes of a string in UTF-8. -/
def utf8Bytes (s : String) : List UInt8 :=
  s.toByteArray.data.toList

theorem utf8Bytes_eq (s : String) : utf8Bytes s = s.toList.flatMap String.utf8EncodeChar := by
  rw [utf8Bytes, ← String.utf8Encode_toList, List.utf8Encode]
  simp

theorem flatMap_utf8EncodeChar_lt {cs ds : List Char} (h : cs < ds) :
    cs.flatMap String.utf8EncodeChar < ds.flatMap String.utf8EncodeChar := by
  induction h with
  | nil =>
      rw [List.flatMap_nil, List.flatMap_cons, utf8EncodeChar_eq, List.cons_append]
      exact List.nil_lt_cons _ _
  | cons _ ih =>
      rw [List.flatMap_cons, List.flatMap_cons]
      exact List.append_left_lt ih
  | rel hlt =>
      rw [List.flatMap_cons, List.flatMap_cons]
      exact utf8EncodeChar_lt hlt _ _

theorem utf8Bytes_lt {s t : String} (h : s < t) : utf8Bytes s < utf8Bytes t := by
  rw [utf8Bytes_eq, utf8Bytes_eq]
  exact flatMap_utf8EncodeChar_lt h

/-- Strings are ordered by code point exactly as their UTF-8 forms are ordered by byte. -/
theorem utf8Bytes_lt_iff {s t : String} : utf8Bytes s < utf8Bytes t ↔ s < t := by
  constructor
  · intro hbytes
    by_cases hts : t < s
    · exact absurd (utf8Bytes_lt hts) (List.lt_asymm hbytes)
    · by_cases hst : s < t
      · exact hst
      · rw [eq_of_not_lt hst hts] at hbytes
        exact absurd hbytes (List.lt_irrefl _)
  · exact utf8Bytes_lt

end PredicateLanguage
