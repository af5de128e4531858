import Mathlib.Tactic.IntervalCases
import PredicateLanguage.Proofs.CanonicalTokens

/-!
# Canonical texts are cut into canonical tokens

A text spells some tokens if reading them passes over it, whatever stands behind it other
than more of its last word.  Texts that spell tokens are put together with a space between
them, or with a mark on either side, and canonical texts are put together in this way.
-/

namespace PredicateLanguage

/-- Reading the tokens passes over the text, unless its last word goes on. -/
def Spells (text : List Char) (ts : List Token) : Prop :=
  ∀ rest, rest.head?.any isWord = false → Reads (text ++ rest) ts rest

/-- A space in front of a token is passed over. -/
theorem Reads.space {text rest : List Char} {ts : List Token} (h : Reads text ts rest)
    (hne : ts ≠ []) : Reads (' ' :: text) ts rest := by
  cases h with
  | nil => contradiction
  | cons first others => exact .cons first others

/-- No space is a word character. -/
theorem isWord_of_isSpace {c : Char} (h : isSpace c = true) : isWord c = false := by
  simp only [isSpace, Bool.or_eq_true, Bool.and_eq_true, decide_eq_true_eq] at h
  rcases h with rfl | ⟨hlow, hhigh⟩
  · decide
  · have hlow : 9 ≤ c.toNat := hlow
    have hhigh : c.toNat ≤ 13 := hhigh
    rw [← Char.ofNat_toNat c]
    interval_cases c.toNat <;> decide

/-- No token starts with a space. -/
theorem Starts.dropWhile_isSpace {text rest : List Char} {t : Token} (h : Starts text t rest) :
    text.dropWhile isSpace = text := by
  have hhead : ∃ c cs, text = c :: cs ∧ isSpace c = false := by
    cases t with
    | word w =>
        obtain ⟨hhead, -⟩ := starts_word_iff.mp h
        cases text with
        | nil => contradiction
        | cons c cs =>
            have hc : isWord c = true := by simpa using hhead
            refine ⟨c, cs, rfl, Bool.eq_false_iff.mpr fun hspace => ?_⟩
            rw [isWord_of_isSpace hspace] at hc
            contradiction
    | quoted v =>
        obtain ⟨inside, rfl, -⟩ := starts_quoted_iff.mp h
        exact ⟨_, inside, rfl, by decide⟩
    | mark s =>
        obtain ⟨-, rfl⟩ := starts_mark_iff.mp h
        cases s <;> exact ⟨_, _, rfl, by decide⟩
  obtain ⟨c, cs, rfl, hc⟩ := hhead
  rw [List.dropWhile_cons_of_neg (by simp [hc])]

/-- A mark is read whatever stands behind it. -/
theorem Reads.mark {s : Symbol} (hs : s.isKeyword = false) (rest : List Char) :
    Reads (s.text.toList ++ rest) [s.token] rest := by
  have hmark : Starts (s.text.toList ++ rest) s.token rest := by
    refine Symbol.starts_token_iff.mpr ⟨rfl, ?_⟩
    rw [hs, Bool.false_and]
  refine .cons ?_ (.nil rest)
  rwa [hmark.dropWhile_isSpace]

theorem Starts.spells {text : List Char} {t : Token}
    (h : ∀ rest, rest.head?.any isWord = false → Starts (text ++ rest) t rest) :
    Spells text [t] := by
  intro rest hrest
  have hstarts := h rest hrest
  refine .cons ?_ (.nil rest)
  rwa [hstarts.dropWhile_isSpace]

namespace Spells

variable {text text' : List Char} {ts us : List Token}

theorem nil : Spells [] [] :=
  fun rest _ => .nil rest

theorem symbol (s : Symbol) : Spells s.text.toList [s.token] := by
  refine Starts.spells fun rest hrest => Symbol.starts_token_iff.mpr ⟨rfl, ?_⟩
  rw [hrest, Bool.and_false]

theorem quoted {value : String} (h : Grammar.quote ∉ value.toList) :
    Spells (Token.quoted value).spelling [.quoted value] :=
  Starts.spells fun _ _ => ⟨rfl, h, trivial⟩

theorem word {text : String} (h : (Token.word text).Proper) :
    Spells text.toList [.word text] :=
  Starts.spells fun _ hrest => ⟨rfl, h, hrest⟩

/-- The first text has to end where the second one starts. -/
theorem append (hts : Spells text ts) (hus : Spells text' us)
    (hhead : ∀ rest, rest.head?.any isWord = false → (text' ++ rest).head?.any isWord = false) :
    Spells (text ++ text') (ts ++ us) := by
  intro rest hrest
  rw [List.append_assoc]
  exact (hts _ (hhead rest hrest)).append (hus rest hrest)

/-- Two texts with a space between them spell the tokens of both. -/
theorem spaced (hts : Spells text ts) (hus : Spells text' us) (hne : us ≠ []) :
    Spells (text ++ ' ' :: text') (ts ++ us) := by
  refine hts.append (fun rest hrest => ?_) fun _ _ => rfl
  exact (hus rest hrest).space hne

/-- A mark may stand right before anything. -/
theorem mark_append {s : Symbol} (hs : s.isKeyword = false) (hus : Spells text us) :
    Spells (s.text.toList ++ text) (s.token :: us) := by
  intro rest hrest
  rw [List.append_assoc]
  exact (Reads.mark hs (text ++ rest)).append (hus rest hrest)

/-- A mark may stand right behind anything. -/
theorem append_mark {s : Symbol} (hs : s.isKeyword = false) (hts : Spells text ts) :
    Spells (text ++ s.text.toList) (ts ++ [s.token]) := by
  refine hts.append (symbol s) fun rest _ => ?_
  obtain ⟨c, cs, hc, hword, -⟩ := Symbol.head_text_of_not_keyword hs
  simp [hc, hword]

end Spells

/-! ## Canonical texts -/

theorem Term.spells_write (term : Term) (h : term.WellFormed) :
    Spells term.write.chars [term.token] := by
  cases term with
  | literal value =>
      rw [Term.write, writeQuoted, Writer.chars_between, Writer.chars_text]
      exact .quoted h
  | var name =>
      rw [Term.write, Writer.chars_text]
      have hne : name.toList ≠ [] := by
        intro hnil
        have hhead := h.1
        rw [hnil] at hhead
        contradiction
      exact .word ⟨hne, h.2⟩

theorem spells_elements {values : List String}
    (h : ∀ value ∈ values, Grammar.quote ∉ value.toList) :
    Spells (Writer.joined ", " (values.map writeQuoted)).chars
      ((values.map Token.quoted).intersperse Symbol.comma.token) := by
  induction values with
  | nil => exact .nil
  | cons value values ih =>
      have hvalue : Spells (writeQuoted value).chars [.quoted value] :=
        Term.spells_write (.literal value) (h value List.mem_cons_self)
      have hvalues := ih fun other hother => h other (List.mem_cons_of_mem _ hother)
      cases values with
      | nil => exact hvalue
      | cons other values =>
          have hcomma := hvalue.append_mark (s := .comma) rfl
          have hall := hcomma.spaced hvalues (by cases values <;> simp)
          simp only [Writer.joined, List.map_cons, Writer.chars_append, Writer.chars_text]
          simpa [Symbol.text] using hall

theorem StringSet.spells_write (set : StringSet) (h : set.WellFormed) :
    Spells set.write.chars set.tokens := by
  have hmembers := (spells_elements h).append_mark (s := .closeBrace) rfl
  have hset := hmembers.mark_append (s := .openBrace) rfl
  rw [StringSet.write, Writer.chars_between]
  exact hset

theorem Spells.grouped {w : Writer} {ts : List Token} (h : Spells w.chars ts) (grouped : Bool) :
    Spells (groupedIf grouped w).chars (groupedTokens grouped ts) := by
  cases grouped with
  | false => exact h
  | true =>
      have hclosed := h.append_mark (s := .closeParen) rfl
      have hgroup := hclosed.mark_append (s := .openParen) rfl
      rw [groupedIf, if_pos rfl, Writer.chars_between]
      exact hgroup

/-- An operator stands between its operands, with spaces around it. -/
theorem Spells.operator {v w : Writer} {ts us : List Token} (s : Symbol) {text : String}
    (htext : text = " " ++ s.text ++ " ") (hts : Spells v.chars ts) (hus : Spells w.chars us)
    (hne : us ≠ []) : Spells (v ++ .text text ++ w).chars (ts ++ s.token :: us) := by
  have hchars : (v ++ .text text ++ w).chars =
      v.chars ++ ' ' :: (s.text.toList ++ ' ' :: w.chars) := by
    rw [htext]
    simp
  have hright := (Spells.symbol s).spaced hus hne
  rw [hchars]
  exact hts.spaced hright (List.cons_ne_nil _ _)

theorem groupedTokens_ne_nil {ts : List Token} (h : ts ≠ []) (grouped : Bool) :
    groupedTokens grouped ts ≠ [] := by
  cases grouped with
  | false => exact h
  | true => exact List.cons_ne_nil _ _

namespace Predicate

theorem tokens_ne_nil (p : Predicate) : p.tokens ≠ [] := by
  cases p <;> simp [tokens]

/-- The canonical text of a well-formed predicate spells its tokens. -/
theorem spells_write {p : Predicate} (h : p.WellFormed) : Spells p.write.chars p.tokens := by
  induction p with
  | equal left right =>
      have hright := right.spells_write h.2
      exact .operator .equal rfl (left.spells_write h.1.1) hright (List.cons_ne_nil _ _)
  | notEqual left right =>
      have hright := right.spells_write h.2
      exact .operator .notEqual rfl (left.spells_write h.1.1) hright (List.cons_ne_nil _ _)
  | oneOf term set =>
      have hset := set.spells_write h.2
      exact .operator .member rfl (term.spells_write h.1.1) hset (List.cons_ne_nil _ _)
  | noneOf term set =>
      have hset := set.spells_write h.2
      have hmember := (Spells.symbol .member).spaced hset (List.cons_ne_nil _ _)
      have hnot := (Spells.symbol .not).spaced hmember (List.cons_ne_nil _ _)
      have hterm := (term.spells_write h.1.1).spaced hnot (List.cons_ne_nil _ _)
      simpa [write, tokens, Symbol.text] using hterm
  | present term => exact term.spells_write h.1
  | not operand ih =>
      have hne := groupedTokens_ne_nil operand.tokens_ne_nil operand.groupedUnderNot
      have hnot := (Spells.symbol .not).spaced ((ih h).grouped _) hne
      simpa [write, tokens, Symbol.text] using hnot
  | and left right ihl ihr =>
      have hne := groupedTokens_ne_nil right.tokens_ne_nil right.isOr
      exact .operator .and rfl ((ihl h.1).grouped _) ((ihr h.2).grouped _) hne
  | or left right ihl ihr =>
      exact .operator .or rfl ((ihl h.1).grouped _) (ihr h.2) right.tokens_ne_nil

theorem tokenizes_canonical {p : Predicate} (h : p.WellFormed) :
    Tokenizes p.canonical.toList p.tokens := by
  have hreads := spells_write h [] rfl
  rw [List.append_nil] at hreads
  rw [canonical, Writer.string, String.toList_ofList]
  exact ⟨[], hreads, by simp⟩

end Predicate

end PredicateLanguage
