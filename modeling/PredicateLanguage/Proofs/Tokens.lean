import Mathlib.Data.List.TakeWhile
import PredicateLanguage.Grammar.Token

/-!
# Cutting a text into tokens

A predicate text is made of bare words, quoted texts and marks, with spaces between them
where one likes.  This is said here without the grammar and without the rules that read
tokens.  A text starts with at most one token, so it can be cut in at most one way.
-/

namespace PredicateLanguage

/-- A token of a predicate text. -/
inductive Token where
  /-- A run of word characters, keywords included. -/
  | word (text : String)
  /-- What stands between two quotes. -/
  | quoted (value : String)
  /-- A symbol that is not spelled as a word. -/
  | mark (symbol : Symbol)
  deriving DecidableEq

namespace Token

/-- The characters of a token. -/
def spelling : Token → List Char
  | word text => text.toList
  | quoted value => Grammar.quote :: value.toList ++ [Grammar.quote]
  | mark symbol => symbol.text.toList

/-- A word is a nonempty run of word characters, a quoted text holds no quote, and a
mark is no keyword. -/
def Proper : Token → Prop
  | word text => text.toList ≠ [] ∧ ∀ c ∈ text.toList, isWord c = true
  | quoted value => Grammar.quote ∉ value.toList
  | mark symbol => symbol.isKeyword = false

instance (t : Token) : Decidable t.Proper :=
  match t with
  | word text =>
    decidable_of_iff (text.toList.isEmpty = false ∧ text.toList.all isWord = true)
      (and_congr List.isEmpty_eq_false_iff List.all_eq_true)
  | quoted value => inferInstanceAs (Decidable (Grammar.quote ∉ value.toList))
  | mark symbol => inferInstanceAs (Decidable (symbol.isKeyword = false))

theorem spelling_ne_nil (t : Token) (h : t.Proper) : t.spelling ≠ [] := by
  cases t with
  | word text => exact h.1
  | quoted value => exact List.cons_ne_nil _ _
  | mark s => cases s <;> decide

/-- A word ends only where no further word character follows. -/
def EndsBefore (t : Token) (rest : List Char) : Prop :=
  match t with
  | word _ => rest.head?.any isWord = false
  | quoted _ | mark _ => True

end Token

/-- The token that a symbol is. -/
def Symbol.token (s : Symbol) : Token :=
  if s.isKeyword then .word s.text else .mark s

theorem Symbol.spelling_token (s : Symbol) : s.token.spelling = s.text.toList := by
  cases s <;> rfl

theorem Symbol.proper_token (s : Symbol) : s.token.Proper := by
  cases s <;> simp [token, isKeyword, Token.Proper, text] <;> decide

/-- The text starts with a token, and the rest follows it. -/
structure Starts (text : List Char) (t : Token) (rest : List Char) : Prop where
  eq : text = t.spelling ++ rest
  proper : t.Proper
  ends : t.EndsBefore rest

/-! ## At most one token -/

/-- A run of a class of characters that is followed by none of the class. -/
theorem takeWhile_run {p : Char → Bool} {run rest : List Char}
    (hrun : ∀ c ∈ run, p c = true) (hrest : rest.head?.any p = false) :
    (run ++ rest).takeWhile p = run := by
  rw [List.takeWhile_append_of_pos hrun]
  cases rest with
  | nil => simp
  | cons c rest =>
      have hc : p c = false := by simpa using hrest
      simp [hc]

theorem dropWhile_run {p : Char → Bool} {run rest : List Char}
    (hrun : ∀ c ∈ run, p c = true) (hrest : rest.head?.any p = false) :
    (run ++ rest).dropWhile p = rest := by
  rw [List.dropWhile_append_of_pos hrun]
  cases rest with
  | nil => simp
  | cons c rest =>
      have hc : p c = false := by simpa using hrest
      simp [hc]

/-- The characters that are passed over end before one of another class. -/
theorem head_dropWhile (p : Char → Bool) (text : List Char) :
    (text.dropWhile p).head?.any p = false := by
  have h := List.head?_dropWhile_not p text
  cases hd : (text.dropWhile p).head? with
  | none => rfl
  | some c =>
      rw [hd] at h
      simpa using h

theorem starts_word_iff {text rest : List Char} {w : String} :
    Starts text (.word w) rest ↔
      text.head?.any isWord = true ∧ w = String.ofList (text.takeWhile isWord) ∧
        rest = text.dropWhile isWord := by
  constructor
  · rintro ⟨rfl, ⟨hne, hw⟩, hend⟩
    have htake : (w.toList ++ rest).takeWhile isWord = w.toList := takeWhile_run hw hend
    have hdrop : (w.toList ++ rest).dropWhile isWord = rest := dropWhile_run hw hend
    refine ⟨?_, ?_, hdrop.symm⟩
    · obtain ⟨c, cs, hc⟩ := List.exists_cons_of_ne_nil hne
      have hcw : isWord c = true := hw c (by simp [hc])
      simp [Token.spelling, hc, hcw]
    · rw [Token.spelling, htake, String.ofList_toList]
  · rintro ⟨hhead, rfl, rfl⟩
    refine ⟨?_, ⟨?_, ?_⟩, head_dropWhile isWord text⟩
    · simp [Token.spelling]
    · cases text with
      | nil => simp at hhead
      | cons c cs =>
          have hc : isWord c = true := by simpa using hhead
          simp [hc]
    · intro c hc
      rw [String.toList_ofList] at hc
      exact List.mem_takeWhile_imp hc

theorem starts_quoted_iff {text rest : List Char} {v : String} :
    Starts text (.quoted v) rest ↔
      ∃ inside, text = Grammar.quote :: inside ∧
        v = String.ofList (inside.takeWhile (· ≠ Grammar.quote)) ∧
          inside.dropWhile (· ≠ Grammar.quote) = Grammar.quote :: rest := by
  constructor
  · rintro ⟨rfl, hv, -⟩
    have hrun : ∀ c ∈ v.toList, decide (c ≠ Grammar.quote) = true := by
      intro c hc
      have hne : c ≠ Grammar.quote := fun h => hv (h ▸ hc)
      exact decide_eq_true hne
    have hstop :
        (Grammar.quote :: rest).head?.any (fun c => decide (c ≠ Grammar.quote)) = false := by
      simp
    refine ⟨v.toList ++ Grammar.quote :: rest, by simp [Token.spelling], ?_, ?_⟩
    · rw [takeWhile_run hrun hstop, String.ofList_toList]
    · exact dropWhile_run hrun hstop
  · rintro ⟨inside, rfl, rfl, hclose⟩
    refine ⟨?_, ?_, trivial⟩
    · have hsplit : inside =
          inside.takeWhile (· ≠ Grammar.quote) ++ Grammar.quote :: rest := by
        rw [← hclose, List.takeWhile_append_dropWhile]
      simpa [Token.spelling] using hsplit
    · intro hmem
      rw [String.toList_ofList] at hmem
      simpa using List.mem_takeWhile_imp hmem

theorem starts_mark_iff {text rest : List Char} {s : Symbol} :
    Starts text (.mark s) rest ↔ s.isKeyword = false ∧ text = s.text.toList ++ rest := by
  constructor
  · rintro ⟨rfl, hs, -⟩
    exact ⟨hs, rfl⟩
  · rintro ⟨hs, rfl⟩
    exact ⟨rfl, hs, trivial⟩

/-- A keyword ends where no further word character follows; other symbols end anywhere. -/
theorem Symbol.endsBefore_token_iff {s : Symbol} {rest : List Char} :
    s.token.EndsBefore rest ↔ (s.isKeyword && rest.head?.any isWord) = false := by
  cases s <;> simp [token, isKeyword, Token.EndsBefore]

theorem Symbol.starts_token_iff {s : Symbol} {text rest : List Char} :
    Starts text s.token rest ↔
      text = s.text.toList ++ rest ∧ (s.isKeyword && rest.head?.any isWord) = false := by
  constructor
  · rintro ⟨heq, -, hends⟩
    rw [spelling_token] at heq
    exact ⟨heq, endsBefore_token_iff.mp hends⟩
  · rintro ⟨heq, hends⟩
    refine ⟨?_, proper_token s, endsBefore_token_iff.mpr hends⟩
    rw [spelling_token]
    exact heq

/-- The first character of a mark belongs to no word and opens no quoted text. -/
theorem Symbol.head_text_of_not_keyword {s : Symbol} (hs : s.isKeyword = false) :
    ∃ c cs, s.text.toList = c :: cs ∧ isWord c = false ∧ c ≠ Grammar.quote := by
  revert hs
  cases s <;> first
    | exact fun h => absurd h (by decide)
    | exact fun _ => ⟨_, _, rfl, by decide, by decide⟩

/-- Two marks that a text starts with are the same. -/
theorem Symbol.eq_of_text_append {s s' : Symbol} {rest rest' : List Char}
    (hs : s.isKeyword = false) (hs' : s'.isKeyword = false)
    (h : s.text.toList ++ rest = s'.text.toList ++ rest') : s = s' := by
  cases s <;> cases s' <;> first
    | rfl
    | exact absurd hs (by decide)
    | exact absurd hs' (by decide)
    | simp [text] at h

namespace Starts

variable {text rest rest' : List Char} {t t' : Token}

/-- A token is a word exactly if the text starts with a word character. -/
theorem isWord_head_iff (h : Starts text t rest) :
    text.head?.any isWord = true ↔ ∃ w, t = .word w := by
  cases t with
  | word w =>
      have hhead := (starts_word_iff.mp h).1
      exact iff_of_true hhead ⟨w, rfl⟩
  | quoted v =>
      obtain ⟨inside, rfl, -, -⟩ := starts_quoted_iff.mp h
      have hq : isWord Grammar.quote = false := by decide
      simp [hq]
  | mark s =>
      obtain ⟨hs, rfl⟩ := starts_mark_iff.mp h
      obtain ⟨c, cs, hc, hcw, -⟩ := Symbol.head_text_of_not_keyword hs
      simp [hc, hcw]

/-- A token is a quoted text exactly if the text starts with a quote. -/
theorem quote_head_iff (h : Starts text t rest) :
    text.head? = some Grammar.quote ↔ ∃ v, t = .quoted v := by
  cases t with
  | word w =>
      have hhead := (starts_word_iff.mp h).1
      constructor
      · intro hq
        rw [hq] at hhead
        exact absurd hhead (by decide)
      · rintro ⟨v, hv⟩
        contradiction
  | quoted v =>
      obtain ⟨inside, rfl, -, -⟩ := starts_quoted_iff.mp h
      simp
  | mark s =>
      obtain ⟨hs, rfl⟩ := starts_mark_iff.mp h
      obtain ⟨c, cs, hc, -, hcq⟩ := Symbol.head_text_of_not_keyword hs
      simp [hc, hcq]

theorem text_ne_nil (h : Starts text t rest) : text ≠ [] := by
  rintro rfl
  cases t with
  | word w =>
      have hhead := (starts_word_iff.mp h).1
      contradiction
  | quoted v =>
      obtain ⟨inside, hnil, -⟩ := starts_quoted_iff.mp h
      contradiction
  | mark s =>
      obtain ⟨hs, hnil⟩ := starts_mark_iff.mp h
      obtain ⟨c, cs, hc, -⟩ := Symbol.head_text_of_not_keyword hs
      rw [hc] at hnil
      contradiction

/-- A text starts with at most one token. -/
theorem unique (h : Starts text t rest) (h' : Starts text t' rest') :
    t = t' ∧ rest = rest' := by
  by_cases hword : text.head?.any isWord = true
  · obtain ⟨w, rfl⟩ := h.isWord_head_iff.mp hword
    obtain ⟨w', rfl⟩ := h'.isWord_head_iff.mp hword
    obtain ⟨-, rfl, rfl⟩ := starts_word_iff.mp h
    obtain ⟨-, rfl, rfl⟩ := starts_word_iff.mp h'
    exact ⟨rfl, rfl⟩
  by_cases hquote : text.head? = some Grammar.quote
  · obtain ⟨v, rfl⟩ := h.quote_head_iff.mp hquote
    obtain ⟨v', rfl⟩ := h'.quote_head_iff.mp hquote
    obtain ⟨inside, rfl, rfl, hclose⟩ := starts_quoted_iff.mp h
    obtain ⟨inside', hinside, rfl, hclose'⟩ := starts_quoted_iff.mp h'
    obtain rfl : inside = inside' := (List.cons.inj hinside).2
    rw [hclose] at hclose'
    exact ⟨rfl, (List.cons.inj hclose').2⟩
  cases t with
  | word w => exact absurd (h.isWord_head_iff.mpr ⟨w, rfl⟩) hword
  | quoted v => exact absurd (h.quote_head_iff.mpr ⟨v, rfl⟩) hquote
  | mark s =>
      cases t' with
      | word w => exact absurd (h'.isWord_head_iff.mpr ⟨w, rfl⟩) hword
      | quoted v => exact absurd (h'.quote_head_iff.mpr ⟨v, rfl⟩) hquote
      | mark s' =>
          obtain ⟨hs, rfl⟩ := starts_mark_iff.mp h
          obtain ⟨hs', htext⟩ := starts_mark_iff.mp h'
          obtain rfl : s = s' := Symbol.eq_of_text_append hs hs' htext
          exact ⟨rfl, List.append_cancel_left htext⟩

end Starts

/-! ## Tokens in a row -/

/-- Reading tokens one after the other, with spaces before any of them, leads from a text
to the rest of it. -/
inductive Reads : List Char → List Token → List Char → Prop
  | nil (text : List Char) : Reads text [] text
  | cons {text rest tail : List Char} {t : Token} {ts : List Token}
      (first : Starts (text.dropWhile isSpace) t rest) (others : Reads rest ts tail) :
      Reads text (t :: ts) tail

namespace Reads

variable {text rest tail tail' : List Char} {t : Token} {ts us : List Token}

theorem cons_iff :
    Reads text (t :: ts) tail ↔
      ∃ rest, Starts (text.dropWhile isSpace) t rest ∧ Reads rest ts tail := by
  constructor
  · rintro (_ | ⟨first, others⟩)
    exact ⟨_, first, others⟩
  · rintro ⟨rest, first, others⟩
    exact .cons first others

theorem nil_iff : Reads text [] tail ↔ tail = text := by
  constructor
  · rintro (_ | _)
    rfl
  · rintro rfl
    exact .nil tail

theorem append (h : Reads text ts rest) (h' : Reads rest us tail) :
    Reads text (ts ++ us) tail := by
  induction h with
  | nil => exact h'
  | cons first _ ih => exact .cons first (ih h')

theorem append_iff :
    Reads text (ts ++ us) tail ↔ ∃ rest, Reads text ts rest ∧ Reads rest us tail := by
  constructor
  · intro h
    induction ts generalizing text with
    | nil => exact ⟨text, .nil text, h⟩
    | cons t ts ih =>
        obtain ⟨behind, first, others⟩ := cons_iff.mp h
        obtain ⟨rest, hts, hus⟩ := ih others
        exact ⟨rest, .cons first hts, hus⟩
  · rintro ⟨rest, hts, hus⟩
    exact hts.append hus

/-- What is left is the end of the text. -/
theorem suffix (h : Reads text ts tail) : tail <:+ text := by
  induction h with
  | nil => exact List.suffix_refl _
  | @cons text rest tail t ts first _ ih =>
      have hspaces : text.dropWhile isSpace <:+ text := List.dropWhile_suffix isSpace
      rw [first.eq] at hspaces
      exact ih.trans ((List.suffix_append _ _).trans hspaces)

theorem proper (h : Reads text ts tail) : ∀ t ∈ ts, t.Proper := by
  induction h with
  | nil => simp
  | cons first _ ih =>
      intro t ht
      rcases List.mem_cons.mp ht with rfl | ht
      · exact first.proper
      · exact ih t ht

end Reads

/-- A text is cut into tokens if it consists of them and spaces. -/
def Tokenizes (text : List Char) (ts : List Token) : Prop :=
  ∃ tail, Reads text ts tail ∧ ∀ c ∈ tail, isSpace c = true

theorem not_starts_of_spaces {text rest : List Char} {t : Token}
    (h : ∀ c ∈ text, isSpace c = true) : ¬Starts (text.dropWhile isSpace) t rest := by
  intro hstarts
  exact hstarts.text_ne_nil (List.dropWhile_eq_nil_iff.mpr h)

theorem tokenizes_nil_iff {text : List Char} :
    Tokenizes text [] ↔ ∀ c ∈ text, isSpace c = true := by
  constructor
  · rintro ⟨tail, hreads, htail⟩
    obtain rfl := Reads.nil_iff.mp hreads
    exact htail
  · intro h
    exact ⟨text, .nil text, h⟩

theorem tokenizes_cons_iff {text : List Char} {t : Token} {ts : List Token} :
    Tokenizes text (t :: ts) ↔
      ∃ rest, Starts (text.dropWhile isSpace) t rest ∧ Tokenizes rest ts := by
  constructor
  · rintro ⟨tail, hreads, htail⟩
    obtain ⟨rest, first, others⟩ := Reads.cons_iff.mp hreads
    exact ⟨rest, first, tail, others, htail⟩
  · rintro ⟨rest, first, tail, others, htail⟩
    exact ⟨tail, .cons first others, htail⟩

namespace Tokenizes

variable {text rest : List Char} {t : Token} {ts us : List Token}

/-- A token that a text starts with is the first of its tokens. -/
theorem exists_cons (h : Tokenizes text ts) (first : Starts (text.dropWhile isSpace) t rest) :
    ∃ us, ts = t :: us ∧ Tokenizes rest us := by
  cases ts with
  | nil => exact absurd first (not_starts_of_spaces (tokenizes_nil_iff.mp h))
  | cons u us =>
      obtain ⟨rest', first', hus⟩ := tokenizes_cons_iff.mp h
      obtain ⟨rfl, rfl⟩ := first.unique first'
      exact ⟨us, rfl, hus⟩

theorem unique (h : Tokenizes text ts) (h' : Tokenizes text us) : ts = us := by
  induction ts generalizing text us with
  | nil =>
      cases us with
      | nil => rfl
      | cons u us =>
          obtain ⟨rest, first, -⟩ := tokenizes_cons_iff.mp h'
          exact absurd first (not_starts_of_spaces (tokenizes_nil_iff.mp h))
  | cons t ts ih =>
      obtain ⟨rest, first, hts⟩ := tokenizes_cons_iff.mp h
      obtain ⟨us, rfl, hus⟩ := h'.exists_cons first
      rw [ih hts hus]

end Tokenizes

end PredicateLanguage
