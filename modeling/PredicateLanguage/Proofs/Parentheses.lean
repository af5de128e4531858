import PredicateLanguage.Proofs.Derivations

/-!
# Parentheses of a text

How deep the parentheses of a text nest can be told from its characters: one goes through the
text, passes over what stands between quotes and keeps count of the parentheses that are open.
For a text that is cut into tokens this is the nesting of its tokens.
-/

namespace PredicateLanguage

/-- The greatest depth in parentheses on the way through a text that is entered between quotes
or outside of them. -/
def deepestIn (quoted : Bool) (depth : Nat) : List Char → Nat
  | [] => depth
  | c :: cs =>
      if c = Grammar.quote then deepestIn (!quoted) depth cs
      else if quoted then deepestIn true depth cs
      else if c = '(' then max depth (deepestIn false (depth + 1) cs)
      else if c = ')' then max depth (deepestIn false (depth - 1) cs)
      else deepestIn false depth cs

/-- How deep the parentheses of a text nest outside quotes. -/
def parenthesisDepth (text : String) : Nat :=
  deepestIn false 0 text.toList

/-- A character that is neither a quote nor a parenthesis. -/
def IsNeutral (c : Char) : Prop :=
  c ≠ Grammar.quote ∧ c ≠ '(' ∧ c ≠ ')'

instance (c : Char) : Decidable (IsNeutral c) :=
  inferInstanceAs (Decidable (c ≠ Grammar.quote ∧ c ≠ '(' ∧ c ≠ ')'))

variable {c : Char} {depth : Nat} {cs text rest tail : List Char} {t : Token} {ts : List Token}

theorem le_deepestIn (quoted : Bool) (depth : Nat) (cs : List Char) :
    depth ≤ deepestIn quoted depth cs := by
  induction cs generalizing quoted with
  | nil => exact Nat.le_refl depth
  | cons c cs ih =>
      rw [deepestIn]
      split
      · exact ih _
      · split
        · exact ih _
        · split
          · exact Nat.le_max_left _ _
          · split
            · exact Nat.le_max_left _ _
            · exact ih _

/-! ## Characters that do not count -/

/-- The characters of a class to which neither quotes nor parentheses belong. -/
theorem IsNeutral.of_class {p : Char → Bool}
    (hp : p Grammar.quote = false ∧ p '(' = false ∧ p ')' = false) (h : p c = true) :
    IsNeutral c := by
  obtain ⟨hquote, hopen, hclose⟩ := hp
  refine ⟨?_, ?_, ?_⟩
  · rintro rfl
    exact absurd h (Bool.not_eq_true _ ▸ hquote)
  · rintro rfl
    exact absurd h (Bool.not_eq_true _ ▸ hopen)
  · rintro rfl
    exact absurd h (Bool.not_eq_true _ ▸ hclose)

theorem isNeutral_of_isWord (h : isWord c = true) : IsNeutral c :=
  .of_class (by decide) h

theorem isNeutral_of_isSpace (h : isSpace c = true) : IsNeutral c :=
  .of_class (by decide) h

theorem deepestIn_neutral (h : ∀ c ∈ cs, IsNeutral c) (depth : Nat) (rest : List Char) :
    deepestIn false depth (cs ++ rest) = deepestIn false depth rest := by
  induction cs with
  | nil => rfl
  | cons c cs ih =>
      obtain ⟨hquote, hopen, hclose⟩ := h c List.mem_cons_self
      rw [List.cons_append, deepestIn, if_neg hquote, if_neg Bool.false_ne_true, if_neg hopen,
        if_neg hclose]
      exact ih fun d hd => h d (List.mem_cons_of_mem c hd)

theorem deepestIn_dropWhile_isSpace (text : List Char) :
    deepestIn false depth (text.dropWhile isSpace) = deepestIn false depth text := by
  have hspaces : ∀ c ∈ text.takeWhile isSpace, IsNeutral c :=
    fun c hc => isNeutral_of_isSpace (List.mem_takeWhile_imp hc)
  conv => rhs; rw [← List.takeWhile_append_dropWhile (p := isSpace) (l := text)]
  exact (deepestIn_neutral hspaces depth _).symm

/-- From inside quotes one goes on behind the quote that closes them. -/
theorem deepestIn_quoted (h : Grammar.quote ∉ cs) (depth : Nat) (rest : List Char) :
    deepestIn true depth (cs ++ Grammar.quote :: rest) = deepestIn false depth rest := by
  induction cs with
  | nil =>
      rw [List.nil_append, deepestIn, if_pos rfl]
      rfl
  | cons c cs ih =>
      obtain ⟨hc, hcs⟩ := not_or.mp (List.mem_cons.not.mp h)
      rw [List.cons_append, deepestIn, if_neg (Ne.symm hc), if_pos rfl]
      exact ih hcs

/-! ## Tokens -/

theorem isNeutral_of_mem_text {s : Symbol} (hopen : s ≠ .openParen) (hclose : s ≠ .closeParen)
    (hc : c ∈ s.text.toList) : IsNeutral c := by
  have hall : s.text.toList.all (fun c => decide (IsNeutral c)) = true := by
    cases s with
    | openParen | closeParen => contradiction
    | and | or | not | member | equal | notEqual | comma | openBrace | closeBrace => decide
  exact of_decide_eq_true (List.all_eq_true.mp hall c hc)

theorem deepestIn_mark (s : Symbol) :
    deepestIn false depth (s.text.toList ++ rest) =
      max depth (deepestIn false (Token.depthAfter depth (.mark s)) rest) := by
  by_cases hopen : s = .openParen
  · rw [hopen]
    rfl
  · by_cases hclose : s = .closeParen
    · rw [hclose]
      rfl
    · have hneutral : ∀ c ∈ s.text.toList, IsNeutral c :=
        fun c hc => isNeutral_of_mem_text hopen hclose hc
      rw [deepestIn_neutral hneutral, Token.depthAfter,
        Nat.max_eq_right (le_deepestIn false depth rest)]
      · exact fun h => hopen (Token.mark.inj h)
      · exact fun h => hclose (Token.mark.inj h)

/-- A token leads from one depth to another, by the characters as by the tokens. -/
theorem Starts.deepestIn_eq (h : Starts text t rest) :
    deepestIn false depth text = max depth (deepestIn false (t.depthAfter depth) rest) := by
  have hle := le_deepestIn false depth rest
  rw [h.eq]
  cases t with
  | word w =>
      have hword : ∀ c ∈ w.toList, IsNeutral c := fun c hc => isNeutral_of_isWord (h.proper.2 c hc)
      exact (deepestIn_neutral hword depth rest).trans (Nat.max_eq_right hle).symm
  | quoted value =>
      rw [Token.spelling, List.append_assoc, List.cons_append, deepestIn, if_pos rfl]
      exact (deepestIn_quoted h.proper depth rest).trans (Nat.max_eq_right hle).symm
  | mark s => exact deepestIn_mark s

theorem Reads.deepestIn_eq (h : Reads text ts tail) (htail : ∀ c ∈ tail, isSpace c = true) :
    deepestIn false depth text = deepestFrom depth ts := by
  induction h generalizing depth with
  | nil text =>
      have hspaces : ∀ c ∈ text, IsNeutral c := fun c hc => isNeutral_of_isSpace (htail c hc)
      have hdeepest := deepestIn_neutral hspaces depth []
      rwa [List.append_nil] at hdeepest
  | cons first _ ih =>
      rw [← deepestIn_dropWhile_isSpace, first.deepestIn_eq, ih htail, deepestFrom]

/-- The parentheses of a text nest as deep as those of its tokens. -/
theorem Tokenizes.parenthesisDepth_eq {text : String} (h : Tokenizes text.toList ts) :
    parenthesisDepth text = nesting ts := by
  obtain ⟨tail, hreads, htail⟩ := h
  exact hreads.deepestIn_eq htail

end PredicateLanguage
