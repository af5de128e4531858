import PredicateLanguage.Proofs.Spelling

/-!
# Texts that begin alike

Which tokens a text is cut into depends on its beginning only: where the text goes on behind some
tokens can be exchanged, as long as the last word does not become longer.  So a text that breaks
off behind some tokens can be continued with any others.
-/

namespace PredicateLanguage

variable {text before rest rest' : List Char} {t : Token} {ts us : List Token}

/-! ## Another rest -/

theorem Token.endsBefore_of_head (t : Token) (h : rest.head?.any isWord = false) :
    t.EndsBefore rest := by
  cases t with
  | word text => exact h
  | quoted value => trivial
  | mark s => trivial

/-- A token stays the same before a rest that does not lengthen a word. -/
theorem Starts.exchange (h : Starts text t rest)
    (hword : rest'.head?.any isWord = true → rest.head?.any isWord = true) :
    Starts (t.spelling ++ rest') t rest' := by
  refine ⟨rfl, h.proper, ?_⟩
  cases t with
  | word text =>
      have hend : rest.head?.any isWord = false := h.ends
      apply Bool.eq_false_iff.mpr
      intro hhead
      rw [hword hhead] at hend
      contradiction
  | quoted value => trivial
  | mark s => trivial

/-- What stands in front of the rest is cut in the same way before another rest. -/
theorem Reads.exists_front (h : Reads text ts rest) :
    ∃ front, text = front ++ rest ∧
      ∀ rest', (rest'.head?.any isWord = true → rest.head?.any isWord = true) →
        Reads (front ++ rest') ts rest' := by
  induction h with
  | nil text => exact ⟨[], rfl, fun rest' _ => .nil rest'⟩
  | @cons text behind rest t ts first _ ih =>
      obtain ⟨front, rfl, hfront⟩ := ih
      refine ⟨text.takeWhile isSpace ++ (t.spelling ++ front), ?_, ?_⟩
      · rw [List.append_assoc, List.append_assoc, ← first.eq, List.takeWhile_append_dropWhile]
      · intro rest' hword
        have hstarts : Starts (t.spelling ++ (front ++ rest')) t (front ++ rest') := by
          refine first.exchange ?_
          cases front with
          | nil => exact hword
          | cons c front => exact id
        have hspaces : ∀ c ∈ text.takeWhile isSpace, isSpace c = true :=
          fun c => List.mem_takeWhile_imp
        refine Reads.cons_iff.mpr ⟨front ++ rest', ?_, hfront rest' hword⟩
        rw [List.append_assoc, List.append_assoc, List.dropWhile_append_of_pos hspaces,
          hstarts.dropWhile_isSpace]
        exact hstarts

/-- Behind some tokens and the spaces that follow them, a text may go on in another way. -/
theorem Reads.exchange (h : Reads (before ++ rest.dropWhile isSpace) ts rest)
    (hword : text.head?.any isWord = true → (rest.dropWhile isSpace).head?.any isWord = true) :
    Reads (before ++ text) ts (rest.takeWhile isSpace ++ text) := by
  obtain ⟨front, hfront, hreads⟩ := h.exists_front
  have hrest : rest.takeWhile isSpace ++ rest.dropWhile isSpace = rest :=
    List.takeWhile_append_dropWhile
  have hbefore : before = front ++ rest.takeWhile isSpace := by
    have heq : before ++ rest.dropWhile isSpace =
        front ++ rest.takeWhile isSpace ++ rest.dropWhile isSpace := by
      rw [List.append_assoc, hrest]
      exact hfront
    exact List.append_cancel_right heq
  rw [hbefore, List.append_assoc]
  apply hreads
  cases hspaces : rest.takeWhile isSpace with
  | nil =>
      rw [hspaces, List.nil_append] at hrest
      rw [← hrest]
      exact hword
  | cons c spaces =>
      intro hhead
      have hc : isSpace c = true := by
        apply List.mem_takeWhile_imp (l := rest)
        rw [hspaces]
        exact List.mem_cons_self
      have hword : isWord c = true := hhead
      rw [isWord_of_isSpace hc] at hword
      contradiction

/-- A text may go on in another way behind the next token. -/
theorem Reads.exchange_next {tail tail' : List Char}
    (h : Reads (before ++ rest.dropWhile isSpace) ts rest)
    (ht : Starts (rest.dropWhile isSpace) t tail) (ht' : Starts (t.spelling ++ tail') t tail') :
    Reads (before ++ (t.spelling ++ tail')) (ts ++ [t]) tail' := by
  have hne := t.spelling_ne_nil ht.proper
  have hfront : Reads (before ++ (t.spelling ++ tail')) ts
      (rest.takeWhile isSpace ++ (t.spelling ++ tail')) := by
    apply h.exchange
    rw [ht.eq, List.head?_append_of_ne_nil _ hne, List.head?_append_of_ne_nil _ hne]
    exact id
  refine hfront.append (.cons ?_ (.nil tail'))
  rw [List.dropWhile_append_of_pos fun c => List.mem_takeWhile_imp, ht'.dropWhile_isSpace]
  exact ht'

/-! ## Putting texts together -/

namespace Tokenizes

theorem prepend (h : Reads text ts rest) (h' : Tokenizes rest us) :
    Tokenizes text (ts ++ us) := by
  obtain ⟨tail, hreads, htail⟩ := h'
  exact ⟨tail, h.append hreads, htail⟩

theorem behind_spaces {spaces : List Char} (hspaces : ∀ c ∈ spaces, isSpace c = true)
    (h : Tokenizes text ts) : Tokenizes (spaces ++ text) ts := by
  obtain ⟨tail, hreads, htail⟩ := h
  cases hreads with
  | nil =>
      refine ⟨spaces ++ text, .nil _, fun c hc => ?_⟩
      rcases List.mem_append.mp hc with hc | hc
      · exact hspaces c hc
      · exact htail c hc
  | cons first others =>
      refine ⟨tail, .cons ?_ others, htail⟩
      rw [List.dropWhile_append_of_pos hspaces]
      exact first

/-- A text may be continued where its last word does not become longer. -/
theorem append (h : Tokenizes text ts) (hhead : rest.head?.any isWord = false)
    (h' : Tokenizes rest us) : Tokenizes (text ++ rest) (ts ++ us) := by
  obtain ⟨tail, hreads, htail⟩ := h
  obtain ⟨front, rfl, hfront⟩ := hreads.exists_front
  have hreads' : Reads (front ++ (tail ++ rest)) ts (tail ++ rest) := by
    apply hfront
    intro hword
    cases tail with
    | nil =>
        rw [List.nil_append, hhead] at hword
        exact absurd hword Bool.false_ne_true
    | cons c tail => exact hword
  rw [List.append_assoc]
  exact .prepend hreads' (h'.behind_spaces htail)

/-- What can be read from a text is the first of its tokens. -/
theorem exists_append (h : Tokenizes text ts) (hreads : Reads text us rest) :
    ∃ vs, ts = us ++ vs := by
  induction hreads generalizing ts with
  | nil => exact ⟨ts, rfl⟩
  | cons first _ ih =>
      obtain ⟨vs, rfl, hvs⟩ := h.exists_cons first
      obtain ⟨ws, rfl⟩ := ih hvs
      exact ⟨ws, rfl⟩

end Tokenizes

/-- A text that breaks off behind some tokens and spaces is cut into these tokens. -/
theorem Reads.tokenizes_before (h : Reads (before ++ rest.dropWhile isSpace) ts rest) :
    Tokenizes before ts := by
  have hfront : Reads (before ++ []) ts (rest.takeWhile isSpace ++ []) := h.exchange nofun
  rw [List.append_nil, List.append_nil] at hfront
  exact ⟨_, hfront, fun c => List.mem_takeWhile_imp⟩

/-- A text of some tokens, with a space before each of them. -/
def spaced : List Token → List Char
  | [] => []
  | t :: ts => ' ' :: (t.spelling ++ spaced ts)

theorem head_spaced (ts : List Token) : (spaced ts).head?.any isWord = false := by
  cases ts <;> rfl

theorem tokenizes_spaced (h : ∀ t ∈ ts, t.Proper) : Tokenizes (spaced ts) ts := by
  induction ts with
  | nil => exact ⟨[], .nil [], by simp⟩
  | cons t ts ih =>
      have hstarts : Starts (t.spelling ++ spaced ts) t (spaced ts) :=
        ⟨rfl, h t List.mem_cons_self, t.endsBefore_of_head (head_spaced ts)⟩
      have hfirst : Reads (spaced (t :: ts)) [t] (spaced ts) := by
        refine .cons ?_ (.nil _)
        have hspace : (spaced (t :: ts)).dropWhile isSpace =
            (t.spelling ++ spaced ts).dropWhile isSpace := rfl
        rw [hspace, hstarts.dropWhile_isSpace]
        exact hstarts
      exact .prepend hfirst (ih fun u hu => h u (List.mem_cons_of_mem t hu))

end PredicateLanguage
