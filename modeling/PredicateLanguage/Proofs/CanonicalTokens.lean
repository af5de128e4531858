import PredicateLanguage.Predicate.Canonical
import PredicateLanguage.Proofs.Derivations

/-!
# The tokens of canonical texts

The canonical text of a predicate is made of its canonical tokens.  If the predicate is well
formed, the grammar derives it from them, in every layer whose operands are written without
parentheses.  Conversely, whatever is derived from proper tokens is well formed.
-/

namespace PredicateLanguage

/-! ## Canonical tokens -/

/-- The token that a term is written as. -/
def Term.token : Term → Token
  | literal value => .quoted value
  | var name => .word name

/-- The tokens that a set is written as. -/
def StringSet.tokens (set : StringSet) : List Token :=
  Symbol.openBrace.token ::
    ((set.members.map Token.quoted).intersperse Symbol.comma.token ++
      [Symbol.closeBrace.token])

/-- Tokens with parentheses around them if they have to be grouped. -/
def groupedTokens (grouped : Bool) (ts : List Token) : List Token :=
  if grouped then Symbol.openParen.token :: (ts ++ [Symbol.closeParen.token]) else ts

/-- The nesting of something that may have to be grouped. -/
def groupedDepth (grouped : Bool) (depth : Nat) : Nat :=
  if grouped then depth + 1 else depth

namespace Predicate

/-- The tokens that a predicate is written as. -/
def tokens : Predicate → List Token
  | equal left right => [left.token, Symbol.equal.token, right.token]
  | notEqual left right => [left.token, Symbol.notEqual.token, right.token]
  | oneOf term set => term.token :: Symbol.member.token :: set.tokens
  | noneOf term set => term.token :: Symbol.not.token :: Symbol.member.token :: set.tokens
  | present term => [term.token]
  | not operand => Symbol.not.token :: groupedTokens operand.groupedUnderNot operand.tokens
  | and left right =>
    groupedTokens left.groupedLeftOfAnd left.tokens ++
      Symbol.and.token :: groupedTokens right.isOr right.tokens
  | or left right => groupedTokens left.isOr left.tokens ++ Symbol.or.token :: right.tokens

/-- How deep the parentheses nest that a predicate is written with. -/
def depth : Predicate → Nat
  | not operand => groupedDepth operand.groupedUnderNot operand.depth
  | and left right =>
    max (groupedDepth left.groupedLeftOfAnd left.depth) (groupedDepth right.isOr right.depth)
  | or left right => max (groupedDepth left.isOr left.depth) right.depth
  | _ => 0

end Predicate

/-! ## Well-formed predicates -/

/-- A name is a letter with word characters behind it, and a literal holds no quote. -/
def Term.WellFormed : Term → Prop
  | literal value => Grammar.quote ∉ value.toList
  | var name =>
    name.toList.head?.any Char.isAlpha = true ∧ ∀ c ∈ name.toList, isWord c = true

/-- No member holds a quote. -/
def StringSet.WellFormed (set : StringSet) : Prop :=
  ∀ value ∈ set, Grammar.quote ∉ value.toList

/-- A first term of a comparison is well formed and not the name `not`. -/
def Term.Leads (term : Term) : Prop :=
  term.WellFormed ∧ term ≠ .var "not"

/-- All terms and sets are well formed, and no comparison starts with the name `not`. -/
def Predicate.WellFormed : Predicate → Prop
  | equal left right | notEqual left right => left.Leads ∧ right.WellFormed
  | oneOf term set | noneOf term set => term.Leads ∧ set.WellFormed
  | present term => term.Leads
  | not operand => operand.WellFormed
  | and left right | or left right => left.WellFormed ∧ right.WellFormed

instance Term.decidableWellFormed (term : Term) : Decidable term.WellFormed :=
  match term with
  | literal value => inferInstanceAs (Decidable (Grammar.quote ∉ value.toList))
  | var name =>
    decidable_of_iff
      (name.toList.head?.any Char.isAlpha = true ∧ name.toList.all isWord = true)
      (and_congr Iff.rfl List.all_eq_true)

instance StringSet.decidableWellFormed (set : StringSet) : Decidable set.WellFormed :=
  List.decidableBAll (fun value : String => Grammar.quote ∉ value.toList) set.members

instance Term.decidableLeads (term : Term) : Decidable term.Leads :=
  inferInstanceAs (Decidable (term.WellFormed ∧ term ≠ .var "not"))

instance Predicate.decidableWellFormed : (p : Predicate) → Decidable p.WellFormed
  | equal left right | notEqual left right =>
    inferInstanceAs (Decidable (left.Leads ∧ right.WellFormed))
  | oneOf term set | noneOf term set =>
    inferInstanceAs (Decidable (term.Leads ∧ set.WellFormed))
  | present term => inferInstanceAs (Decidable term.Leads)
  | not operand => operand.decidableWellFormed
  | and left right | or left right =>
    have := left.decidableWellFormed
    have := right.decidableWellFormed
    inferInstanceAs (Decidable (left.WellFormed ∧ right.WellFormed))

/-! ## Canonical tokens are derived -/

theorem Term.term?_token {term : Term} (h : term.WellFormed) : term.token.term? = some term := by
  cases term with
  | literal value => rfl
  | var name => exact if_pos h.1

theorem Term.head_token_ne_not {term : Term} (h : term.Leads) (ts : List Token) :
    (term.token :: ts).head? ≠ some Symbol.not.token := by
  intro hhead
  have htoken : term.token = .word "not" := Option.some.inj hhead
  cases term with
  | literal value => contradiction
  | var name =>
      obtain rfl : name = "not" := Token.word.inj htoken
      exact h.2 rfl

/-- Tokens of elements with commas between them and braces around them. -/
def setTokens (elements : List Token) : List Token :=
  Symbol.openBrace.token ::
    (elements.intersperse Symbol.comma.token ++ [Symbol.closeBrace.token])

theorem derivesElements_intersperse {t : Token} {value : String} {ts : List Token}
    {values : List String} (ht : t.element? = some value)
    (hts : ts.map Token.element? = values.map some) :
    DerivesElements (value :: values) ((t :: ts).intersperse Symbol.comma.token) := by
  induction ts generalizing t value values with
  | nil =>
      obtain rfl := List.map_eq_nil_iff.mp hts.symm
      exact .last ht
  | cons u ts ih =>
      obtain ⟨other, others, rfl, hu, hothers⟩ := List.map_eq_cons_iff.mp hts.symm
      exact .more ht (ih hu.symm hothers.symm)

/-- A set is derived from tokens with its members as values, bare or quoted and in any order. -/
theorem derivesSet_setTokens {elements : List Token} {values : List String}
    (h : elements.map Token.element? = values.map some) :
    DerivesSet (.ofList values) (setTokens elements) := by
  cases elements with
  | nil =>
      obtain rfl := List.map_eq_nil_iff.mp h.symm
      exact .empty
  | cons t ts =>
      obtain ⟨value, values, rfl, ht, hts⟩ := List.map_eq_cons_iff.mp h.symm
      exact .elements (derivesElements_intersperse ht.symm hts.symm)

theorem StringSet.ofList_members (set : StringSet) : StringSet.ofList set.members = set := by
  ext value
  rw [StringSet.mem_ofList, StringSet.mem_def]

theorem StringSet.derives_tokens (set : StringSet) : DerivesSet set set.tokens := by
  have hvalues : (set.members.map Token.quoted).map Token.element? = set.members.map some :=
    List.map_map
  have h := derivesSet_setTokens hvalues
  rwa [set.ofList_members] at h

namespace Predicate

variable {p : Predicate}

/-- A well-formed comparison is derived from its tokens, and these do not start with `not`. -/
theorem derivesComparison_tokens (h : p.WellFormed) (hp : p.isComparison = true) :
    DerivesComparison p p.tokens ∧ p.tokens.head? ≠ some Symbol.not.token := by
  cases p with
  | equal left right =>
      have hleft := Term.term?_token h.1.1
      exact ⟨.equal hleft (Term.term?_token h.2), Term.head_token_ne_not h.1 _⟩
  | notEqual left right =>
      have hleft := Term.term?_token h.1.1
      exact ⟨.notEqual hleft (Term.term?_token h.2), Term.head_token_ne_not h.1 _⟩
  | oneOf term set =>
      have hterm := Term.term?_token h.1.1
      exact ⟨.oneOf hterm set.derives_tokens, Term.head_token_ne_not h.1 _⟩
  | noneOf term set =>
      have hterm := Term.term?_token h.1.1
      exact ⟨.noneOf hterm set.derives_tokens, Term.head_token_ne_not h.1 _⟩
  | present term => exact ⟨.present (Term.term?_token h.1), Term.head_token_ne_not h _⟩
  | not operand => contradiction
  | and left right => contradiction
  | or left right => contradiction

end Predicate

/-- Which predicates are put in parentheses where the layer is expected. -/
def Layer.groups : Layer → Predicate → Bool
  | disjunction, _ => false
  | conjunction, p => p.isOr
  | negation, p => p.groupedLeftOfAnd

namespace Derives

variable {layer : Layer} {p : Predicate} {ts : List Token}

/-- Negations are part of every layer. -/
theorem lift (h : Derives .negation p ts) (layer : Layer) : Derives layer p ts := by
  cases layer with
  | disjunction => exact .conjunction (.negation h)
  | conjunction => exact .negation h
  | negation => exact h

/-- An operand is derived in any layer if it is put in parentheses where it has to be. -/
theorem operand (h : ∀ layer, Layer.groups layer p = false → Derives layer p ts)
    (layer : Layer) : Derives layer p (groupedTokens (layer.groups p) ts) := by
  cases hgroups : layer.groups p with
  | false => exact h layer hgroups
  | true => exact (Derives.group 0 (h .disjunction rfl)).lift layer

end Derives

namespace Predicate

variable {p : Predicate}

/-- The grammar derives a well-formed predicate from its tokens in every layer that expects
it without parentheses. -/
theorem derives_tokens (h : p.WellFormed) {layer : Layer} (hlayer : layer.groups p = false) :
    Derives layer p p.tokens := by
  induction p generalizing layer with
  | not operand ih =>
      have hoperand : operand.WellFormed := h
      refine Derives.lift ?_ layer
      cases hgrouped : operand.groupedUnderNot with
      | false =>
          have hcomparison : operand.isComparison = true := by
            simpa [groupedUnderNot] using hgrouped
          obtain ⟨hderives, hfirst⟩ := derivesComparison_tokens hoperand hcomparison
          rw [tokens, hgrouped]
          exact .comparison 1 hderives hfirst
      | true =>
          rw [tokens, hgrouped]
          exact .group 1 (ih hoperand rfl)
  | and left right ihl ihr =>
      have hleft := Derives.operand (fun _ => ihl h.1) .negation
      have hright := Derives.operand (fun _ => ihr h.2) .conjunction
      have hand : Derives .conjunction (left.and right) (left.and right).tokens :=
        .and hleft hright
      cases layer with
      | disjunction => exact .conjunction hand
      | conjunction => exact hand
      | negation => contradiction
  | or left right ihl ihr =>
      have hleft := Derives.operand (fun _ => ihl h.1) .conjunction
      have hright := @ihr h.2 .disjunction rfl
      cases layer with
      | disjunction => exact .or hleft hright
      | conjunction => contradiction
      | negation => contradiction
  | _ =>
      obtain ⟨hderives, hfirst⟩ := derivesComparison_tokens h rfl
      exact (Derives.comparison 0 hderives hfirst).lift layer

end Predicate

/-! ## What is derived is well formed -/

/-- What a proper token stands for holds no quote. -/
theorem Token.Proper.quote_not_mem {t : Token} {value : String} (ht : t.Proper)
    (h : t.element? = some value) : Grammar.quote ∉ value.toList := by
  cases t with
  | word text =>
      obtain rfl : text = value := Option.some.inj h
      intro hquote
      have hword := ht.2 _ hquote
      contradiction
  | quoted text =>
      obtain rfl : text = value := Option.some.inj h
      exact ht
  | mark s => contradiction

theorem Token.Proper.wellFormed {t : Token} {x : Term} (ht : t.Proper)
    (h : t.term? = some x) : x.WellFormed := by
  cases t with
  | word text =>
      rw [term?] at h
      split at h
      · obtain rfl := Option.some.inj h
        exact ⟨‹_›, ht.2⟩
      · obtain rfl := Option.some.inj h
        exact Token.Proper.quote_not_mem ht rfl
  | quoted text =>
      obtain rfl := Option.some.inj h
      exact ht
  | mark s => contradiction

/-- The name `not` is derived from the word only. -/
theorem Token.Proper.leads {t : Token} {x : Term} (ht : t.Proper) (h : t.term? = some x)
    (hne : t ≠ Symbol.not.token) : x.Leads := by
  refine ⟨ht.wellFormed h, ?_⟩
  rintro rfl
  cases t with
  | word text =>
      rw [term?] at h
      split at h
      · obtain rfl : text = "not" := Term.var.inj (Option.some.inj h)
        exact hne rfl
      · have hterm := Option.some.inj h
        contradiction
  | quoted text =>
      have hterm := Option.some.inj h
      contradiction
  | mark s => contradiction

theorem DerivesElements.quote_not_mem {values : List String} {ts : List Token}
    (h : DerivesElements values ts) (hproper : ∀ t ∈ ts, t.Proper) :
    ∀ value ∈ values, Grammar.quote ∉ value.toList := by
  induction h with
  | last h =>
      intro value hvalue
      obtain rfl := List.mem_singleton.mp hvalue
      exact (hproper _ List.mem_cons_self).quote_not_mem h
  | more h _ ih =>
      intro value hvalue
      rcases List.mem_cons.mp hvalue with rfl | hvalue
      · exact (hproper _ List.mem_cons_self).quote_not_mem h
      · refine ih (fun t ht => hproper t ?_) value hvalue
        exact List.mem_cons_of_mem _ (List.mem_cons_of_mem _ ht)

theorem DerivesSet.wellFormed {set : StringSet} {ts : List Token} (h : DerivesSet set ts)
    (hproper : ∀ t ∈ ts, t.Proper) : set.WellFormed := by
  cases h with
  | empty =>
      intro value hvalue
      exact absurd hvalue (StringSet.not_mem_empty value)
  | elements h =>
      intro value hvalue
      refine h.quote_not_mem (fun t ht => hproper t ?_) value (StringSet.mem_ofList.mp hvalue)
      exact List.mem_cons_of_mem _ (List.mem_append_left _ ht)

theorem DerivesComparison.wellFormed {p : Predicate} {ts : List Token}
    (h : DerivesComparison p ts) (hfirst : ts.head? ≠ some Symbol.not.token)
    (hproper : ∀ t ∈ ts, t.Proper) : p.WellFormed := by
  cases h with
  | @present t x h => exact (hproper t (by simp)).leads h fun ht => hfirst (congrArg some ht)
  | @equal t u x y left right =>
      have hx := (hproper t (by simp)).leads left fun ht => hfirst (congrArg some ht)
      exact ⟨hx, (hproper u (by simp)).wellFormed right⟩
  | @notEqual t u x y left right =>
      have hx := (hproper t (by simp)).leads left fun ht => hfirst (congrArg some ht)
      exact ⟨hx, (hproper u (by simp)).wellFormed right⟩
  | @oneOf t x set us left right =>
      have hx := (hproper t (by simp)).leads left fun ht => hfirst (congrArg some ht)
      exact ⟨hx, right.wellFormed fun u hu => hproper u (by simp [hu])⟩
  | @noneOf t x set us left right =>
      have hx := (hproper t (by simp)).leads left fun ht => hfirst (congrArg some ht)
      exact ⟨hx, right.wellFormed fun u hu => hproper u (by simp [hu])⟩

@[simp] theorem Predicate.wellFormed_negated {nots : Nat} {p : Predicate} :
    (p.negated nots).WellFormed ↔ p.WellFormed := by
  rw [negated]
  split
  · exact Iff.rfl
  · exact Iff.rfl

/-- Only well-formed predicates are derived from proper tokens. -/
theorem Derives.wellFormed {layer : Layer} {p : Predicate} {ts : List Token}
    (h : Derives layer p ts) (hproper : ∀ t ∈ ts, t.Proper) : p.WellFormed := by
  induction h with
  | comparison nots h hfirst =>
      rw [Predicate.wellFormed_negated]
      exact h.wellFormed hfirst fun t ht => hproper t (List.mem_append_right _ ht)
  | group nots _ ih =>
      rw [Predicate.wellFormed_negated]
      refine ih fun t ht => hproper t (List.mem_append_right _ ?_)
      exact List.mem_cons_of_mem _ (List.mem_append_left _ ht)
  | negation _ ih => exact ih hproper
  | conjunction _ ih => exact ih hproper
  | and _ _ ihl ihr =>
      refine ⟨ihl fun t ht => hproper t (List.mem_append_left _ ht), ihr fun t ht => ?_⟩
      exact hproper t (List.mem_append_right _ (List.mem_cons_of_mem _ ht))
  | or _ _ ihl ihr =>
      refine ⟨ihl fun t ht => hproper t (List.mem_append_left _ ht), ihr fun t ht => ?_⟩
      exact hproper t (List.mem_append_right _ (List.mem_cons_of_mem _ ht))

end PredicateLanguage
