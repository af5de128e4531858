import Mathlib.Data.List.Basic
import PredicateLanguage.Predicate.Basic
import PredicateLanguage.Proofs.Tokens

/-!
# The grammar over tokens

Which lists of tokens are predicates, and of which trees, is said here by derivations:

```text
disjunction := conjunction ("or" conjunction)*
conjunction := negation ("and" negation)*
negation    := "not"* (comparison | "(" disjunction ")")
comparison  := term ("==" term | "!=" term | "in" set | "not" "in" set)?
set         := "{" (element ("," element)*)? "}"
```

A comparison behind `not` does not start with the word `not` itself.  No word is reserved:
a keyword that stands for a term is a name.  Chains are derived operand by operand, so
that they group to the right.
-/

namespace PredicateLanguage

/-! ## Terms and sets -/

/-- What a token is as a term: a word that starts with a letter is a variable, any other
word and any quoted text is a literal. -/
def Token.term? : Token → Option Term
  | word text =>
      if text.toList.head?.any Char.isAlpha = true then some (.var text)
      else some (.literal text)
  | quoted value => some (.literal value)
  | mark _ => none

/-- What a token is as an element of a set, where words stand for themselves. -/
def Token.element? : Token → Option String
  | word text => some text
  | quoted value => some value
  | mark _ => none

/-- Elements of a set with commas between them. -/
inductive DerivesElements : List String → List Token → Prop
  | last {t : Token} {value : String} (h : t.element? = some value) :
      DerivesElements [value] [t]
  | more {t : Token} {value : String} {values : List String} {ts : List Token}
      (h : t.element? = some value) (others : DerivesElements values ts) :
      DerivesElements (value :: values) (t :: Symbol.comma.token :: ts)

theorem DerivesElements.exists_cons {values : List String} {ts : List Token}
    (h : DerivesElements values ts) :
    ∃ t us value, ts = t :: us ∧ t.element? = some value := by
  cases h with
  | last h => exact ⟨_, _, _, rfl, h⟩
  | more h _ => exact ⟨_, _, _, rfl, h⟩

/-- A set in braces. -/
inductive DerivesSet : StringSet → List Token → Prop
  | empty : DerivesSet ∅ [Symbol.openBrace.token, Symbol.closeBrace.token]
  | elements {values : List String} {ts : List Token} (h : DerivesElements values ts) :
      DerivesSet (.ofList values)
        (Symbol.openBrace.token :: (ts ++ [Symbol.closeBrace.token]))

/-! ## Expressions -/

/-- A term, or a comparison of a term with a term or a set. -/
inductive DerivesComparison : Predicate → List Token → Prop
  | present {t : Token} {x : Term} (h : t.term? = some x) :
      DerivesComparison (.present x) [t]
  | equal {t u : Token} {x y : Term} (left : t.term? = some x) (right : u.term? = some y) :
      DerivesComparison (.equal x y) [t, Symbol.equal.token, u]
  | notEqual {t u : Token} {x y : Term} (left : t.term? = some x)
      (right : u.term? = some y) :
      DerivesComparison (.notEqual x y) [t, Symbol.notEqual.token, u]
  | oneOf {t : Token} {x : Term} {set : StringSet} {us : List Token}
      (left : t.term? = some x) (right : DerivesSet set us) :
      DerivesComparison (.oneOf x set) (t :: Symbol.member.token :: us)
  | noneOf {t : Token} {x : Term} {set : StringSet} {us : List Token}
      (left : t.term? = some x) (right : DerivesSet set us) :
      DerivesComparison (.noneOf x set)
        (t :: Symbol.not.token :: Symbol.member.token :: us)

theorem DerivesComparison.exists_cons {p : Predicate} {ts : List Token}
    (h : DerivesComparison p ts) : ∃ t us x, ts = t :: us ∧ t.term? = some x := by
  cases h with
  | present h => exact ⟨_, _, _, rfl, h⟩
  | equal left _ => exact ⟨_, _, _, rfl, left⟩
  | notEqual left _ => exact ⟨_, _, _, rfl, left⟩
  | oneOf left _ => exact ⟨_, _, _, rfl, left⟩
  | noneOf left _ => exact ⟨_, _, _, rfl, left⟩

/-- A predicate behind a number of `not`, of which two cancel. -/
def Predicate.negated (nots : Nat) (p : Predicate) : Predicate :=
  if nots % 2 = 1 then .not p else p

/-- The layers of the grammar of expressions, from the lowest binding to the highest. -/
inductive Layer where
  | disjunction
  | conjunction
  | negation
  deriving DecidableEq

/-- The trees and tokens of each layer. -/
inductive Derives : Layer → Predicate → List Token → Prop
  | comparison (nots : Nat) {p : Predicate} {ts : List Token} (h : DerivesComparison p ts)
      (hfirst : ts.head? ≠ some Symbol.not.token) :
      Derives .negation (p.negated nots) (List.replicate nots Symbol.not.token ++ ts)
  | group (nots : Nat) {p : Predicate} {ts : List Token} (h : Derives .disjunction p ts) :
      Derives .negation (p.negated nots)
        (List.replicate nots Symbol.not.token ++
          Symbol.openParen.token :: (ts ++ [Symbol.closeParen.token]))
  | negation {p : Predicate} {ts : List Token} (h : Derives .negation p ts) :
      Derives .conjunction p ts
  | and {p q : Predicate} {ts us : List Token} (left : Derives .negation p ts)
      (right : Derives .conjunction q us) :
      Derives .conjunction (.and p q) (ts ++ Symbol.and.token :: us)
  | conjunction {p : Predicate} {ts : List Token} (h : Derives .conjunction p ts) :
      Derives .disjunction p ts
  | or {p q : Predicate} {ts us : List Token} (left : Derives .conjunction p ts)
      (right : Derives .disjunction q us) :
      Derives .disjunction (.or p q) (ts ++ Symbol.or.token :: us)

/-! ## Nesting of parentheses -/

namespace Token

/-- How deep in parentheses one is behind a token. -/
def depthAfter (depth : Nat) : Token → Nat
  | mark .openParen => depth + 1
  | mark .closeParen => depth - 1
  | _ => depth

end Token

/-- The greatest depth in parentheses on the way through some tokens. -/
def deepestFrom (depth : Nat) : List Token → Nat
  | [] => depth
  | t :: ts => max depth (deepestFrom (t.depthAfter depth) ts)

/-- How deep the parentheses among some tokens nest. -/
def nesting (ts : List Token) : Nat :=
  deepestFrom 0 ts

/-- The tokens are balanced and nest `n` levels deep: wherever they stand, they go down `n`
levels and come back. -/
def Nests (n : Nat) (ts : List Token) : Prop :=
  ∀ depth us, deepestFrom depth (ts ++ us) = max (depth + n) (deepestFrom depth us)

theorem le_deepestFrom (depth : Nat) (ts : List Token) : depth ≤ deepestFrom depth ts := by
  cases ts with
  | nil => exact Nat.le_refl depth
  | cons t ts => exact Nat.le_max_left _ _

namespace Nests

variable {m n : Nat} {t : Token} {ts us : List Token}

theorem nesting_eq (h : Nests n ts) : nesting ts = n := by
  have hself := h 0 []
  rw [List.append_nil, deepestFrom] at hself
  rw [nesting, hself]
  omega

theorem nil : Nests 0 [] := by
  intro depth us
  have hle := le_deepestFrom depth us
  rw [List.nil_append]
  omega

theorem append (hts : Nests m ts) (hus : Nests n us) : Nests (max m n) (ts ++ us) := by
  intro depth vs
  rw [List.append_assoc, hts, hus]
  omega

/-- A token that is no parenthesis leaves the depth as it is. -/
theorem cons (ht : ∀ depth, t.depthAfter depth = depth) (hts : Nests n ts) :
    Nests n (t :: ts) := by
  intro depth us
  rw [List.cons_append, deepestFrom, ht, hts]
  omega

/-- Parentheses around balanced tokens nest one level deeper. -/
theorem group (h : Nests n ts) :
    Nests (n + 1) (Symbol.openParen.token :: (ts ++ [Symbol.closeParen.token])) := by
  have hopen : ∀ depth vs, deepestFrom depth (Symbol.openParen.token :: vs) =
      max depth (deepestFrom (depth + 1) vs) := fun _ _ => rfl
  have hclose : ∀ depth vs, deepestFrom (depth + 1) (Symbol.closeParen.token :: vs) =
      max (depth + 1) (deepestFrom depth vs) := fun _ _ => rfl
  intro depth us
  rw [List.cons_append, List.append_assoc, List.singleton_append, hopen, h, hclose]
  omega

theorem behind_nots (h : Nests n ts) (nots : Nat) :
    Nests n (List.replicate nots Symbol.not.token ++ ts) := by
  induction nots with
  | zero => exact h
  | succ nots ih => exact ih.cons fun _ => rfl

end Nests

/-- A token that stands for a term is no parenthesis. -/
theorem depthAfter_of_term? {t : Token} {x : Term} (h : t.term? = some x) (depth : Nat) :
    t.depthAfter depth = depth := by
  cases t with
  | word text => rfl
  | quoted value => rfl
  | mark s => contradiction

theorem depthAfter_of_element? {t : Token} {value : String} (h : t.element? = some value)
    (depth : Nat) : t.depthAfter depth = depth := by
  cases t with
  | word text => rfl
  | quoted value => rfl
  | mark s => contradiction

/-- No parenthesis is among the tokens. -/
def Level (ts : List Token) : Prop :=
  ∀ t ∈ ts, ∀ depth, t.depthAfter depth = depth

namespace Level

variable {t : Token} {ts us : List Token}

theorem nil : Level [] := by
  intro t ht
  contradiction

theorem cons (ht : ∀ depth, t.depthAfter depth = depth) (hts : Level ts) : Level (t :: ts) :=
  List.forall_mem_cons.mpr ⟨ht, hts⟩

theorem append (hts : Level ts) (hus : Level us) : Level (ts ++ us) :=
  List.forall_mem_append.mpr ⟨hts, hus⟩

theorem nests (h : Level ts) : Nests 0 ts := by
  induction ts with
  | nil => exact .nil
  | cons t ts ih =>
      obtain ⟨ht, hts⟩ := List.forall_mem_cons.mp h
      exact (ih hts).cons ht

end Level

theorem DerivesElements.level {values : List String} {ts : List Token}
    (h : DerivesElements values ts) : Level ts := by
  induction h with
  | last h => exact Level.nil.cons (depthAfter_of_element? h)
  | more h _ ih => exact (ih.cons fun _ => rfl).cons (depthAfter_of_element? h)

theorem DerivesSet.level {set : StringSet} {ts : List Token} (h : DerivesSet set ts) :
    Level ts := by
  have hbrace : Level [Symbol.closeBrace.token] := Level.nil.cons fun _ => rfl
  cases h with
  | empty => exact hbrace.cons fun _ => rfl
  | elements h => exact (h.level.append hbrace).cons fun _ => rfl

theorem DerivesComparison.level {p : Predicate} {ts : List Token}
    (h : DerivesComparison p ts) : Level ts := by
  cases h with
  | present h => exact Level.nil.cons (depthAfter_of_term? h)
  | equal left right | notEqual left right =>
      have hright := Level.nil.cons (depthAfter_of_term? right)
      exact (hright.cons fun _ => rfl).cons (depthAfter_of_term? left)
  | oneOf left right => exact (right.level.cons fun _ => rfl).cons (depthAfter_of_term? left)
  | noneOf left right =>
      have hright : Level _ := right.level.cons (t := Symbol.member.token) fun _ => rfl
      exact (hright.cons fun _ => rfl).cons (depthAfter_of_term? left)

theorem DerivesComparison.nests {p : Predicate} {ts : List Token}
    (h : DerivesComparison p ts) : Nests 0 ts :=
  h.level.nests

/-- What the grammar derives is balanced. -/
theorem Derives.nests {layer : Layer} {p : Predicate} {ts : List Token}
    (h : Derives layer p ts) : Nests (nesting ts) ts := by
  have hsome : ∃ n, Nests n ts := by
    induction h with
    | comparison nots h _ => exact ⟨0, h.nests.behind_nots nots⟩
    | group nots _ ih =>
        obtain ⟨n, hn⟩ := ih
        exact ⟨n + 1, hn.group.behind_nots nots⟩
    | negation _ ih => exact ih
    | and _ _ ihl ihr =>
        obtain ⟨m, hm⟩ := ihl
        obtain ⟨n, hn⟩ := ihr
        exact ⟨_, hm.append (hn.cons fun _ => rfl)⟩
    | conjunction _ ih => exact ih
    | or _ _ ihl ihr =>
        obtain ⟨m, hm⟩ := ihl
        obtain ⟨n, hn⟩ := ihr
        exact ⟨_, hm.append (hn.cons fun _ => rfl)⟩
  obtain ⟨n, hn⟩ := hsome
  rw [hn.nesting_eq]
  exact hn

/-! ## Chains -/

/-- An operator joins operands of one layer to chains of another. -/
structure Joins (operator : Symbol) (join : Predicate → Predicate → Predicate)
    (operand chain : Layer) : Prop where
  depthAfter : ∀ depth, operator.token.depthAfter depth = depth
  single : ∀ {p ts}, Derives operand p ts → Derives chain p ts
  joined : ∀ {p q ts us}, Derives operand p ts → Derives chain q us →
    Derives chain (join p q) (ts ++ operator.token :: us)

theorem joins_and : Joins .and .and .negation .conjunction where
  depthAfter _ := rfl
  single := .negation
  joined := .and

theorem joins_or : Joins .or .or .conjunction .disjunction where
  depthAfter _ := rfl
  single := .conjunction
  joined := .or

/-- Joined operands nest as deep as the deeper of them. -/
theorem Joins.nesting_eq {operator : Symbol} {join : Predicate → Predicate → Predicate}
    {lower upper : Layer} (hjoins : Joins operator join lower upper) {p q : Predicate}
    {ts us : List Token} (hts : Derives lower p ts) (hus : Derives upper q us) :
    nesting (ts ++ operator.token :: us) = max (nesting ts) (nesting us) :=
  (hts.nests.append (hus.nests.cons hjoins.depthAfter)).nesting_eq

end PredicateLanguage
