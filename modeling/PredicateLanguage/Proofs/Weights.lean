import Mathlib.Data.List.Count
import Mathlib.Order.MinMax
import PredicateLanguage.Proofs.CanonicalTokens

/-!
# How much the parentheses of a predicate weigh

The parentheses among some tokens can be counted, and it can be told how deep they nest.  Both are
weights: a group adds one to what stands inside of it, and the weights of joined operands are
combined, by their sum or by the greater of them.  Whatever the weight is, no tokens that a
predicate is derived from weigh less than its canonical tokens.
-/

namespace PredicateLanguage

variable {combine : Nat → Nat → Nat} {size size' : List Token → Nat} {layer : Layer}
  {p : Predicate} {t : Token} {ts us : List Token}

/-! ## Weights -/

/-- What the parentheses weigh that a predicate is written with. -/
def Predicate.weight (combine : Nat → Nat → Nat) : Predicate → Nat
  | not operand => groupedDepth operand.groupedUnderNot (operand.weight combine)
  | and left right =>
    combine (groupedDepth left.groupedLeftOfAnd (left.weight combine))
      (groupedDepth right.isOr (right.weight combine))
  | or left right =>
    combine (groupedDepth left.isOr (left.weight combine)) (right.weight combine)
  | _ => 0

theorem Predicate.weight_max (p : Predicate) : p.weight max = p.depth := by
  induction p with
  | not operand ih => rw [weight, depth, ih]
  | and left right ihl ihr => rw [weight, depth, ihl, ihr]
  | or left right ihl ihr => rw [weight, depth, ihl, ihr]
  | _ => rfl

/-- The size of tokens is a weight of the parentheses among them. -/
structure Weighs (combine : Nat → Nat → Nat) (size : List Token → Nat) : Prop where
  mono : ∀ {m m' n n'}, m ≤ m' → n ≤ n' → combine m n ≤ combine m' n'
  level : ∀ {ts}, Level ts → size ts = 0
  behind_not : ∀ ts, size (Symbol.not.token :: ts) = size ts
  group : ∀ {layer p ts}, Derives layer p ts →
    size (Symbol.openParen.token :: (ts ++ [Symbol.closeParen.token])) = size ts + 1
  joined : ∀ {operator join lower upper}, Joins operator join lower upper → ∀ {p q ts us},
    Derives lower p ts → Derives upper q us →
      size (ts ++ operator.token :: us) = combine (size ts) (size us)

theorem weighs_nesting : Weighs max nesting where
  mono := max_le_max
  level h := h.nests.nesting_eq
  behind_not _ := Nat.zero_max _
  group h := h.nests.group.nesting_eq
  joined hjoins := hjoins.nesting_eq

/-- A token that leaves the depth as it is is no parenthesis. -/
theorem ne_token_of_depthAfter {s : Symbol} (hs : s = .openParen ∨ s = .closeParen)
    (ht : ∀ depth, t.depthAfter depth = depth) : t ≠ s.token := by
  rintro rfl
  rcases hs with rfl | rfl
  · have hopen : 0 + 1 = 0 := ht 0
    contradiction
  · have hclose : 1 - 1 = 1 := ht 1
    contradiction

/-- Parentheses of either kind weigh what their number is. -/
theorem weighs_count {s : Symbol} (hs : s = .openParen ∨ s = .closeParen) :
    Weighs (· + ·) (List.count s.token) where
  mono := Nat.add_le_add
  level h := List.count_eq_zero.mpr fun hmem => ne_token_of_depthAfter hs (h _ hmem) rfl
  behind_not _ := List.count_cons_of_ne (ne_token_of_depthAfter hs fun _ => rfl)
  group _ := by
    rcases hs with rfl | rfl
    · rw [List.count_cons_self, List.count_append, List.count_singleton, if_neg (by decide),
        Nat.add_zero]
    · rw [List.count_cons_of_ne (by decide), List.count_append, List.count_singleton_self]
  joined hjoins _ _ _ _ _ _ := by
    rw [List.count_append, List.count_cons_of_ne (ne_token_of_depthAfter hs hjoins.depthAfter)]

namespace Weighs

theorem behind_nots (hweighs : Weighs combine size) (nots : Nat) (ts : List Token) :
    size (List.replicate nots Symbol.not.token ++ ts) = size ts := by
  induction nots with
  | zero => rfl
  | succ nots ih =>
      rw [List.replicate_succ, List.cons_append, hweighs.behind_not]
      exact ih

/-- Two sizes that combine in the same way agree on everything that is derived. -/
theorem unique (hweighs : Weighs combine size) (hweighs' : Weighs combine size')
    (h : Derives layer p ts) : size ts = size' ts := by
  induction h with
  | comparison nots h _ =>
      rw [hweighs.behind_nots, hweighs'.behind_nots, hweighs.level h.level,
        hweighs'.level h.level]
  | group nots h ih =>
      rw [hweighs.behind_nots, hweighs'.behind_nots, hweighs.group h, hweighs'.group h, ih]
  | negation _ ih => exact ih
  | conjunction _ ih => exact ih
  | and left right ihl ihr =>
      rw [hweighs.joined joins_and left right, hweighs'.joined joins_and left right, ihl, ihr]
  | or left right ihl ihr =>
      rw [hweighs.joined joins_or left right, hweighs'.joined joins_or left right, ihl, ihr]

/-! ## Canonical tokens -/

theorem grouped (hweighs : Weighs combine size) (h : Derives .disjunction p ts)
    (grouped : Bool) : size (groupedTokens grouped ts) = groupedDepth grouped (size ts) := by
  cases grouped with
  | false => rfl
  | true => exact hweighs.group h

theorem joined_operands {operator : Symbol} {join : Predicate → Predicate → Predicate}
    {lower upper : Layer} {q : Predicate} (hweighs : Weighs combine size)
    (hjoins : Joins operator join lower upper) (hp : p.WellFormed) (hq : q.WellFormed) :
    size (groupedTokens (lower.groups p) p.tokens ++
        operator.token :: groupedTokens (upper.groups q) q.tokens) =
      combine (groupedDepth (lower.groups p) (size p.tokens))
        (groupedDepth (upper.groups q) (size q.tokens)) := by
  have hleft := Derives.operand (fun _ => Predicate.derives_tokens hp) lower
  have hright := Derives.operand (fun _ => Predicate.derives_tokens hq) upper
  rw [hweighs.joined hjoins hleft hright, hweighs.grouped (Predicate.derives_tokens hp rfl),
    hweighs.grouped (Predicate.derives_tokens hq rfl)]

/-- Canonical tokens weigh what the predicate says. -/
theorem size_tokens (hweighs : Weighs combine size) (h : p.WellFormed) :
    size p.tokens = p.weight combine := by
  induction p with
  | not operand ih =>
      have hoperand : operand.WellFormed := h
      rw [Predicate.tokens, Predicate.weight, hweighs.behind_not,
        hweighs.grouped (Predicate.derives_tokens hoperand rfl), ih hoperand]
  | and left right ihl ihr =>
      rw [Predicate.weight, ← ihl h.1, ← ihr h.2]
      exact hweighs.joined_operands joins_and h.1 h.2
  | or left right ihl ihr =>
      rw [Predicate.weight, ← ihl h.1, ← ihr h.2]
      exact hweighs.joined_operands joins_or h.1 h.2
  | _ => exact hweighs.level (Predicate.derivesComparison_tokens h rfl).1.level

end Weighs

theorem Predicate.nesting_tokens (h : p.WellFormed) : nesting p.tokens = p.depth :=
  (weighs_nesting.size_tokens h).trans p.weight_max

/-! ## Canonical tokens weigh least -/

theorem groupedDepth_le_succ (grouped : Bool) (depth : Nat) :
    groupedDepth grouped depth ≤ depth + 1 := by
  cases grouped with
  | false => exact Nat.le_succ depth
  | true => exact Nat.le_refl _

theorem le_groupedDepth (grouped : Bool) (depth : Nat) : depth ≤ groupedDepth grouped depth := by
  cases grouped with
  | false => exact Nat.le_refl depth
  | true => exact Nat.le_succ depth

/-- Wherever parentheses are written right of `and`, they would be written left of it. -/
theorem groupedDepth_isOr_le (p : Predicate) (depth : Nat) :
    groupedDepth p.isOr depth ≤ groupedDepth p.groupedLeftOfAnd depth := by
  cases p with
  | or left right => exact Nat.le_refl _
  | _ => exact le_groupedDepth _ _

/-- Whatever a predicate is derived from weighs at least as much as its parentheses, those around
it included where the layer does not take it without.  Only a group can stand there then, and the
group pays for them. -/
theorem Weighs.weight_le (hweighs : Weighs combine size) (h : Derives layer p ts) :
    groupedDepth (layer.groups p) (p.weight combine) ≤ size ts := by
  induction h with
  | @comparison nots p ts h _ =>
      have hweight : groupedDepth (Layer.negation.groups (p.negated nots))
          ((p.negated nots).weight combine) = 0 := by
        rw [Predicate.negated]
        cases h <;> split <;> rfl
      rw [hweight]
      exact Nat.zero_le _
  | @group nots p ts h ih =>
      have hp : p.weight combine ≤ size ts := ih
      rw [hweighs.behind_nots, hweighs.group h, Predicate.negated]
      split
      · have hnot := groupedDepth_le_succ p.groupedUnderNot (p.weight combine)
        exact le_trans hnot (Nat.succ_le_succ hp)
      · exact le_trans (groupedDepth_le_succ _ (p.weight combine)) (Nat.succ_le_succ hp)
  | @negation p ts _ ih => exact le_trans (groupedDepth_isOr_le p (p.weight combine)) ih
  | @conjunction p ts _ ih => exact le_trans (le_groupedDepth p.isOr (p.weight combine)) ih
  | and left right ihl ihr =>
      rw [hweighs.joined joins_and left right]
      exact hweighs.mono ihl ihr
  | or left right ihl ihr =>
      rw [hweighs.joined joins_or left right]
      exact hweighs.mono ihl ihr

theorem Derives.depth_le_nesting (h : Derives .disjunction p ts) : p.depth ≤ nesting ts := by
  rw [← p.weight_max]
  exact weighs_nesting.weight_le h

end PredicateLanguage
