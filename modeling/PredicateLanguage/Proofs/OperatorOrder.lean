import PredicateLanguage.Proofs.Reaching

/-!
# Operators in any order

Behind a term the grammar asks for one operator after the other.  At most one of them stands there,
so in any order the same one is found.  What depends on the order is only how often the place of the
operator is marked as missing before it is found.  Such a mark is hidden by anything that is missing
further on, and a chain always marks where it ends or breaks off.  So an expression is the same rule
in every order, marks included.
-/

namespace PredicateLanguage

variable {α β : Type}

/-- Of two places that are not behind a third, the one with fewer bytes ahead is further on. -/
theorem Cursor.le_of_left_le {b c d : Cursor} (hc : b ≤ c) (hd : b ≤ d) (h : d.left ≤ c.left) :
    c ≤ d := by
  rcases List.suffix_or_suffix_of_suffix hc hd with hback | hforth
  · obtain rfl : d = c := eq_of_le_of_left_le hback h
    exact le_refl d
  · exact hforth

/-- A token ends behind the spaces in front of it. -/
theorem Next.skipSpaces_le {c d : Cursor} {t : Token} (h : Next c t d) : c.skipSpaces ≤ d := by
  rw [Cursor.le_def, Cursor.rest_skipSpaces, h.eq]
  exact List.suffix_append _ _

theorem Symbol.token_injective {s s' : Symbol} (h : s.token = s'.token) : s = s' := by
  apply text_injective
  apply String.toList_inj.mp
  rw [← spelling_token, ← spelling_token, h]

namespace Grammar

open Rule

/-- A mark is hidden by one at the same place or further on. -/
theorem missingNext_append {m : Marks} {c e : Cursor} (hmiss : m.miss = some e)
    (hle : c.skipSpaces ≤ e) : missingNext c ++ m = m := by
  refine Marks.ext ?_ (Nat.zero_max m.levels)
  rw [Marks.miss_append, hmiss]
  exact congrArg some (Cursor.later_of_le hle)

/-- Asks for a token that does not come next. -/
def askInVain : Rule Unit where
  run c := ⟨some ((), c), missingNext c⟩
  run_from c := ⟨by rintro x d ⟨⟩; exact Cursor.le_refl c, missingNext_from c⟩

end Grammar

namespace Rule

open Grammar

/-! ## Rules up to a mark where they end -/

/-- The rule, with a question behind it for a token that does not come next.  Rules that are alike
in this form differ only in marks that such a question hides. -/
def settled (r : Rule α) : Rule α := do
  let x ← r
  askInVain
  return x

section Settled

variable {r s : Rule α} {c d : Cursor} {x : α}

theorem run_settled_of_matches (h : r.Matches c x d) :
    r.settled.run c = ⟨some (x, d), (r.run c).marks ++ missingNext d⟩ := by
  rw [settled, run_bind, h.run_eq]
  have hlast : ((askInVain >>= fun _ => pure x : Rule α).run d).marks = missingNext d :=
    Marks.append_empty (missingNext d)
  exact Attempt.ext rfl (congrArg ((r.run c).marks ++ ·) hlast)

theorem run_settled_of_fails (h : r.Fails c) : r.settled.run c = r.run c := by
  rw [settled, run_bind, h.run_eq]

theorem outcome_settled (r : Rule α) (c : Cursor) :
    (r.settled.run c).outcome = (r.run c).outcome := by
  rcases r.matches_or_fails c with ⟨x, d, h⟩ | h
  · rw [run_settled_of_matches h, h.run_eq]
  · rw [run_settled_of_fails h]

theorem settled_bind (r : Rule α) (next : α → Rule β) :
    (r >>= next).settled = r >>= fun x => (next x).settled := by
  rw [settled, bind_assoc]
  rfl

theorem settled_map (f : α → β) (r : Rule α) : (f <$> r).settled = f <$> r.settled := by
  simp [settled]

theorem settled_orElse (r s : Rule α) : (r <|> s).settled = (r.settled <|> s.settled) := by
  ext1 c
  rw [run_orElse]
  rcases r.matches_or_fails c with ⟨x, d, h⟩ | h
  · have horElse : (r <|> s).Matches c x d := matches_orElse.mpr (Or.inl h)
    rw [run_settled_of_matches h, run_settled_of_matches horElse, run_orElse, h.run_eq]
  · rw [run_settled_of_fails h, h.run_eq]
    rcases s.matches_or_fails c with ⟨x, d, hs⟩ | hs
    · have horElse : (r <|> s).Matches c x d := matches_orElse.mpr (Or.inr ⟨h, hs⟩)
      rw [run_settled_of_matches hs, run_settled_of_matches horElse, run_orElse, h.run_eq]
      exact Attempt.ext rfl (Marks.append_assoc _ _ _)
    · have horElse : (r <|> s).Fails c := fails_orElse.mpr ⟨h, hs⟩
      rw [run_settled_of_fails hs, run_settled_of_fails horElse, run_orElse, h.run_eq]

/-- What is marked where the rule is tried, or in front of it, is hidden by the question or by what
is missing where the rule fails. -/
theorem missingNext_append_settled (hr : ∀ limit, r.OrderlyAt limit c) (hle : d.skipSpaces ≤ c) :
    missingNext d ++ (r.settled.run c).marks = (r.settled.run c).marks := by
  have hmiss : r.settled.missAt c ≠ none := by
    rcases r.matches_or_fails c with ⟨x, e, h⟩ | h
    · rw [missAt, run_settled_of_matches h]
      exact Marks.laterMiss_ne_none (Or.inr (Option.some_ne_none _))
    · rw [missAt, run_settled_of_fails h]
      exact (hr _).loud h (Nat.le_refl _)
  obtain ⟨e, he⟩ := Option.ne_none_iff_exists'.mp hmiss
  exact missingNext_append he (Cursor.le_trans hle (le_of_missAt he))

end Settled

/-! ## Rules that always mark something -/

/-- Wherever the rule is tried, it marks the place of the next token or one further on. -/
def Insists (r : Rule α) : Prop :=
  ∀ c, ∃ e, r.missAt c = some e ∧ c.skipSpaces ≤ e

namespace Insists

variable {r : Rule α}

theorem missingNext_append (hr : r.Insists) (c : Cursor) :
    missingNext c ++ (r.run c).marks = (r.run c).marks := by
  obtain ⟨e, he, hle⟩ := hr c
  exact Grammar.missingNext_append he hle

theorem bind (hr : r.Insists) (next : α → Rule β) : (r >>= next).Insists := by
  intro c
  obtain ⟨e, he, hle⟩ := hr c
  rcases r.matches_or_fails c with ⟨x, d, h⟩ | h
  · obtain ⟨f, hf, hleft⟩ := Marks.exists_laterMiss_left e ((next x).missAt d)
    rw [← he, ← missAt_bind_of_matches h] at hf
    refine ⟨f, hf, Cursor.le_of_left_le (Cursor.le_skipSpaces c) (le_of_missAt hf) ?_⟩
    exact le_trans hleft (Cursor.left_le_of_le hle)
  · exact ⟨e, by rw [missAt_bind_of_fails h, he], hle⟩

end Insists

end Rule

namespace Grammar

open Rule

theorem run_if_eat_of_next {s : Symbol} {r r' : Rule α} {c d : Cursor} (h : Next c s.token d) :
    (eat s >>= fun found => if found = true then r else r').run c = r.run d := by
  rw [run_bind, run_eat_of_some (Symbol.take?_eq_some_iff.mpr h)]
  exact Attempt.ext rfl (Marks.empty_append _)

theorem run_if_eat_of_none {s : Symbol} {r r' : Rule α} {c : Cursor} (h : s.take? c = none) :
    (eat s >>= fun found => if found = true then r else r').run c =
      (r'.run c).after (missingNext c) := by
  rw [run_bind, run_eat_of_none h]
  rfl

theorem insists_eatAll (s : Symbol) : (eatAll s).Insists := by
  intro c
  have h : (eatAll s).Matches c (s.takeAll c).1 (s.takeAll c).2 := rfl
  exact ⟨_, missAt_eatAll h, Cursor.skipSpaces_mono h.le⟩

/-! ## Chains hide marks at the end of their operands -/

section Chain

variable {operator : Symbol} {join : Predicate → Predicate → Predicate}
  {operand operand' : Rule Predicate}

theorem insists_chain (h : operand.Insists) : (chain operator join operand).Insists := by
  rw [chain_eq]
  exact h.bind _

/-- What follows an operand of a chain. -/
def chainTail (operator : Symbol) (join : Predicate → Predicate → Predicate)
    (operand : Rule Predicate) (p : Predicate) : Rule Predicate := do
  if ← eat operator then
    join p <$> chain operator join operand
  else
    return p

theorem insists_chainTail (h : operand.Insists) (p : Predicate) :
    (chainTail operator join operand p).Insists := by
  intro d
  rw [missAt, chainTail]
  cases htake : operator.take? d with
  | none =>
      rw [run_if_eat_of_none htake]
      exact ⟨d.skipSpaces, rfl, Cursor.le_refl _⟩
  | some e =>
      have hnext := Symbol.take?_eq_some_iff.mp htake
      have hchain : (chain operator join operand).Insists := insists_chain h
      obtain ⟨f, hf, hle⟩ := hchain e
      rw [run_if_eat_of_next hnext]
      refine ⟨f, ?_, Cursor.le_trans (Cursor.skipSpaces_mono hnext.le) hle⟩
      exact (missAt_map (join p) _ e).trans hf

theorem chain_eq_settled (h : operand.Insists) :
    chain operator join operand = operand.settled >>= chainTail operator join operand := by
  have heq : chain operator join operand = operand >>= chainTail operator join operand :=
    chain_eq operator join operand
  rw [heq]
  ext1 c
  rw [run_bind, run_bind]
  rcases operand.matches_or_fails c with ⟨p, d, hp⟩ | hf
  · rw [run_settled_of_matches hp, hp.run_eq]
    refine Attempt.ext rfl ?_
    change _ ++ _ = _ ++ missingNext d ++ _
    rw [Marks.append_assoc, (insists_chainTail h p).missingNext_append]
  · rw [run_settled_of_fails hf]

theorem run_chainTail_congr {p : Predicate} {d : Cursor}
    (h : ∀ e, Next d operator.token e →
      (chain operator join operand).run e = (chain operator join operand').run e) :
    (chainTail operator join operand p).run d = (chainTail operator join operand' p).run d := by
  rw [chainTail, chainTail]
  cases htake : operator.take? d with
  | none => rw [run_if_eat_of_none htake, run_if_eat_of_none htake]
  | some e =>
      have hnext := Symbol.take?_eq_some_iff.mp htake
      rw [run_if_eat_of_next hnext, run_if_eat_of_next hnext, run_map, run_map, h e hnext]

/-- Operands that differ only in what a question behind them hides make the same chain. -/
theorem chain_congr (heq : operand.settled = operand'.settled) (h : operand.Insists)
    (h' : operand'.Insists) : chain operator join operand = chain operator join operand' := by
  ext1 c
  induction hn : c.left using Nat.strongRecOn generalizing c with
  | ind n ih =>
      rw [chain_eq_settled h, chain_eq_settled h', ← heq, run_bind, run_bind]
      rcases operand.matches_or_fails c with ⟨p, d, hp⟩ | hf
      · have htail : (chainTail operator join operand p).run d =
            (chainTail operator join operand' p).run d := by
          refine run_chainTail_congr fun e hnext => ?_
          exact ih e.left (hn ▸ left_lt_of_item hp hnext) e rfl
        rw [run_settled_of_matches hp]
        dsimp only
        rw [htail]
      · rw [run_settled_of_fails hf, hf.run_eq]

end Chain

/-! ## Operators -/

/-- The operators that may stand behind a term. -/
inductive Operator where
  | equal
  | notEqual
  | member
  | notMember
  deriving DecidableEq

namespace Operator

/-- The operators in the order in which the grammar tries them. -/
def all : List Operator :=
  [equal, notEqual, member, notMember]

/-- The symbol that tells the operator from the others. -/
def symbol : Operator → Symbol
  | equal => .equal
  | notEqual => .notEqual
  | member => .member
  | notMember => .not

/-- Reads what has to stand behind that symbol. -/
def rightSide (left : Term) : Operator → Rule Predicate
  | equal => return .equal left (← term)
  | notEqual => return .notEqual left (← term)
  | member => return .oneOf left (← set)
  | notMember => do
    expect .member
    return .noneOf left (← set)

theorem mem_all (o : Operator) : o ∈ all := by
  cases o <;> decide

theorem symbol_injective {o o' : Operator} (h : o.symbol = o'.symbol) : o = o' := by
  revert h
  cases o <;> cases o' <;> decide

theorem orderly_rightSide (o : Operator) (left : Term) (limit : Nat) (c : Cursor) :
    (o.rightSide left).OrderlyAt limit c := by
  cases o with
  | equal => exact (orderly_term limit c).bind fun right d _ => .pure _ limit d
  | notEqual => exact (orderly_term limit c).bind fun right d _ => .pure _ limit d
  | member => exact (orderly_set limit c).bind fun members d _ => .pure _ limit d
  | notMember =>
      refine (orderly_expect _ limit c).bind fun _ d _ => ?_
      exact (orderly_set limit d).bind fun members e _ => .pure _ limit e

end Operator

/-- Tries operators one after the other.  Without any of them the term stands alone. -/
def operationBy (left : Term) : List Operator → Rule Predicate
  | [] => return .present left
  | o :: order => do
    if ← eat o.symbol then
      o.rightSide left
    else
      operationBy left order

/-- Reads a comparison whose operators are tried in an order. -/
def comparisonBy (order : List Operator) : Rule Predicate := do
  let left ← term
  operationBy left order

theorem comparisonBy_all : comparisonBy Operator.all = comparison := rfl

section Orders

variable {order : List Operator} {left : Term} {c d e : Cursor}

theorem settled_operationBy_cons (left : Term) (o : Operator) (order : List Operator) :
    (operationBy left (o :: order)).settled = eat o.symbol >>= fun found =>
      if found = true then (o.rightSide left).settled else (operationBy left order).settled := by
  rw [operationBy, settled_bind]
  congr 1
  funext found
  cases found with
  | true => rfl
  | false => rfl

/-- Where an operator comes next, it is found in any order in which it occurs. -/
theorem run_settled_operationBy_of_next {o : Operator} (ho : o ∈ order)
    (hnext : Next d o.symbol.token e) :
    (operationBy left order).settled.run d = (o.rightSide left).settled.run e := by
  induction order with
  | nil => contradiction
  | cons first order ih =>
      rw [settled_operationBy_cons]
      by_cases heq : first = o
      · subst heq
        exact run_if_eat_of_next hnext
      · have hother : first.symbol.take? d = none := by
          refine Symbol.take?_eq_none_of_next hnext fun htoken => heq ?_
          exact (Operator.symbol_injective (Symbol.token_injective htoken)).symm
        have hlater := ih ((List.mem_cons.mp ho).resolve_left fun h => heq h.symm)
        rw [run_if_eat_of_none hother, hlater]
        -- the place at which the first operator is missing lies in front of the one that is found
        refine Attempt.ext rfl ?_
        exact missingNext_append_settled (fun limit => o.orderly_rightSide left limit e)
          hnext.skipSpaces_le

/-- Where no operator comes next, a term stands alone and the place of an operator is missing. -/
theorem run_settled_operationBy_of_none (h : ∀ o : Operator, o.symbol.take? d = none) :
    (operationBy left order).settled.run d = ⟨some (.present left, d), missingNext d⟩ := by
  induction order with
  | nil =>
      have halone : (operationBy left []).Matches d (.present left) d :=
        matches_pure.mpr ⟨rfl, rfl⟩
      rw [run_settled_of_matches halone]
      exact Attempt.ext rfl (Marks.empty_append _)
  | cons o order ih =>
      rw [settled_operationBy_cons, run_if_eat_of_none (h o), ih]
      exact Attempt.ext rfl (missingNext_append rfl (Cursor.le_refl _))

theorem settled_comparisonBy (horder : ∀ o, o ∈ order) :
    (comparisonBy order).settled = comparison.settled := by
  rw [← comparisonBy_all, comparisonBy, comparisonBy, settled_bind, settled_bind]
  congr 1
  funext left
  ext1 d
  by_cases h : ∃ o : Operator, ∃ e, Next d o.symbol.token e
  · obtain ⟨o, e, hnext⟩ := h
    rw [run_settled_operationBy_of_next (horder o) hnext,
      run_settled_operationBy_of_next o.mem_all hnext]
  · have hnone : ∀ o : Operator, o.symbol.take? d = none := fun o =>
      Symbol.take?_eq_none_iff.mpr fun e hnext => h ⟨o, e, hnext⟩
    rw [run_settled_operationBy_of_none hnone, run_settled_operationBy_of_none hnone]

/-- Whatever the order, a comparison is read alike and ends at the same place. -/
theorem outcome_comparisonBy (horder : ∀ o, o ∈ order) (c : Cursor) :
    ((comparisonBy order).run c).outcome = (comparison.run c).outcome := by
  rw [← outcome_settled, settled_comparisonBy horder, outcome_settled]

/-! ## Expressions -/

/-- Reads like a negation, with the operators of comparisons tried in an order. -/
def negationBy (order : List Operator) (inner : Rule Predicate) : Rule Predicate := do
  let nots ← eatAll .not
  let p ← comparisonBy order <|> group inner
  return if nots % 2 = 1 then .not p else p

def conjunctionBy (order : List Operator) (inner : Rule Predicate) : Rule Predicate :=
  chain .and .and (negationBy order inner)

def disjunctionBy (order : List Operator) (inner : Rule Predicate) : Rule Predicate :=
  chain .or .or (conjunctionBy order inner)

/-- Reads an expression whose operators are tried in an order. -/
def expressionBy (order : List Operator) : Nat → Rule Predicate
  | 0 => disjunctionBy order failure
  | limit + 1 => disjunctionBy order (expressionBy order limit)

theorem negationBy_all (inner : Rule Predicate) :
    negationBy Operator.all inner = negation inner := rfl

theorem insists_negationBy (order : List Operator) (inner : Rule Predicate) :
    (negationBy order inner).Insists :=
  (insists_eatAll .not).bind _

theorem settled_negationBy (horder : ∀ o, o ∈ order) (inner : Rule Predicate) :
    (negationBy order inner).settled = (negation inner).settled := by
  rw [negationBy, negation, settled_bind, settled_bind]
  congr 1
  funext nots
  rw [bind_pure_comp, bind_pure_comp, settled_map, settled_map, settled_orElse, settled_orElse,
    settled_comparisonBy horder]

theorem disjunctionBy_eq (horder : ∀ o, o ∈ order) (inner : Rule Predicate) :
    disjunctionBy order inner = disjunction inner := by
  have hinsists : (negation inner).Insists := by
    rw [← negationBy_all]
    exact insists_negationBy Operator.all inner
  have hconjunction : conjunctionBy order inner = conjunction inner :=
    chain_congr (settled_negationBy horder inner) (insists_negationBy order inner) hinsists
  rw [disjunctionBy, hconjunction, disjunction]

/-- In whatever order the operators are tried, expressions are read by the same rule. -/
theorem expressionBy_eq (horder : ∀ o, o ∈ order) (limit : Nat) :
    expressionBy order limit = expression limit := by
  induction limit with
  | zero => exact disjunctionBy_eq horder failure
  | succ limit ih =>
      rw [expressionBy, ih, expression_succ]
      exact disjunctionBy_eq horder (expression limit)

end Orders

end Grammar

end PredicateLanguage
