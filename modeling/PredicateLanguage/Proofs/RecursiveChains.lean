import PredicateLanguage.Proofs.ParserStates

/-!
# Chains in the way of the grammar

The grammar says that a chain is an operand, or an operand, the operator and a chain.  Chains are
read in a loop that collects the operands and joins them at the end.  Here the grammar is followed
as it is written, by a recursion that joins on its way back and goes back to its start wherever
something fails.  Both leave the same state behind, whatever they read and wherever they fail.
-/

namespace PredicateLanguage

open Grammar Rule

namespace RuleState

variable {σ : Type} [RuleState σ] {operator : Symbol}
  {join : Predicate → Predicate → Predicate} {operand : Rule Predicate} {s t u : σ} {p : Predicate}

/-- What follows an operand and an operator is shorter. -/
theorem left_lt_of_read {x : Option Predicate} (hoperand : read s operand = (x, t))
    (hoperator : read t (eat operator) = (some true, u)) : (cursor u).left < (cursor s).left := by
  have hle : (cursor t).left ≤ (cursor s).left := Cursor.left_le_of_le (cursor_le_of_read hoperand)
  cases hd : operator.take? (cursor t) with
  | none =>
      rw [read_eat_of_none hd] at hoperator
      simp at hoperator
  | some d =>
      rw [read_eat_of_some hd] at hoperator
      obtain rfl := (Prod.mk.inj hoperator).2
      rw [cursor_moveTo]
      exact lt_of_lt_of_le (Symbol.left_lt_of_take? hd) hle

/-- Reads an operand and, if the operator follows, a chain, to which the operand is joined. -/
def readChain (operator : Symbol) (join : Predicate → Predicate → Predicate)
    (operand : Rule Predicate) (s : σ) : Option Predicate × σ :=
  match _hoperand : read s operand with
  | (none, t) => (none, moveTo t (cursor s))
  | (some p, t) =>
    match _hoperator : read t (eat operator) with
    | (some true, u) =>
      match readChain operator join operand u with
      | (none, v) => (none, moveTo v (cursor s))
      | (some q, v) => (some (join p q), v)
    | (_, u) => (some p, u)
termination_by (cursor s).left
decreasing_by exact left_lt_of_read _hoperand _hoperator

theorem readChain_eq (operator : Symbol) (join : Predicate → Predicate → Predicate)
    (operand : Rule Predicate) (s : σ) :
    readChain operator join operand s =
      match read s operand with
      | (none, t) => (none, moveTo t (cursor s))
      | (some p, t) =>
        match read t (eat operator) with
        | (some true, u) =>
          match readChain operator join operand u with
          | (none, v) => (none, moveTo v (cursor s))
          | (some q, v) => (some (join p q), v)
        | (_, u) => (some p, u) := by
  fun_cases readChain operator join operand s <;> simp [*]

/-- The loop over operands changes the state as the recursion does. -/
theorem read_chain (operator : Symbol) (join : Predicate → Predicate → Predicate)
    (operand : Rule Predicate) (s : σ) :
    read s (chain operator join operand) = readChain operator join operand s := by
  induction hn : (cursor s).left using Nat.strongRecOn generalizing s with
  | ind n ih =>
      rw [chain_eq, read_bind, readChain_eq]
      cases hoperand : read s operand with
      | mk result t =>
          cases result with
          | none =>
              dsimp only
              rw [← cursor_eq_of_missed hoperand, moveTo_cursor]
          | some p =>
              dsimp only
              rw [read_bind]
              cases hd : operator.take? (cursor t) with
              | none =>
                  rw [read_eat_of_none hd]
                  dsimp only
                  rw [if_neg Bool.false_ne_true, read_pure]
                  rfl
              | some d =>
                  have hoperator := read_eat_of_some hd
                  have hlt : (cursor (moveTo t d)).left < n :=
                    hn ▸ left_lt_of_read hoperand hoperator
                  rw [hoperator]
                  dsimp only
                  rw [if_pos rfl, read_map, ih _ hlt _ rfl]
                  cases readChain operator join operand (moveTo t d) with
                  | mk result v =>
                      cases result with
                      | none => exact Prod.ext rfl (moveTo_moveTo v _ _)
                      | some q => rfl

/-! ## Chains that break off -/

/-- Operands with the operator behind each of them lead from one state to another. -/
inductive LeadsBy (operator : Symbol) (operand : Rule Predicate) : σ → σ → Prop
  | refl (s : σ) : LeadsBy operator operand s s
  | step {s t u v : σ} {p : Predicate} (hoperand : read s operand = (some p, t))
      (hoperator : read t (eat operator) = (some true, u)) (others : LeadsBy operator operand u v) :
      LeadsBy operator operand s v

theorem LeadsBy.of_read (hoperand : (read s operand).1 = some p)
    (hoperator : (read (read s operand).2 (eat operator)).1 = some true) :
    LeadsBy operator operand s (read (read s operand).2 (eat operator)).2 :=
  .step (Prod.ext hoperand rfl) (Prod.ext hoperator rfl) (.refl _)

/-- Where an operand is missing, the whole chain in front of it is given up. -/
theorem read_chain_of_missed (h : LeadsBy operator operand s t)
    (hmissed : (read t operand).1 = none) :
    read s (chain operator join operand) = (none, moveTo (read t operand).2 (cursor s)) := by
  rw [read_chain]
  induction h with
  | refl s =>
      rw [readChain_eq]
      cases hoperand : read s operand with
      | mk result t =>
          rw [hoperand] at hmissed
          obtain rfl : result = none := hmissed
          rfl
  | step hoperand hoperator _ ih =>
      rw [readChain_eq, hoperand]
      dsimp only
      rw [hoperator]
      dsimp only
      rw [ih hmissed]
      exact Prod.ext rfl (moveTo_moveTo _ _ _)

end RuleState

namespace ParserState

open RuleState

/-- Chains of `or` and of `and` are read as the recursion reads them, with the same state left
behind.  Where an operand is missing behind an operator, or in front of all operators, nothing is
read and reading goes on where the chain began. -/
theorem read_chains_recursively (s : ParserState) :
    read s (disjunction s.inner) = readChain .or .or (conjunction s.inner) s ∧
      read s (conjunction s.inner) = readChain .and .and (negation s.inner) s ∧
      (∀ t, LeadsBy .or (conjunction s.inner) s t → (read t (conjunction s.inner)).1 = none →
        read s (disjunction s.inner) =
          (none, (read t (conjunction s.inner)).2.moveTo s.cursor)) ∧
      ∀ t, LeadsBy .and (negation s.inner) s t → (read t (negation s.inner)).1 = none →
        read s (conjunction s.inner) =
          (none, (read t (negation s.inner)).2.moveTo s.cursor) := by
  refine ⟨read_chain _ _ _ s, read_chain _ _ _ s, ?_, ?_⟩
  · intro t hleads hmissed
    exact read_chain_of_missed hleads hmissed
  · intro t hleads hmissed
    exact read_chain_of_missed hleads hmissed

/-- Inside a group, a dangling `and` gives up the chain of `and`, and this chain gives up the
chain of `or` that it is an operand of. -/
theorem read_chains_recursively_dangling :
    let s : ParserState := ⟨.start "a or b and )".toList, .start "a or b and )".toList, 1, 1, false⟩
    let t := (read (read s (conjunction s.inner)).2 (eat .or)).2
    let u := (read (read t (negation t.inner)).2 (eat .and)).2
    LeadsBy .and (negation t.inner) t u ∧ (read u (negation t.inner)).1 = none ∧
      read t (conjunction t.inner) = (none, (read u (negation t.inner)).2.moveTo t.cursor) ∧
      LeadsBy .or (conjunction s.inner) s t ∧ (read t (conjunction s.inner)).1 = none ∧
      read s (disjunction s.inner) = (none, (read t (conjunction s.inner)).2.moveTo s.cursor) := by
  intro s t u
  have hand : LeadsBy .and (negation t.inner) t u :=
    .of_read (p := .present (.var "b")) (by decide +kernel) (by decide +kernel)
  have hor : LeadsBy .or (conjunction s.inner) s t :=
    .of_read (p := .present (.var "a")) (by decide +kernel) (by decide +kernel)
  have hu : (read u (negation t.inner)).1 = none := by decide +kernel
  have ht : (read t (conjunction s.inner)).1 = none := by decide +kernel
  exact ⟨hand, hu, (read_chains_recursively t).2.2.2 u hand hu, hor, ht,
    (read_chains_recursively s).2.2.1 t hor ht⟩

end ParserState

end PredicateLanguage
