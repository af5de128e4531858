import PredicateLanguage.Proofs.DescentComparisons

/-!
# Descending the layers of expressions

The layers call each other without end in sight, but a group is opened before its inside is read,
and an operator is read before the next operand.  So by induction on the bytes ahead every descent
ends, and it follows the rule of its layer with as many levels as there is room for.
-/

namespace PredicateLanguage

open Grammar Rule RuleState

namespace Grammar

theorem group_eq (inner : Rule Predicate) :
    Grammar.group inner = Grammar.eat .openParen >>= fun found => if found = true then
      (inner.deeper >>= fun p => Grammar.eat .closeParen >>= fun found =>
        if found = true then pure p else failure) else failure := by
  rw [Grammar.group, expect_bind]
  congr 1
  funext found
  congr 1
  congr 1
  funext p
  exact expect_bind _ _

/-- The operands before a chain are joined to it from the last to the first. -/
def joinAll (join : Predicate → Predicate → Predicate) (earlier : List Predicate)
    (chain : Predicate) : Predicate :=
  earlier.foldl (fun right left => join left right) chain

theorem map_chain_eq (operator : Symbol) (join : Predicate → Predicate → Predicate)
    (operand : Rule Predicate) (earlier : List Predicate) :
    joinAll join earlier <$> chain operator join operand = operand >>= fun p =>
      Grammar.eat operator >>= fun found => if found = true then
        joinAll join (p :: earlier) <$> chain operator join operand
      else pure (joinAll join earlier p) := by
  conv => lhs; rw [chain_eq]
  simp only [map_bind]
  congr 1
  funext p
  congr 1
  funext found
  cases found with
  | false => rfl
  | true =>
      rw [if_pos rfl, if_pos rfl, Functor.map_map]
      rfl

end Grammar

namespace Descend

variable {α : Type} {s t : Descent} {d : Cursor} {symbol : Symbol}

/-! ## Negations -/

theorem read_eatAll (symbol : Symbol) (s : Descent) :
    read s (eatAll symbol) =
      (some (symbol.takeAll s.cursor).1,
        moveTo (mark s (missingNext (symbol.takeAll s.cursor).2)) (symbol.takeAll s.cursor).2) :=
  rfl

theorem run_turnOver (symbol : Symbol) (flag : Bool) (s : Descent) :
    (symbol.turnOver flag).run s =
      some (flag != decide ((symbol.takeAll s.cursor).1 % 2 = 1), (read s (eatAll symbol)).2) := by
  induction hn : s.cursor.left using Nat.strongRecOn generalizing flag s with
  | ind n ih =>
      rw [Symbol.turnOver, read_eatAll, Symbol.takeAll_eq]
      cases h : symbol.take? s.cursor with
      | none =>
          rw [run_bind_of_run (run_eat_of_none h), if_neg Bool.false_ne_true]
          exact congrArg some (Prod.ext (Bool.bne_false flag).symm rfl)
      | some d =>
          have hlt : d.left < n := hn ▸ Symbol.left_lt_of_take? h
          have hodd : ∀ count : Nat, decide ((count + 1) % 2 = 1) = !decide (count % 2 = 1) := by
            intro count
            rw [← decide_not]
            exact decide_eq_decide.mpr (by omega)
          rw [run_bind_of_run (run_eat_of_some h), if_pos rfl, ih _ hlt _ (moveTo s d) rfl]
          dsimp only
          rw [hodd, Bool.not_bne, Bool.bne_not]
          rfl

/-! ## Groups -/

/-- Where another group may be opened, an expression is read in it one level deeper. -/
theorem read_deeper_of_lt (h : s.depth < s.limit) :
    read s s.inner.deeper =
      ((read s.enter (Grammar.disjunction s.enter.inner)).1,
        (read s.enter (Grammar.disjunction s.enter.inner)).2.leave) := by
  have hroom : s.room = s.enter.room + 1 := by
    change s.limit - s.depth = s.limit - (s.depth + 1) + 1
    omega
  have hinner : s.inner = Grammar.disjunction s.enter.inner := by
    rw [ParserState.inner, hroom, inside, expression_eq_disjunction]
    rfl
  have hrefused : ∀ n, decide (s.room < n + 1) = decide (s.enter.room < n) := by
    intro n
    exact decide_eq_decide.mpr (by omega)
  have hdeepest : ∀ n, max s.deepest (s.depth + min (n + 1) s.room) =
      max (max s.deepest (s.depth + 1)) (s.depth + 1 + min n s.enter.room) := by
    intro n
    omega
  rw [hinner]
  refine Prod.ext rfl (Descent.eq_of_state (ParserState.ext rfl rfl rfl rfl ?_) (hdeepest _))
  exact congrArg (s.tooDeep || ·) (hrefused _)

/-- Where no other group may be opened, a group is refused. -/
theorem read_deeper_of_not_lt (h : ¬s.depth < s.limit) :
    read s s.inner.deeper = (none, s.refuse) := by
  have hroom : s.room = 0 := Nat.sub_eq_zero_of_le (Nat.le_of_not_lt h)
  rw [ParserState.inner, hroom, inside]
  refine Prod.ext rfl (Descent.eq_of_state (ParserState.ext rfl rfl rfl rfl ?_) ?_)
  · change (s.tooDeep || decide (s.room < 1)) = true
    rw [hroom]
    exact Bool.or_true _
  · have := s.depth_le_deepest
    change max s.deepest (s.depth + min 1 s.room) = s.deepest
    rw [hroom]
    omega

/-- The layers are followed from every place behind `n` more bytes, whatever groups are open. -/
def FollowsLayers (n : Nat) : Prop :=
  ∀ (kind : Layer) (s : Descent), s.cursor.left < n →
    kind.steps.run s = some (read s (kind.rule s.inner))

theorem run_group (h : FollowsLayers s.cursor.left) :
    Layer.disjunction.grouped.run s = some (read s (Grammar.group s.inner)) := by
  rw [Layer.grouped, run_bind_of_run (run_position s), group_eq, read_bind]
  cases hopen : Symbol.openParen.take? s.cursor with
  | none =>
      rw [run_bind_of_run (run_eat_of_none hopen), read_eat_of_none hopen]
      dsimp only
      rw [if_neg Bool.false_ne_true, if_neg Bool.false_ne_true, read_failure]
      exact congrArg some (Prod.ext rfl (moveTo_mark_cursor s _).symm)
  | some d =>
      rw [run_bind_of_run (run_eat_of_some hopen), read_eat_of_some hopen]
      dsimp only
      rw [if_pos rfl, if_pos rfl, read_bind]
      have hget : StateT.run get (moveTo s d) = some (moveTo s d, moveTo s d) := rfl
      rw [run_bind_of_run hget]
      have hinner : s.inner = (moveTo s d).inner := rfl
      by_cases hroom : (moveTo s d).depth < (moveTo s d).limit
      · have hexpression := h .disjunction (moveTo s d).enter (Symbol.left_lt_of_take? hopen)
        rw [if_neg (Nat.not_le_of_lt hroom), hinner, read_deeper_of_lt hroom,
          run_bind_of_run (run_modify _ _)]
        cases hread : read (moveTo s d).enter (Grammar.disjunction (moveTo s d).enter.inner) with
        | mk result t =>
            rw [Layer.rule, hread] at hexpression
            rw [run_bind_of_run hexpression, run_bind_of_run (run_modify _ _)]
            cases result with
            | none => rfl
            | some p =>
                dsimp only
                rw [read_bind]
                cases hclose : Symbol.closeParen.take? t.leave.cursor with
                | none =>
                    rw [run_bind_of_run (run_eat_of_none hclose), read_eat_of_none hclose]
                    dsimp only
                    rw [if_neg Bool.false_ne_true, if_neg Bool.false_ne_true, read_failure]
                    rfl
                | some e =>
                    rw [run_bind_of_run (run_eat_of_some hclose), read_eat_of_some hclose]
                    dsimp only
                    rw [if_pos rfl, if_pos rfl, read_pure]
                    rfl
      · rw [if_pos (Nat.le_of_not_lt hroom), hinner, read_deeper_of_not_lt hroom]
        rfl

/-- Reading opens and closes groups in equal number. -/
theorem inner_of_read {rule : Rule α} {result : Option α} (h : read s rule = (result, t)) :
    t.inner = s.inner := by
  obtain rfl : (read s rule).2 = t := congrArg Prod.snd h
  rfl

theorem run_negatable (h : FollowsLayers s.cursor.left) :
    Layer.disjunction.negatable.run s =
      some (read s (Grammar.comparison <|> Grammar.group s.inner)) := by
  have hcomparison := run_comparison s
  rw [Layer.negatable, read_orElse]
  cases hread : read s Grammar.comparison with
  | mk result t =>
      rw [hread] at hcomparison
      rw [run_bind_of_run hcomparison]
      cases result with
      | some p => rfl
      | none =>
          have hcursor : t.cursor = s.cursor := cursor_eq_of_missed hread
          rw [← hcursor] at h
          rw [← inner_of_read hread]
          exact run_group h

theorem FollowsLayers.mono {m n : Nat} (hle : m ≤ n) (h : FollowsLayers n) : FollowsLayers m :=
  fun kind s hs => h kind s (Nat.lt_of_lt_of_le hs hle)

theorem run_negation (h : FollowsLayers s.cursor.left) :
    (Layer.steps .negation).run s = some (read s (Grammar.negation s.inner)) := by
  have hnots := cursor_le_of_read (read_eatAll .not s)
  have hinner := inner_of_read (read_eatAll .not s)
  rw [Layer.steps, run_bind_of_run (run_position s), run_bind_of_run (run_turnOver .not false s),
    Grammar.negation, read_bind, read_eatAll]
  dsimp only
  generalize (Symbol.not.takeAll s.cursor).1 = count at *
  generalize moveTo (mark s _) _ = t at *
  have hnegatable := run_negatable (h.mono (Cursor.left_le_of_le hnots))
  rw [← hinner, read_bind, Bool.false_bne]
  cases hread : read t (Grammar.comparison <|> Grammar.group t.inner) with
  | mk result u =>
      rw [hread] at hnegatable
      rw [run_bind_of_run hnegatable]
      cases result with
      | none => rfl
      | some p =>
          dsimp only
          rw [read_pure]
          by_cases hodd : count % 2 = 1
          · rw [if_pos hodd, if_pos (decide_eq_true hodd)]
            rfl
          · rw [if_neg hodd, if_neg (by simpa using hodd)]
            rfl

/-! ## Chains -/

/-- The loop over operands goes back to the start of the chain where one of them is missing. -/
theorem run_operands {operator : Symbol} {join : Predicate → Predicate → Predicate} {kind : Layer}
    {n : Nat} (hoperand : ∀ s, s.cursor.left ≤ n →
      kind.steps.run s = some (read s (kind.rule s.inner)))
    (start : Cursor) (earlier : List Predicate) (hs : s.cursor.left ≤ n) :
    (kind.chained operator join start earlier).run s =
      some (orBackTo start
        (read s (joinAll join earlier <$> chain operator join (kind.rule s.inner)))) := by
  induction hn : s.cursor.left using Nat.strongRecOn generalizing earlier s with
  | ind m ih =>
      have hfirst := hoperand s hs
      rw [Layer.chained, map_chain_eq, read_bind]
      cases hread : read s (kind.rule s.inner) with
      | mk result t =>
          rw [hread] at hfirst
          rw [run_bind_of_run hfirst]
          cases result with
          | none => rfl
          | some p =>
              dsimp only
              rw [orBackTo_orBackTo, read_bind]
              cases hnext : operator.take? t.cursor with
              | none =>
                  rw [run_bind_of_run (run_eat_of_none hnext), read_eat_of_none hnext]
                  dsimp only
                  rw [if_neg Bool.false_ne_true, if_neg Bool.false_ne_true, read_pure]
                  rfl
              | some d =>
                  have hle : t.cursor.left ≤ s.cursor.left :=
                    Cursor.left_le_of_le (cursor_le_of_read hread)
                  have hlt : d.left < s.cursor.left :=
                    lt_of_lt_of_le (Symbol.left_lt_of_take? hnext) hle
                  have hinner : s.inner = (moveTo t d).inner := (inner_of_read hread).symm
                  rw [run_bind_of_run (run_eat_of_some hnext), read_eat_of_some hnext]
                  dsimp only
                  rw [if_pos rfl, if_pos rfl, orBackTo_orBackTo, hinner]
                  exact ih _ (hn ▸ hlt) _ (Nat.le_trans (Nat.le_of_lt hlt) hs) rfl

theorem run_chain {operator : Symbol} {join : Predicate → Predicate → Predicate} {kind : Layer}
    (hoperand : ∀ t, t.cursor.left ≤ s.cursor.left →
      kind.steps.run t = some (read t (kind.rule t.inner))) :
    (kind.chained operator join s.cursor []).run s =
      some (read s (chain operator join (kind.rule s.inner))) := by
  have hmap : joinAll join [] <$> chain operator join (kind.rule s.inner) =
      chain operator join (kind.rule s.inner) := id_map _
  rw [run_operands hoperand s.cursor [] (Nat.le_refl _), hmap]
  exact congrArg some (orBackTo_read s _)

/-- Descending a layer ends from every state.  It reads what the rule of the layer reads and leaves
the state that the rule leaves. -/
theorem run_layer (kind : Layer) (s : Descent) :
    kind.steps.run s = some (read s (kind.rule s.inner)) := by
  have hall : ∀ n, FollowsLayers n := by
    intro n
    induction n with
    | zero => exact fun _ s hs => absurd hs (Nat.not_lt_zero _)
    | succ n ih =>
        have hnegation : ∀ t : Descent, t.cursor.left ≤ n →
            (Layer.steps .negation).run t = some (read t (Layer.negation.rule t.inner)) :=
          fun t ht => run_negation (ih.mono ht)
        have hconjunction : ∀ t : Descent, t.cursor.left ≤ n →
            (Layer.steps .conjunction).run t = some (read t (Layer.conjunction.rule t.inner)) := by
          intro t ht
          rw [Layer.steps, run_bind_of_run (run_position t)]
          exact run_chain fun u hu => hnegation u (Nat.le_trans hu ht)
        have hdisjunction : ∀ t : Descent, t.cursor.left ≤ n →
            (Layer.steps .disjunction).run t = some (read t (Layer.disjunction.rule t.inner)) := by
          intro t ht
          rw [Layer.steps, run_bind_of_run (run_position t)]
          exact run_chain fun u hu => hconjunction u (Nat.le_trans hu ht)
        intro kind s hs
        cases kind with
        | negation => exact hnegation s (Nat.le_of_lt_succ hs)
        | conjunction => exact hconjunction s (Nat.le_of_lt_succ hs)
        | disjunction => exact hdisjunction s (Nat.le_of_lt_succ hs)
  exact hall _ kind s (Nat.lt_succ_self _)

end Descend

end PredicateLanguage
