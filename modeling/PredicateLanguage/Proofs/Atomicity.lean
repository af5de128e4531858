import PredicateLanguage.Grammar.Reader
import PredicateLanguage.Proofs.DescentLayers

/-!
# Every descent is all or nothing

Whatever rule of the grammar is descended, and from whatever state, it ends in one of two ways.  It
fails and stands where it began, or it reads something and stands further on.  Groups that it opened
are closed again, and none was opened that the limit forbids.  What was missing and what was refused
is not forgotten, and where a group is refused nothing is read.
-/

namespace PredicateLanguage

open Grammar RuleState

variable {α β : Type}

namespace Rule

/-- Where the rule matches, fewer bytes are ahead behind it. -/
def Consumes (r : Rule α) : Prop :=
  ∀ c x d, r.Matches c x d → d.left < c.left

theorem Consumes.bind {r : Rule α} {next : α → Rule β} (hr : r.Consumes) :
    (r >>= next).Consumes := by
  intro c y e h
  obtain ⟨x, d, hx, hy⟩ := matches_bind.mp h
  exact lt_of_le_of_lt (Cursor.left_le_of_le hy.le) (hr c x d hx)

end Rule

namespace Grammar

open Rule

theorem Next.left_lt_left {c d : Cursor} {t : Token} (h : Next c t d) : d.left < c.left :=
  lt_of_lt_of_le h.left_lt (Cursor.left_le_of_le (Cursor.le_skipSpaces c))

theorem consumes_term : term.Consumes := by
  intro c x d h
  obtain ⟨t, hnext, -⟩ := matches_term.mp h
  exact Next.left_lt_left hnext

theorem consumes_expect (s : Symbol) : (expect s).Consumes :=
  fun _ _ _ h => Next.left_lt_left (matches_expect.mp h)

theorem consumes_set : set.Consumes :=
  (consumes_expect .openBrace).bind

theorem consumes_comparison : comparison.Consumes :=
  consumes_term.bind

section Groups

variable (inner : Rule Predicate)

theorem consumes_group : (group inner).Consumes :=
  (consumes_expect .openParen).bind

theorem consumes_negation : (negation inner).Consumes := by
  intro c p d h
  obtain ⟨nots, e, q, hnots, -, hq, -⟩ := matches_negation.mp h
  have hle : e.left ≤ c.left := Cursor.left_le_of_le (le_of_reads hnots)
  rcases matches_operand.mp hq with hcomparison | hgroup
  · exact lt_of_lt_of_le (consumes_comparison e q d hcomparison) hle
  · exact lt_of_lt_of_le (consumes_group inner e q d hgroup) hle

theorem consumes_chain {operator : Symbol} {join : Predicate → Predicate → Predicate}
    {operand : Rule Predicate} (h : operand.Consumes) : (chain operator join operand).Consumes := by
  rw [chain_eq]
  exact h.bind

theorem consumes_layer (kind : Layer) : (kind.rule inner).Consumes := by
  have hconjunction : (conjunction inner).Consumes := consumes_chain (consumes_negation inner)
  cases kind with
  | negation => exact consumes_negation inner
  | conjunction => exact hconjunction
  | disjunction => exact consumes_chain hconjunction

end Groups

/-- What is read in parentheses asks for no more levels than there is room for. -/
theorem within_inside (room : Nat) : (inside room).deeper.Within room := by
  cases room with
  | zero => exact within_deeper_failure 0
  | succ room => exact (within_expression room).deeper

theorem within_layer (kind : Layer) (room : Nat) : (kind.rule (inside room)).Within room := by
  have hnegation : (negation (inside room)).Within room := within_negation (within_inside room)
  cases kind with
  | negation => exact hnegation
  | conjunction => exact within_chain hnegation
  | disjunction => exact within_disjunction (within_inside room)

/-- The productions of the grammar, by what they read. -/
inductive Production : Type → Type where
  | term : Production Term
  | set : Production StringSet
  | comparison : Production Predicate
  | group : Production Predicate
  | layer (kind : Layer) : Production Predicate

namespace Production

/-- The descent through a production. -/
def steps : Production α → Descend (Option α)
  | term => Descend.term
  | set => Descend.set
  | comparison => Descend.comparison
  | group => Layer.disjunction.grouped
  | layer kind => kind.steps

/-- The rule of a production, given what is read in parentheses. -/
def rule (inner : Rule Predicate) : Production α → Rule α
  | term => Grammar.term
  | set => Grammar.set
  | comparison => Grammar.comparison
  | group => Grammar.group inner
  | layer kind => kind.rule inner

theorem run_steps (q : Production α) (s : Descent) :
    q.steps.run s = some (read s (q.rule s.inner)) := by
  cases q with
  | term => exact Descend.run_term s
  | set => exact Descend.run_set s
  | comparison => exact Descend.run_comparison s
  | group => exact Descend.run_group fun kind t _ => Descend.run_layer kind t
  | layer kind => exact Descend.run_layer kind s

theorem consumes (q : Production α) (inner : Rule Predicate) : (q.rule inner).Consumes := by
  cases q with
  | term => exact consumes_term
  | set => exact consumes_set
  | comparison => exact consumes_comparison
  | group => exact consumes_group inner
  | layer kind => exact consumes_layer inner kind

theorem within (q : Production α) (room : Nat) : (q.rule (inside room)).Within room := by
  cases q with
  | term => exact flat_term.within room
  | set => exact flat_set.within room
  | comparison => exact flat_comparison.within room
  | group => exact within_group (within_inside room)
  | layer kind => exact within_layer kind room

end Production

end Grammar

namespace Descent

variable {s t : Descent} {result : Option α}

/-- What is left of a state behind a production, which gave a result or failed. -/
structure Atomic (s : Descent) (result : Option α) (t : Descent) : Prop where
  stays : result = none → t.cursor = s.cursor
  advances : result ≠ none → s.cursor ≤ t.cursor ∧ t.cursor.left < s.cursor.left
  depth_eq : t.depth = s.depth
  limit_eq : t.limit = s.limit
  furthest_le : t.furthest.left ≤ s.furthest.left
  tooDeep : s.tooDeep = true → t.tooDeep = true

/-- Marks do not move the furthest place back. -/
theorem left_furthestFrom_le (m : Marks) (c : Cursor) : (m.furthestFrom c).left ≤ c.left := by
  unfold Marks.furthestFrom
  split
  · exact Nat.le_refl _
  · rw [Cursor.left_later]
    exact Nat.min_le_left _ _

/-- A rule that reads on where it matches leaves the state as it should be. -/
theorem atomic_of_read {rule : Rule α} (hrule : rule.Consumes) (h : read s rule = (result, t)) :
    s.Atomic result t := by
  obtain rfl : (read s rule).2 = t := congrArg Prod.snd h
  constructor
  · rintro rfl
    exact cursor_eq_of_missed h
  · intro hresult
    obtain ⟨x, rfl⟩ := Option.ne_none_iff_exists'.mp hresult
    exact ⟨cursor_le_of_read h, hrule _ _ _ (matches_of_read h)⟩
  · rfl
  · rfl
  · exact left_furthestFrom_le _ _
  · intro hdeep
    exact Bool.or_eq_true_iff.mpr (Or.inl hdeep)

/-- The state as it would be if nothing had happened before. -/
def afresh (s : Descent) : Descent :=
  { s with tooDeep := false, deepest := s.depth, depth_le_deepest := Nat.le_refl s.depth }

/-- The state `t` is `u` with what happened before `s`. -/
structure Recalls (s u t : Descent) : Prop where
  cursor_eq : t.cursor = u.cursor
  furthest_eq : t.furthest = u.furthest
  depth_eq : t.depth = u.depth
  limit_eq : t.limit = u.limit
  tooDeep_eq : t.tooDeep = (s.tooDeep || u.tooDeep)
  deepest_eq : t.deepest = max s.deepest u.deepest

/-- What happened before does not show in what is read. -/
theorem recalls_read (s : Descent) (rule : Rule α) :
    (read s.afresh rule).1 = (read s rule).1 ∧
      s.Recalls (read s.afresh rule).2 (read s rule).2 := by
  have hdeepest : ∀ n, max s.deepest (s.depth + n) = max s.deepest (max s.depth (s.depth + n)) := by
    intro n
    have := s.depth_le_deepest
    omega
  exact ⟨rfl, rfl, rfl, rfl, rfl, congrArg (s.tooDeep || ·) (Bool.false_or _).symm, hdeepest _⟩

/-- Where a rule asks for more levels than there is room for, nothing is read. -/
theorem missed_of_tooDeep {rule : Rule α} (hrule : rule.Within s.room)
    (h : read s.afresh rule = (result, t)) (hdeep : t.tooDeep = true) : result = none := by
  cases result with
  | none => rfl
  | some x =>
      obtain rfl : (read s.afresh rule).2 = t := congrArg Prod.snd h
      have hlevels : s.room < rule.levelsAt s.cursor :=
        of_decide_eq_true ((Bool.false_or _).symm.trans hdeep)
      exact absurd (hrule _ _ _ (matches_of_read h)) (Nat.not_le_of_lt hlevels)

/-- However many levels a rule asks for, no more groups are opened than there is room for. -/
theorem deepest_le_limit {rule : Rule α} (h : read s.afresh rule = (result, t))
    (hdepth : s.depth ≤ s.limit) : t.deepest ≤ s.limit := by
  obtain rfl : (read s.afresh rule).2 = t := congrArg Prod.snd h
  change max s.depth (s.depth + min (rule.levelsAt s.cursor) (s.limit - s.depth)) ≤ s.limit
  omega

end Descent

namespace Grammar.Production

/-- From every state, whatever groups are open and whatever was marked before, the descent through
a production ends, and gives and leaves what the rule does.  If it fails it stands where it began,
and if it reads something it stands further on.  The depth is what it was, and no mark is lost.
What happened before changes nothing about what the descent itself does: it opens no group beyond
the limit, and where it refuses one it fails. -/
theorem descends_atomically (q : Production α) (s : Descent) :
    ∃ result t, q.steps.run s = some (result, t) ∧ read s (q.rule s.inner) = (result, t) ∧
      s.Atomic result t ∧
      ∃ u, q.steps.run s.afresh = some (result, u) ∧ s.Recalls u t ∧
        (s.depth ≤ s.limit → u.deepest ≤ s.limit) ∧ (u.tooDeep = true → result = none) := by
  obtain ⟨hresult, hrecalls⟩ := Descent.recalls_read s (q.rule s.inner)
  have hafresh : s.afresh.inner = s.inner := rfl
  cases h : read s (q.rule s.inner) with
  | mk result t =>
      cases hu : read s.afresh (q.rule s.inner) with
      | mk result' u =>
          rw [h, hu] at hresult hrecalls
          obtain rfl : result' = result := hresult
          have hatomic := Descent.atomic_of_read (q.consumes _) h
          refine ⟨result', t, ?_, rfl, hatomic, u, ?_, hrecalls, ?_, ?_⟩
          · rw [run_steps, h]
          · rw [run_steps, hafresh, hu]
          · exact Descent.deepest_le_limit hu
          · exact Descent.missed_of_tooDeep (q.within s.room) hu

end Grammar.Production

/-! ## Readers -/

namespace Reader

/-- The descent that a reader can begin between two calls. -/
def descent (r : Reader) : Descent where
  toParserState := r.state
  deepest := min r.levels r.limit
  depth_le_deepest := Nat.zero_le _

/-- A reader reads an expression by descending the grammar. -/
theorem run_layer_descent (r : Reader) :
    (Layer.steps .disjunction).run r.descent =
      some (r.readExpression.1, r.readExpression.2.descent) := by
  have hinner : Layer.disjunction.rule r.descent.inner = expression r.limit :=
    (expression_eq_disjunction r.limit).symm
  have hstate := congrArg Prod.snd (r.read_state (expression r.limit))
  have hdeepest : ∀ n, max (min r.levels r.limit) (0 + min n r.limit) =
      min (max r.levels n) r.limit := by
    intro n
    omega
  rw [Descend.run_layer, hinner]
  exact congrArg some (Prod.ext rfl (Descent.eq_of_state hstate (hdeepest _)))

end Reader

end PredicateLanguage
