import PredicateLanguage.Grammar.Expression
import PredicateLanguage.Proofs.TokenRules

/-!
# Chains as recursive rules

A chain is read in a loop that collects its operands and joins them at the end.  This
module shows that the loop is the rule which reads an operand, then asks for the operator
and, if it is there, reads a chain again.  The two are equal as rules, so they agree in
what they read and where they end as well as in every mark that they leave.
-/

namespace PredicateLanguage

variable {α β γ : Type}

namespace Rule

/-! ## Rules form a lawful monad -/

theorem map_id (r : Rule α) : id <$> r = r := by
  ext1 c
  rw [run_map]
  simp

theorem pure_bind_eq (x : α) (next : α → Rule β) : pure x >>= next = next x := by
  ext1 c
  rw [run_bind, run_pure]
  simp [Attempt.found, Attempt.after]

theorem bind_bind (r : Rule α) (f : α → Rule β) (g : β → Rule γ) :
    r >>= f >>= g = r >>= fun x => f x >>= g := by
  ext1 c
  rw [run_bind, run_bind, run_bind]
  cases r.run c with
  | mk outcome m =>
      cases outcome with
      | none => rfl
      | some xd =>
          obtain ⟨x, d⟩ := xd
          simp only [run_bind]
          cases (f x).run d with
          | mk outcome' m' =>
              cases outcome' with
              | none => rfl
              | some ye =>
                  obtain ⟨y, e⟩ := ye
                  simp [Attempt.after, Marks.append_assoc]

instance : LawfulMonad Rule :=
  LawfulMonad.mk' Rule map_id pure_bind_eq bind_bind

end Rule

namespace Grammar

open Rule

theorem run_eat_of_some {s : Symbol} {c d : Cursor} (h : s.take? c = some d) :
    (eat s).run c = .found true d := by
  simp [eat, h]

theorem run_eat_of_none {s : Symbol} {c : Cursor} (h : s.take? c = none) :
    (eat s).run c = ⟨some (false, c), missingNext c⟩ := by
  simp [eat, h]

theorem levelsAt_eat (s : Symbol) (c : Cursor) : (eat s).levelsAt c = 0 := by
  cases h : s.take? c with
  | none => rw [levelsAt, run_eat_of_none h]; rfl
  | some d => rw [levelsAt, run_eat_of_some h]; rfl

/-- What follows an item and a symbol is shorter. -/
theorem left_lt_of_item {item : Rule α} {s : Symbol} {c e e' : Cursor} {x : α}
    (hitem : item.Matches c x e) (hnext : Next e s.token e') : e'.left < c.left := by
  have hle : e.left ≤ c.left := Cursor.left_le_of_le hitem.le
  have hlt : e'.left < e.left := Symbol.left_lt_of_take? (Symbol.take?_eq_some_iff.mpr hnext)
  omega

/-! ## Items with a symbol between them -/

/-- What was read before, with its marks, stands before what is still read. -/
theorem separatedFrom_eq_run (s : Symbol) (item : Rule α) (earlier : List α)
    (marks : Marks) (c : Cursor) :
    separatedFrom s item earlier marks c =
      ⟨((separated s item).run c).outcome.map fun (xs, d) => (inOrder xs.1 earlier xs.2, d),
        marks ++ ((separated s item).run c).marks⟩ := by
  change _ = Attempt.mk ((separatedFrom s item [] ∅ c).outcome.map _)
    (marks ++ (separatedFrom s item [] ∅ c).marks)
  induction hn : c.left using Nat.strongRecOn generalizing earlier marks c with
  | ind n ih =>
      rw [separatedFrom_eq s item earlier, separatedFrom_eq s item []]
      cases hx : item.run c with
      | mk outcome m =>
          cases outcome with
          | none => simp
          | some xd =>
              obtain ⟨x, d⟩ := xd
              cases hs : s.take? d with
              | none => simp [hs, inOrder, Marks.append_assoc]
              | some e =>
                  have hd : c ≤ d := le_of_run (r := item) (by rw [hx])
                  have hlt : e.left < n := by
                    have := Symbol.left_lt_of_take? hs
                    have := Cursor.left_le_of_le hd
                    omega
                  simp only [hs]
                  -- Both sides have read `x`, one of them behind the earlier items.
                  rw [ih e.left hlt (x :: earlier) (marks ++ m) e rfl,
                    ih e.left hlt [x] (∅ ++ m) e rfl]
                  simp [Option.map_map, Function.comp_def, inOrder, Marks.append_assoc]

/-- Reading items with a symbol between them is reading an item and, if the symbol
follows, reading such items again. -/
theorem separated_eq (s : Symbol) (item : Rule α) :
    separated s item = do
      let x ← item
      if ← eat s then
        (fun (y, ys) => (x, y :: ys)) <$> separated s item
      else
        return (x, []) := by
  ext1 c
  change separatedFrom s item [] ∅ c = _
  rw [separatedFrom_eq, run_bind]
  cases hx : item.run c with
  | mk outcome m =>
      cases outcome with
      | none => simp
      | some xd =>
          obtain ⟨x, d⟩ := xd
          simp only [run_bind]
          cases hs : s.take? d with
          | none =>
              rw [run_eat_of_none hs]
              simp [inOrder, run_pure, Attempt.after, Attempt.found]
          | some e =>
              dsimp only
              rw [run_eat_of_some hs, separatedFrom_eq_run]
              simp [run_map, Attempt.found, Attempt.after, inOrder]

/-- A symbol with an item behind it goes on, anything else ends the items. -/
theorem matches_separated_iff {s : Symbol} {item : Rule α} {c d : Cursor}
    {xs : α × List α} :
    (separated s item).Matches c xs d ↔
      (item.Matches c xs.1 d ∧ s.take? d = none ∧ xs.2 = []) ∨
        ∃ e e' ys, item.Matches c xs.1 e ∧ Next e s.token e' ∧
          (separated s item).Matches e' ys d ∧ xs.2 = ys.1 :: ys.2 := by
  conv => lhs; rw [separated_eq, matches_bind]
  constructor
  · rintro ⟨x, e, hx, hrest⟩
    rcases matches_if_eat.mp hrest with ⟨e', hnext, hothers⟩ | ⟨hnone, hnil⟩
    · obtain ⟨ys, hys, rfl⟩ := matches_map.mp hothers
      exact Or.inr ⟨e, e', ys, hx, hnext, hys, rfl⟩
    · obtain ⟨rfl, rfl⟩ := matches_pure.mp hnil
      exact Or.inl ⟨hx, hnone, rfl⟩
  · obtain ⟨x, others⟩ := xs
    rintro (⟨hx, hnone, rfl⟩ | ⟨e, e', ys, hx, hnext, hys, rfl⟩)
    · refine ⟨x, d, hx, matches_if_eat.mpr (Or.inr ⟨hnone, ?_⟩)⟩
      exact matches_pure.mpr ⟨rfl, rfl⟩
    · refine ⟨x, e, hx, matches_if_eat.mpr (Or.inl ⟨e', hnext, ?_⟩)⟩
      exact matches_map.mpr ⟨ys, hys, rfl⟩

/-- What holds of a last item, and of an item in front of items that it holds of, holds of
all items that are read. -/
theorem separated_induction {s : Symbol} {item : Rule α}
    {motive : (c : Cursor) → (xs : α × List α) → (d : Cursor) →
      (separated s item).Matches c xs d → Prop}
    (last : ∀ {c x d} (hx : item.Matches c x d) (hend : s.take? d = none),
      motive c (x, []) d (matches_separated_iff.mpr (Or.inl ⟨hx, hend, rfl⟩)))
    (more : ∀ {c x e e' ys d} (hx : item.Matches c x e) (hnext : Next e s.token e')
      (hys : (separated s item).Matches e' ys d), motive e' ys d hys →
      motive c (x, ys.1 :: ys.2) d
        (matches_separated_iff.mpr (Or.inr ⟨e, e', ys, hx, hnext, hys, rfl⟩)))
    {c : Cursor} {xs : α × List α} {d : Cursor} (h : (separated s item).Matches c xs d) :
    motive c xs d h := by
  induction hn : c.left using Nat.strongRecOn generalizing c xs with
  | ind n ih =>
      obtain ⟨x, others⟩ := xs
      rcases matches_separated_iff.mp h with
        ⟨hx, hend, rfl⟩ | ⟨e, e', ys, hx, hnext, hys, rfl⟩
      · exact last hx hend
      · have hlt : e'.left < n := hn ▸ left_lt_of_item hx hnext
        have hmotive := ih e'.left hlt hys rfl
        exact more hx hnext hys hmotive

/-! ## Joined operands -/

theorem joinRight_cons (join : Predicate → Predicate → Predicate) (p : Predicate)
    (qs : Predicate × List Predicate) :
    Predicate.joinRight join (p, qs.1 :: qs.2) = join p (Predicate.joinRight join qs) := by
  rw [Predicate.joinRight]

/-- Reading a chain is reading an operand and, if the operator follows, joining it to a
chain. -/
theorem chain_eq (operator : Symbol) (join : Predicate → Predicate → Predicate)
    (operand : Rule Predicate) :
    chain operator join operand = do
      let p ← operand
      if ← eat operator then
        join p <$> chain operator join operand
      else
        return p := by
  conv => lhs; rw [chain, separated_eq]
  simp only [map_bind]
  congr 1
  funext p
  congr 1
  funext found
  cases found with
  | false => simp [Predicate.joinRight]
  | true => simp [chain, joinRight_cons]

section Chain

variable {operator : Symbol} {join : Predicate → Predicate → Predicate}
  {operand : Rule Predicate} {c d e e' : Cursor} {p q : Predicate}

/-- An operator with a chain behind it goes on, anything else ends the chain. -/
theorem matches_chain_iff :
    (chain operator join operand).Matches c p d ↔
      (operand.Matches c p d ∧ operator.take? d = none) ∨
        ∃ first e e' others, operand.Matches c first e ∧ Next e operator.token e' ∧
          (chain operator join operand).Matches e' others d ∧ p = join first others := by
  conv => lhs; rw [chain_eq, matches_bind]
  constructor
  · rintro ⟨first, e, hfirst, hrest⟩
    rcases matches_if_eat.mp hrest with ⟨e', hnext, hjoined⟩ | ⟨hnone, hlast⟩
    · obtain ⟨others, hothers, rfl⟩ := matches_map.mp hjoined
      exact Or.inr ⟨first, e, e', others, hfirst, hnext, hothers, rfl⟩
    · obtain ⟨rfl, rfl⟩ := matches_pure.mp hlast
      exact Or.inl ⟨hfirst, hnone⟩
  · rintro (⟨hp, hnone⟩ | ⟨first, e, e', others, hfirst, hnext, hothers, rfl⟩)
    · refine ⟨p, d, hp, matches_if_eat.mpr (Or.inr ⟨hnone, ?_⟩)⟩
      exact matches_pure.mpr ⟨rfl, rfl⟩
    · refine ⟨first, e, hfirst, matches_if_eat.mpr (Or.inl ⟨e', hnext, ?_⟩)⟩
      exact matches_map.mpr ⟨others, hothers, rfl⟩

/-- What holds of a single operand, and of an operand joined to a chain that it holds of,
holds of all chains that are read. -/
theorem chain_induction
    {motive : (c : Cursor) → (p : Predicate) → (d : Cursor) →
      (chain operator join operand).Matches c p d → Prop}
    (single : ∀ {c p d} (hp : operand.Matches c p d) (hend : operator.take? d = none),
      motive c p d (matches_chain_iff.mpr (Or.inl ⟨hp, hend⟩)))
    (joined : ∀ {c first e e' others d} (hfirst : operand.Matches c first e)
      (hnext : Next e operator.token e')
      (hothers : (chain operator join operand).Matches e' others d),
      motive e' others d hothers → motive c (join first others) d
        (matches_chain_iff.mpr (Or.inr ⟨first, e, e', others, hfirst, hnext, hothers, rfl⟩)))
    {c : Cursor} {p : Predicate} {d : Cursor} (h : (chain operator join operand).Matches c p d) :
    motive c p d h := by
  induction hn : c.left using Nat.strongRecOn generalizing c p with
  | ind n ih =>
      rcases matches_chain_iff.mp h with
        ⟨hp, hend⟩ | ⟨first, e, e', others, hfirst, hnext, hothers, rfl⟩
      · exact single hp hend
      · have hlt : e'.left < n := hn ▸ left_lt_of_item hfirst hnext
        have hmotive := ih e'.left hlt hothers rfl
        exact joined hfirst hnext hothers hmotive

/-- A chain that ends with its first operand asks for what that asks for. -/
theorem levelsAt_chain_of_end (hp : operand.Matches c p d) (hend : operator.take? d = none) :
    (chain operator join operand).levelsAt c = operand.levelsAt c := by
  have heat : (eat operator).Matches d false d :=
    matches_eat.mpr (Or.inr ⟨rfl, rfl, hend⟩)
  rw [chain_eq, levelsAt_bind_of_matches hp, levelsAt_bind_of_matches heat, levelsAt_eat]
  simp [levelsAt_pure]

/-- A chain that goes on asks for the most that an operand asks for. -/
theorem levelsAt_chain_of_next (hp : operand.Matches c p e) (hnext : Next e operator.token e') :
    (chain operator join operand).levelsAt c =
      max (operand.levelsAt c) ((chain operator join operand).levelsAt e') := by
  have heat : (eat operator).Matches e true e' := matches_eat.mpr (Or.inl ⟨rfl, hnext⟩)
  conv => lhs; rw [chain_eq]
  rw [levelsAt_bind_of_matches hp, levelsAt_bind_of_matches heat, levelsAt_eat]
  simp [levelsAt_map]

theorem le_levelsAt_chain :
    operand.levelsAt c ≤ (chain operator join operand).levelsAt c := by
  rw [chain_eq]
  exact levelsAt_le_bind operand _ c

end Chain

end Grammar

end PredicateLanguage
