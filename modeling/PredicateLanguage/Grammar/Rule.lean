import PredicateLanguage.Text.Cursor

/-!
# Grammar rules

A rule reads a value at a cursor.  It either matches and gives the cursor behind
what it read, or fails and gives none, so that whoever tried it goes on from the
cursor it had.  Besides its outcome an attempt leaves marks, which grow with every
rule tried on the way, matched or not: the furthest place at which something
expected was missing, and the number of grouping levels that were asked for.
-/

namespace PredicateLanguage

/-- What attempts leave behind whether they match or fail. -/
@[ext]
structure Marks where
  /-- The furthest place at which a token was missing. -/
  miss : Option Cursor := none
  /-- The deepest nesting of parentheses that was opened. -/
  levels : Nat := 0

namespace Marks

/-- The further of two places, where there are two. -/
def laterMiss : Option Cursor → Option Cursor → Option Cursor
  | none, d => d
  | some c, none => some c
  | some c, some d => some (c.later d)

def join (m n : Marks) : Marks where
  miss := laterMiss m.miss n.miss
  levels := max m.levels n.levels

instance : EmptyCollection Marks := ⟨{}⟩
instance : Append Marks := ⟨join⟩

@[simp]
theorem miss_empty : (∅ : Marks).miss = none := rfl

@[simp]
theorem levels_empty : (∅ : Marks).levels = 0 := rfl

@[simp]
theorem miss_append (m n : Marks) : (m ++ n).miss = laterMiss m.miss n.miss := rfl

@[simp]
theorem levels_append (m n : Marks) : (m ++ n).levels = max m.levels n.levels := rfl

@[simp]
theorem empty_append (m : Marks) : ∅ ++ m = m := by
  ext1 <;> simp [laterMiss]

@[simp]
theorem append_empty (m : Marks) : m ++ ∅ = m := by
  ext1
  · cases h : m.miss <;> simp [laterMiss, h]
  · simp

theorem append_assoc (m n k : Marks) : m ++ n ++ k = m ++ (n ++ k) := by
  ext1
  · cases hm : m.miss <;> cases hn : n.miss <;> cases hk : k.miss <;>
      simp [laterMiss, hm, hn, hk, Cursor.later_assoc]
  · simp [Nat.max_assoc]

/-- Every place marked is at or behind `c`. -/
def From (c : Cursor) (m : Marks) : Prop :=
  ∀ d, m.miss = some d → c ≤ d

theorem From.empty (c : Cursor) : From c ∅ := by
  intro d h
  contradiction

theorem From.append {c : Cursor} {m n : Marks} (hm : m.From c) (hn : n.From c) :
    (m ++ n).From c := by
  intro d h
  rw [miss_append] at h
  cases hx : m.miss with
  | none =>
    rw [hx] at h
    exact hn d h
  | some x =>
    cases hy : n.miss with
    | none =>
      rw [hx, hy] at h
      obtain rfl := Option.some.inj h
      exact hm x hx
    | some y =>
      rw [hx, hy] at h
      obtain rfl := Option.some.inj h
      obtain h | h := Cursor.later_eq_or x y <;> rw [h]
      · exact hm x hx
      · exact hn y hy

theorem From.mono {c d : Cursor} {m : Marks} (hcd : c ≤ d) (h : m.From d) : m.From c :=
  fun e he => Cursor.le_trans hcd (h e he)

/-- The furthest place missed so far, given the furthest missed before. -/
def furthestFrom (m : Marks) (c : Cursor) : Cursor :=
  match m.miss with
  | none => c
  | some d => c.later d

theorem From.le_furthestFrom {b c : Cursor} {m : Marks} (hm : m.From b) (hc : b ≤ c) :
    b ≤ m.furthestFrom c := by
  unfold furthestFrom
  split
  · exact hc
  · rename_i d hd
    obtain h | h := Cursor.later_eq_or c d <;> rw [h]
    · exact hc
    · exact hm d hd

end Marks

/-- What became of a rule tried at some cursor. -/
@[ext]
structure Attempt (α : Type) where
  /-- The value read and the cursor behind it, if the rule matched. -/
  outcome : Option (α × Cursor)
  marks : Marks

namespace Attempt

/-- A match that leaves no marks. -/
def found (x : α) (c : Cursor) : Attempt α :=
  ⟨some (x, c), ∅⟩

/-- A failure that leaves no marks. -/
def refused : Attempt α :=
  ⟨none, ∅⟩

/-- A token missing at `c`. -/
def missing (c : Cursor) : Attempt α :=
  ⟨none, { miss := some c }⟩

/-- The attempt with the marks of an earlier one before its own. -/
def after (m : Marks) (a : Attempt α) : Attempt α :=
  ⟨a.outcome, m ++ a.marks⟩

/-- Nothing an attempt gives or marks lies before `c`. -/
structure From (c : Cursor) (a : Attempt α) : Prop where
  outcome : ∀ x d, a.outcome = some (x, d) → c ≤ d
  marks : a.marks.From c

theorem From.found {c d : Cursor} {x : α} (h : c ≤ d) : From c (Attempt.found x d) where
  outcome := by
    rintro y e he
    obtain ⟨rfl, rfl⟩ := Prod.mk.inj (Option.some.inj he)
    exact h
  marks := Marks.From.empty c

theorem From.refused {c : Cursor} : From c (Attempt.refused : Attempt α) where
  outcome := by
    rintro y e he
    contradiction
  marks := Marks.From.empty c

theorem From.missing {c d : Cursor} (h : c ≤ d) : From c (Attempt.missing d : Attempt α) where
  outcome := by
    rintro y e he
    contradiction
  marks := by
    intro e he
    obtain rfl := Option.some.inj he
    exact h

theorem From.after {c : Cursor} {m : Marks} {a : Attempt α} (hm : m.From c) (ha : a.From c) :
    From c (a.after m) where
  outcome := ha.outcome
  marks := hm.append ha.marks

theorem From.mono {c d : Cursor} {a : Attempt α} (hcd : c ≤ d) (h : a.From d) : a.From c where
  outcome x e he := Cursor.le_trans hcd (h.outcome x e he)
  marks := h.marks.mono hcd

/-- Where reading goes on after an attempt made at `c`. -/
def cursorFrom (a : Attempt α) (c : Cursor) : Cursor :=
  match a.outcome with
  | none => c
  | some (_, d) => d

theorem From.le_cursorFrom {b c : Cursor} {a : Attempt α} (ha : a.From b) (hc : b ≤ c) :
    b ≤ a.cursorFrom c := by
  unfold cursorFrom
  split
  · exact hc
  · exact ha.outcome _ _ ‹_›

end Attempt

/-- A reader of values that never goes back behind the cursor it starts at. -/
structure Rule (α : Type) where
  run : Cursor → Attempt α
  run_from : ∀ c, (run c).From c

namespace Rule

@[ext]
theorem ext {r s : Rule α} (h : ∀ c, r.run c = s.run c) : r = s := by
  obtain ⟨run, _⟩ := r
  obtain ⟨run', _⟩ := s
  obtain rfl : run = run' := funext h
  rfl

/-- A rule that matches ends at or behind the cursor it starts at. -/
theorem le_of_run {r : Rule α} {c d : Cursor} {x : α} (h : (r.run c).outcome = some (x, d)) :
    c ≤ d :=
  (r.run_from c).outcome x d h

protected def pure (x : α) : Rule α where
  run c := .found x c
  run_from c := .found (Cursor.le_refl c)

/-- Reads with the first rule, then behind it with the rule that its value asks for. -/
protected def bind (r : Rule α) (next : α → Rule β) : Rule β where
  run c :=
    match r.run c with
    | ⟨none, m⟩ => ⟨none, m⟩
    | ⟨some (x, d), m⟩ => ((next x).run d).after m
  run_from c := by
    have hr := r.run_from c
    split
    · rename_i m h
      rw [h] at hr
      exact ⟨by rintro _ _ ⟨⟩, hr.marks⟩
    · rename_i x d m h
      rw [h] at hr
      exact .after hr.marks (.mono (hr.outcome x d rfl) ((next x).run_from d))

protected def failure : Rule α where
  run _ := .refused
  run_from _ := .refused

/-- Tries the second rule at the same cursor if the first fails. -/
protected def orElse (r : Rule α) (s : Unit → Rule α) : Rule α where
  run c :=
    match r.run c with
    | ⟨none, m⟩ => ((s ()).run c).after m
    | ⟨some y, m⟩ => ⟨some y, m⟩
  run_from c := by
    have hr := r.run_from c
    split
    · rename_i m h
      rw [h] at hr
      exact .after hr.marks ((s ()).run_from c)
    · rename_i y m h
      rw [h] at hr
      exact hr

instance : Monad Rule where
  pure := Rule.pure
  bind := Rule.bind

instance : Alternative Rule where
  failure := Rule.failure
  orElse := Rule.orElse

theorem run_pure (x : α) (c : Cursor) : (pure x : Rule α).run c = .found x c := rfl

theorem run_failure (c : Cursor) : (failure : Rule α).run c = .refused := rfl

theorem run_bind (r : Rule α) (next : α → Rule β) (c : Cursor) :
    (r >>= next).run c =
      match r.run c with
      | ⟨none, m⟩ => ⟨none, m⟩
      | ⟨some (x, d), m⟩ => ((next x).run d).after m := rfl

theorem run_map (f : α → β) (r : Rule α) (c : Cursor) :
    (f <$> r).run c =
      ⟨(r.run c).outcome.map fun (x, d) => (f x, d), (r.run c).marks⟩ := by
  have h : (f <$> r).run c = (r >>= fun x => pure (f x)).run c := rfl
  rw [h, run_bind]
  obtain ⟨_ | ⟨x, d⟩, m⟩ := r.run c
  · rfl
  · exact Attempt.ext rfl (Marks.append_empty m)

theorem run_orElse (r s : Rule α) (c : Cursor) :
    (r <|> s).run c =
      match r.run c with
      | ⟨none, m⟩ => (s.run c).after m
      | ⟨some y, m⟩ => ⟨some y, m⟩ := rfl

/-- The same rule, built only when it is tried. -/
def delay (r : Unit → Rule α) : Rule α where
  run c := (r ()).run c
  run_from c := (r ()).run_from c

@[simp]
theorem delay_eq (r : Unit → Rule α) : delay r = r () := rfl

/-- Marks one grouping level around whatever the rule marks. -/
def deeper (r : Rule α) : Rule α where
  run c :=
    let a := r.run c
    ⟨a.outcome, { a.marks with levels := a.marks.levels + 1 }⟩
  run_from c :=
    have h := r.run_from c
    ⟨h.outcome, h.marks⟩

end Rule

end PredicateLanguage
