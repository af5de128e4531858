import PredicateLanguage.Grammar.Reader
import PredicateLanguage.Proofs.Completeness
import PredicateLanguage.Proofs.RuleStates

/-!
# States of reading expressions

Expressions are read over one state, whatever rule reads at the moment.  It says where reading
stands, the furthest place at which something was missing, how many groups are open and whether a
group was refused.  No rule opens more groups than there is room for.
-/

namespace PredicateLanguage

open Grammar Rule

/-- The state of reading, possibly inside of groups.  More of them may be open than are allowed. -/
@[ext]
structure ParserState where
  cursor : Cursor
  /-- The furthest place at which something was missing. -/
  furthest : Cursor
  /-- The number of groups that are open. -/
  depth : Nat
  /-- The number of groups that may be open at the same time. -/
  limit : Nat
  /-- Some group was refused because too many were open. -/
  tooDeep : Bool

namespace ParserState

/-- The number of groups that may still be opened. -/
def room (s : ParserState) : Nat :=
  s.limit - s.depth

/-- What can be read in parentheses with as many groups open as there are. -/
def inner (s : ParserState) : Rule Predicate :=
  inside s.room

/-- Goes on at another cursor. -/
def moveTo (s : ParserState) (c : Cursor) : ParserState :=
  { s with cursor := c }

/-- What marks leave of a state. -/
def mark (s : ParserState) (m : Marks) : ParserState :=
  { s with
    furthest := m.furthestFrom s.furthest
    tooDeep := s.tooDeep || decide (s.room < m.levels) }

theorem mark_empty (s : ParserState) : s.mark ∅ = s :=
  ParserState.ext rfl rfl rfl rfl (Bool.or_false s.tooDeep)

theorem mark_mark (s : ParserState) (m n : Marks) : (s.mark m).mark n = s.mark (m ++ n) := by
  have hmax : s.room < max m.levels n.levels ↔ s.room < m.levels ∨ s.room < n.levels := by omega
  refine ParserState.ext rfl (Marks.furthestFrom_append m n s.furthest).symm rfl rfl ?_
  change (s.tooDeep || decide _ || decide _) = (s.tooDeep || decide _)
  rw [Bool.or_assoc, ← Bool.decide_or]
  exact congrArg (s.tooDeep || ·) (decide_eq_decide.mpr hmax.symm)

instance : RuleState ParserState where
  cursor := cursor
  moveTo := moveTo
  mark := mark
  cursor_moveTo _ _ := rfl
  cursor_mark _ _ := rfl
  moveTo_cursor _ := rfl
  moveTo_moveTo _ _ _ := rfl
  mark_moveTo _ _ _ := rfl
  mark_empty := mark_empty
  mark_mark := mark_mark

end ParserState

namespace Reader

/-- The state of a reader between two calls, when no group is open. -/
def state (r : Reader) : ParserState where
  cursor := r.cursor
  furthest := r.furthest
  depth := 0
  limit := r.limit
  tooDeep := decide (r.limit < r.levels)

/-- A reader changes its state as any state is changed by a rule. -/
theorem read_state {α : Type} (rule : Rule α) (r : Reader) :
    RuleState.read r.state rule = ((r.read rule).1, (r.read rule).2.state) := by
  have hmax : ∀ m n : Nat, r.limit < max m n ↔ r.limit < m ∨ r.limit < n := by omega
  refine Prod.ext rfl (ParserState.ext rfl rfl rfl rfl ?_)
  change (decide _ || decide _) = decide _
  rw [← Bool.decide_or]
  exact decide_eq_decide.mpr (hmax _ _).symm

end Reader

end PredicateLanguage
