import PredicateLanguage.Proofs.ParserStates

/-!
# Descending the grammar over a state

A rule that fails gives no cursor, so nothing has to be undone.  Here the grammar is descended over
a state that every step changes.  Tokens move the cursor, a group that is opened is counted until it
is left, and whoever gives up has to go back to where it began.  That the loops end is not built in:
a descent that went on for ever would give nothing.
-/

namespace PredicateLanguage

open Grammar Rule

/-- The state of a descent, which also remembers how many groups were open at most. -/
structure Descent extends ParserState where
  /-- The greatest number of groups that were open at the same time. -/
  deepest : Nat
  depth_le_deepest : depth ≤ deepest

namespace Descent

theorem eq_of_state {s t : Descent} (hstate : s.toParserState = t.toParserState)
    (hdeepest : s.deepest = t.deepest) : s = t := by
  obtain ⟨state, deepest, _⟩ := s
  obtain ⟨state', deepest', _⟩ := t
  obtain rfl : state = state' := hstate
  obtain rfl : deepest = deepest' := hdeepest
  rfl

def moveTo (s : Descent) (c : Cursor) : Descent :=
  { s with toParserState := s.toParserState.moveTo c }

/-- What marks leave of a state: as many levels are opened as there is room for. -/
def mark (s : Descent) (m : Marks) : Descent where
  toParserState := s.toParserState.mark m
  deepest := max s.deepest (s.depth + min m.levels s.room)
  depth_le_deepest := Nat.le_trans s.depth_le_deepest (Nat.le_max_left _ _)

/-- One more group is open. -/
def enter (s : Descent) : Descent :=
  { s with
    depth := s.depth + 1
    deepest := max s.deepest (s.depth + 1)
    depth_le_deepest := Nat.le_max_right _ _ }

/-- One group less is open. -/
def leave (s : Descent) : Descent :=
  { s with
    depth := s.depth - 1
    depth_le_deepest := Nat.le_trans (Nat.sub_le s.depth 1) s.depth_le_deepest }

/-- A group is refused. -/
def refuse (s : Descent) : Descent :=
  { s with tooDeep := true }

/-- No level is no reason to remember a greater depth. -/
theorem max_deepest (s : Descent) : max s.deepest (s.depth + min 0 s.room) = s.deepest := by
  have := s.depth_le_deepest
  omega

instance : RuleState Descent where
  cursor s := s.cursor
  moveTo := moveTo
  mark := mark
  cursor_moveTo _ _ := rfl
  cursor_mark _ _ := rfl
  moveTo_cursor _ := rfl
  moveTo_moveTo _ _ _ := rfl
  mark_moveTo _ _ _ := rfl
  mark_empty s := eq_of_state s.toParserState.mark_empty s.max_deepest
  mark_mark s m n := by
    refine eq_of_state (s.toParserState.mark_mark m n) ?_
    change max (max s.deepest (s.depth + min m.levels s.room)) (s.depth + min n.levels s.room) =
      max s.deepest (s.depth + min (max m.levels n.levels) s.room)
    omega

end Descent

/-- Steps over the state of a descent.  One that does not end gives nothing. -/
abbrev Descend := StateT Descent Option

namespace Descend

/-! ## Steps -/

def position : Descend Cursor :=
  return (← get).cursor

/-- Goes on at a cursor. -/
def goTo (c : Cursor) : Descend Unit :=
  modify fun s => s.moveTo c

/-- Tries a rule for a token, which knows nothing of groups. -/
def token {α : Type} (rule : Rule α) : Descend (Option α) := do
  let s ← get
  let a := rule.run s.cursor
  set { s with
    cursor := a.cursorFrom s.cursor
    furthest := a.marks.furthestFrom s.furthest }
  return a.outcome.map Prod.fst

def eat (symbol : Symbol) : Descend Bool :=
  return (← token (Grammar.eat symbol)).getD false

/-! ## Terms, sets and comparisons -/

def term : Descend (Option Term) := do
  match ← token identifier with
  | some name => return some (.var name)
  | none => return (← token literal).map .literal

end Descend

open Descend

/-- The elements behind those that were read, each of which is put into the set. -/
def StringSet.readElements (members : StringSet) : Descend (Option StringSet) := do
  if ← eat .comma then
    match ← token literal with
    | none => return none
    | some value => members.insert value |>.readElements
  else
    return some members
partial_fixpoint

namespace Descend

/-- The members of a set up to its closing brace. -/
def members : Descend (Option StringSet) := do
  match ← token literal with
  | none => return some ∅
  | some first => (StringSet.insert first ∅).readElements

/-- A set that does not go back where it breaks off. -/
def braces : Descend (Option StringSet) := do
  if ← eat .openBrace then
    match ← members with
    | none => return none
    | some all =>
      if ← eat .closeBrace then
        return some all
      else
        return none
  else
    return none

/-- Goes back to a cursor unless something was read. -/
def orGoTo {α : Type} (start : Cursor) (result : Option α) : Descend (Option α) := do
  match result with
  | none =>
    goTo start
    return none
  | some x => return some x

def set : Descend (Option StringSet) := do
  let start ← position
  orGoTo start (← braces)

/-- What is compared with a first term.  Once an operator is read, there is no way back here. -/
def operation (left : Term) : Descend (Option Predicate) := do
  if ← eat .equal then
    return (← term).map (.equal left)
  else if ← eat .notEqual then
    return (← term).map (.notEqual left)
  else if ← eat .member then
    return (← set).map (.oneOf left)
  else if ← eat .not then
    if ← eat .member then
      return (← set).map (.noneOf left)
    else
      return none
  else
    return some (.present left)

def comparison : Descend (Option Predicate) := do
  let start ← position
  match ← term with
  | none => return none
  | some left => orGoTo start (← operation left)

end Descend

/-! ## Groups and chains -/

/-- Turns a flag over as often as a symbol stands next. -/
def Symbol.turnOver (s : Symbol) (flag : Bool) : Descend Bool := do
  if ← eat s then
    s |>.turnOver !flag
  else
    return flag
partial_fixpoint

namespace Layer

mutual

/-- The operands of a chain, with those before in reverse order.  They are joined behind the last
one. -/
def chained (operand : Layer) (operator : Symbol) (join : Predicate → Predicate → Predicate)
    (start : Cursor) (earlier : List Predicate) : Descend (Option Predicate) := do
  match ← operand |>.steps with
  | none =>
    goTo start
    return none
  | some p =>
    if ← eat operator then
      operand |>.chained operator join start (p :: earlier)
    else
      return some (earlier.foldl (fun right left => join left right) p)
partial_fixpoint

def steps : Layer → Descend (Option Predicate)
  | disjunction => do
    conjunction |>.chained .or .or (← position) []
  | conjunction => do
    negation |>.chained .and .and (← position) []
  | negation => do
    let start ← position
    let negated ← Symbol.not.turnOver false
    match ← disjunction |>.negatable with
    | none =>
      goTo start
      return none
    | some p => return some (if negated then .not p else p)
partial_fixpoint

/-- What may stand behind `not`. -/
def negatable (inner : Layer) : Descend (Option Predicate) := do
  match ← comparison with
  | some p => return some p
  | none => inner |>.grouped
partial_fixpoint

/-- A layer in parentheses. -/
def grouped (inner : Layer) : Descend (Option Predicate) := do
  let start ← position
  if ← eat .openParen then
    let s ← get
    if s.limit ≤ s.depth then
      modify Descent.refuse
      goTo start
      return none
    else
      modify Descent.enter
      let result ← inner |>.steps
      modify Descent.leave
      match result with
      | none =>
        goTo start
        return none
      | some p =>
        if ← eat .closeParen then
          return some p
        else
          goTo start
          return none
  else
    return none
partial_fixpoint

end

end Layer

end PredicateLanguage
