import PredicateLanguage.Grammar.Token
import PredicateLanguage.Predicate.Basic

/-!
# The grammar of predicates

From the lowest binding to the highest:

```text
expression  := conjunction ("or" conjunction)*
conjunction := negation ("and" negation)*
negation    := "not"* (comparison | "(" expression ")")
comparison  := term ("==" term | "!=" term | "in" set | "not" "in" set)?
term        := identifier | literal
set         := "{" (literal ("," literal)*)? "}"
```

Chains group to the right.  A comparison whose operator was read fails if its right
side is missing, and so does a chain whose last operator has nothing behind it, so
no shorter match is taken instead.
-/

namespace PredicateLanguage.Grammar

/-- Reads a term: a bare word that starts with a letter is a variable, any other word
and any quoted text a literal. -/
def term : Rule Term :=
  Term.var <$> identifier <|> Term.literal <$> literal

/-- Reads the members of a set; bare words are literals here. -/
def setMembers : Rule (List String) :=
  (fun (first, others) => first :: others) <$> separated .comma literal <|> pure []

def set : Rule StringSet := do
  expect .openBrace
  let members ← setMembers
  expect .closeBrace
  return .ofList members

def comparison : Rule Predicate := do
  let left ← term
  if ← eat .equal then
    return .equal left (← term)
  else if ← eat .notEqual then
    return .notEqual left (← term)
  else if ← eat .member then
    return .oneOf left (← set)
  else if ← eat .not then
    expect .member
    return .noneOf left (← set)
  else
    return .present left

/-- Reads what `inner` reads, in parentheses and one level deeper. -/
def group (inner : Rule Predicate) : Rule Predicate := do
  expect .openParen
  let p ← inner.deeper
  expect .closeParen
  return p

/-- Reads any number of `not` before a comparison or else a group; two of them cancel. -/
def negation (inner : Rule Predicate) : Rule Predicate := do
  let nots ← eatAll .not
  let p ← comparison <|> group inner
  return if nots % 2 = 1 then .not p else p

/-- Reads operands joined by an operator and groups them to the right. -/
def chain (operator : Symbol) (join : Predicate → Predicate → Predicate)
    (operand : Rule Predicate) : Rule Predicate :=
  Predicate.joinRight join <$> separated operator operand

def conjunction (inner : Rule Predicate) : Rule Predicate :=
  chain .and .and (negation inner)

def disjunction (inner : Rule Predicate) : Rule Predicate :=
  chain .or .or (conjunction inner)

/-- Reads an expression whose parentheses nest at most `limit` levels deep.  Inside the
innermost parentheses that the limit allows, no further group can be read. -/
def expression : Nat → Rule Predicate
  | 0 => disjunction failure
  | limit + 1 => disjunction (.delay fun _ => expression limit)

/-- Inside a group one level less is allowed. -/
theorem expression_succ (limit : Nat) :
    expression (limit + 1) = disjunction (expression limit) := rfl

end PredicateLanguage.Grammar
