import PredicateLanguage.Json.Decoder

/-!
# Predicates in JSON

A node is an object with its tag as the only key.  The two parts of a node stand in
a list, a single part stands by itself, and a set is the list of its members.  What is
written has no blanks and lists sets in order; what is read may have both otherwise.
-/

namespace PredicateLanguage

namespace Json

/-! ## Writing -/

/-- Writes an object with a tag as its only key. -/
def writeTagged (tag : String) (content : Writer) : Writer :=
  .between '\x7b' '\x7d' (writeString tag ++ .text ":" ++ content)

def writeList (items : List Writer) : Writer :=
  .between '[' ']' (.joined "," items)

/-- The tag of a term that is a fixed string. -/
def literalTag : String := "literal"

/-- The tag of a term that is a name. -/
def variableTag : String := "variable"

def writeTerm : Term → Writer
  | .literal value => writeTagged literalTag (writeString value)
  | .var name => writeTagged variableTag (writeString name)

def writeSet (set : StringSet) : Writer :=
  writeList (set.members.map writeString)

def writePredicate : Predicate → Writer
  | .equal left right =>
    writeTagged NodeKind.equal.tag (writeList [writeTerm left, writeTerm right])
  | .notEqual left right =>
    writeTagged NodeKind.notEqual.tag (writeList [writeTerm left, writeTerm right])
  | .oneOf term set => writeTagged NodeKind.oneOf.tag (writeList [writeTerm term, writeSet set])
  | .noneOf term set =>
    writeTagged NodeKind.noneOf.tag (writeList [writeTerm term, writeSet set])
  | .present term => writeTagged NodeKind.present.tag (writeTerm term)
  | .not operand => writeTagged NodeKind.not.tag (writePredicate operand)
  | .and left right =>
    writeTagged NodeKind.and.tag (writeList [writePredicate left, writePredicate right])
  | .or left right =>
    writeTagged NodeKind.or.tag (writeList [writePredicate left, writePredicate right])

/-! ## Reading -/

/-- The tags of terms, with the constructors they stand for. -/
def termTags : Tags (String → Term) where
  known := [literalTag, variableTag]
  ofTag? tag :=
    if tag = literalTag then some .literal
    else if tag = variableTag then some .var
    else none
  wanted _ := .tagOfOne

def term (room : Nat) : Decoder Term :=
  tagged termTags room fun make => make <$> string

def nodeTags : Tags NodeKind where
  known := NodeKind.all.map NodeKind.tag
  ofTag? := NodeKind.ofTag?
  wanted
    | .present | .not => .tagOfOne
    | _ => .tagOfPair

def set (room : Nat) : Decoder StringSet :=
  .ofList <$> strings room

/-- Reads a node.  `operand` reads a predicate right inside the object of the node, `joined`
one inside its list. -/
def node (room : Nat) (operand joined : Decoder Predicate) : Decoder Predicate :=
  tagged nodeTags room fun kind =>
    match kind with
    | .equal => do
      let (left, right) ← pair kind (room - 1) (term (room - 2)) (term (room - 2))
      return .equal left right
    | .notEqual => do
      let (left, right) ← pair kind (room - 1) (term (room - 2)) (term (room - 2))
      return .notEqual left right
    | .oneOf => do
      let (t, s) ← pair kind (room - 1) (term (room - 2)) (set (room - 2))
      return .oneOf t s
    | .noneOf => do
      let (t, s) ← pair kind (room - 1) (term (room - 2)) (set (room - 2))
      return .noneOf t s
    | .present => return .present (← term (room - 1))
    | .not => return .not (← operand)
    | .and => do
      let (left, right) ← pair kind (room - 1) joined joined
      return .and left right
    | .or => do
      let (left, right) ← pair kind (room - 1) joined joined
      return .or left right

/-- Reads a predicate with room for a number of open containers. -/
def predicate : Nat → Decoder Predicate
  | 0 => node 0 (.fail .tooDeep) (.fail .tooDeep)
  | 1 => node 1 (.delay fun _ => predicate 0) (.fail .tooDeep)
  | room + 2 =>
    node (room + 2) (.delay fun _ => predicate (room + 1)) (.delay fun _ => predicate room)

end Json

def Term.toJson (term : Term) : String :=
  (Json.writeTerm term).string

def Term.ofJson (text : String) : Except Json.Fault Term :=
  Json.decode (Json.term Json.openLimit) text.toList

def Predicate.toJson (p : Predicate) : String :=
  (Json.writePredicate p).string

def Predicate.ofJson (text : String) : Except Json.Fault Predicate :=
  Json.decode (Json.predicate Json.openLimit) text.toList

end PredicateLanguage
