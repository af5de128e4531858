import PredicateLanguage.Predicate.Basic
import PredicateLanguage.Text.Quoted

/-!
# Faults of JSON texts

Why a JSON text is not of the form that is wanted, and how that is said.  A text is
read once from left to right and the first fault ends the reading.
-/

namespace PredicateLanguage.Json

/-- What a text can break off in. -/
inductive Part where
  | value
  | list
  | object
  | string
  deriving DecidableEq

/-- What stands where something else is wanted. -/
inductive Shape where
  | null
  | boolean (value : Bool)
  | integer (value : Int)
  /-- A number with a fraction or an exponent, or beyond the integers, as it is shown. -/
  | float (shown : String)
  | string (value : String)
  | list
  | object
  /-- A tag without the content that belongs to it. -/
  | bareTag
  deriving DecidableEq

inductive Wanted where
  | string
  | strings
  | bindings
  /-- The two parts of a node. -/
  | pair (kind : NodeKind)
  /-- A tag whose content is a pair. -/
  | tagOfPair
  /-- A tag with a single content. -/
  | tagOfOne
  deriving DecidableEq

/-- Why a text is not of the form that is wanted. -/
inductive Fault where
  | endOfText (within : Part)
  | valueExpected
  | colonExpected
  | listGoesOn
  | objectGoesOn
  | wordExpected
  | keyNotString
  | trailingComma
  | trailingText
  | malformedNumber
  | numberTooLarge
  | unknownEscape
  | loneSurrogate
  | halfSurrogatePair
  | controlCharacter
  | tooDeep
  | unknownTag (tag : String) (known : List String)
  | wrongType (found : Shape) (wanted : Wanted)
  | tooShort (found : Nat) (kind : NodeKind)
  deriving DecidableEq

def Part.describe : Part → String
  | value => "a value"
  | list => "a list"
  | object => "an object"
  | string => "a string"

def ticked (text : String) : String :=
  "\x60" ++ text ++ "\x60"

def Shape.describe : Shape → String
  | null => "null"
  | boolean value => "boolean " ++ ticked (if value then "true" else "false")
  | integer value => "integer " ++ ticked (toString value)
  | float shown => "floating point " ++ ticked shown
  | string value => "string " ++ showQuoted value
  | list => "sequence"
  | object => "map"
  | bareTag => "unit variant"

def pairName : NodeKind → String
  | .equal => "Equal"
  | .notEqual => "NotEqual"
  | .oneOf => "In"
  | .noneOf => "NotIn"
  | .present => "Truthy"
  | .not => "Not"
  | .and => "And"
  | .or => "Or"

def Wanted.describe : Wanted → String
  | string => "a string"
  | strings => "a sequence"
  | bindings => "a map"
  | pair kind => "tuple variant Expression::" ++ pairName kind
  | tagOfPair => "tuple variant"
  | tagOfOne => "newtype variant"

/-- How messages list the tags that are known. -/
def describeKnown : List String → String
  | [s] => ticked s
  | [s, t] => ticked s ++ " or " ++ ticked t
  | tags => "one of " ++ ", ".intercalate (tags.map ticked)

def Fault.message : Fault → String
  | endOfText part => "EOF while parsing " ++ part.describe
  | valueExpected => "expected value"
  | colonExpected => "expected " ++ ticked ":"
  | listGoesOn => "expected " ++ ticked "," ++ " or " ++ ticked "]"
  | objectGoesOn => "expected " ++ ticked "," ++ " or " ++ ticked "\x7d"
  | wordExpected => "expected ident"
  | keyNotString => "key must be a string"
  | trailingComma => "trailing comma"
  | trailingText => "trailing characters"
  | malformedNumber => "invalid number"
  | numberTooLarge => "number out of range"
  | unknownEscape => "invalid escape"
  | loneSurrogate => "lone leading surrogate in hex escape"
  | halfSurrogatePair => "unexpected end of hex escape"
  | controlCharacter =>
    "control character (\\u0000-\\u001F) found while parsing a string"
  | tooDeep => "recursion limit exceeded"
  | unknownTag tag known =>
    "unknown variant " ++ ticked tag ++ ", expected " ++ describeKnown known
  | wrongType found wanted =>
    "invalid type: " ++ found.describe ++ ", expected " ++ wanted.describe
  | tooShort found kind =>
    "invalid length " ++ found.repr ++ ", expected " ++ (Wanted.pair kind).describe ++
      " with 2 elements"

/-- How a fault is told of a text that is no predicate. -/
def Fault.report (fault : Fault) : String :=
  "Serialization error: " ++ fault.message

end PredicateLanguage.Json
