import PredicateLanguage.Evaluation.Environment
import PredicateLanguage.Json.Decoder

/-!
# Bindings in JSON

Bindings are given as an object of strings.  A key that stands twice has its last
value.
-/

namespace PredicateLanguage

namespace Json

/-- Reads a key and the string it is given. -/
def binding : Decoder (String × String) := do
  if (← ahead .object) = '"' then
    skip
    let name ← stringBody
    colon
    let value ← string
    return (name, value)
  else
    .fail .keyNotString

def bindings (room : Nat) : Decoder Bindings := do
  if (← ahead .value) = '\x7b' then
    openBracket room
    .ofList <$> content .object binding
  else
    refuse .bindings

end Json

def Bindings.ofJson (text : String) : Except Json.Fault Bindings :=
  Json.decode (Json.bindings Json.openLimit) text.toList

end PredicateLanguage
