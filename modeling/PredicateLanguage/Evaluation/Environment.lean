import PredicateLanguage.Predicate.Basic

/-!
# Environments

An environment gives strings to names.  A name that it gives nothing reads as the
empty string.
-/

namespace PredicateLanguage

abbrev Environment := String → Option String

/-- The string that a name reads as. -/
def Environment.read (env : Environment) (name : String) : String :=
  (env name).getD ""

/-- Strings given to names one after the other, the latest first. -/
structure Bindings where
  entries : List (String × String)

namespace Bindings

def empty : Bindings :=
  ⟨[]⟩

instance : EmptyCollection Bindings := ⟨empty⟩

/-- Gives a string to a name, in place of what it was given before. -/
def bind (b : Bindings) (name value : String) : Bindings :=
  ⟨(name, value) :: b.entries⟩

/-- The string that a name was given last. -/
def lookup (b : Bindings) : Environment :=
  fun name => b.entries.lookup name

@[simp]
theorem lookup_empty (name : String) : (∅ : Bindings).lookup name = none := rfl

theorem lookup_bind (b : Bindings) (name value other : String) :
    (b.bind name value).lookup other = if other = name then some value else b.lookup other := by
  simp only [lookup, bind, List.lookup_cons]
  by_cases h : other = name
  · simp [h]
  · rw [beq_eq_false_iff_ne.2 h, if_neg h]

/-- Gives strings to names in the order of a list. -/
def bindAll (b : Bindings) (pairs : List (String × String)) : Bindings :=
  pairs.foldl (fun b (name, value) => b.bind name value) b

/-- The bindings of a list, where a later pair takes the place of an earlier one. -/
def ofList (pairs : List (String × String)) : Bindings :=
  bindAll ∅ pairs

end Bindings

def Term.resolve (env : Environment) : Term → String
  | literal value => value
  | var name => env.read name

end PredicateLanguage
