import PredicateLanguage.Json.Tree
import PredicateLanguage.Proofs.JsonValues

/-!
# Which texts are predicates in JSON

The forms of a predicate are JSON values: an object with the tag of the node as its only key, the
two parts of a node in a list, and a set as a list of its members in any order.  A text is read
as a predicate exactly if it spells a form of it in which at most 127 containers are open at the
same time.
-/

namespace PredicateLanguage

open Json

/-! ## Forms -/

/-- The form of a term. -/
def Term.form : Term → Value
  | literal value => .tagged "literal" (.string value)
  | var name => .tagged "variable" (.string name)

/-- A form of a set is a list of its members, in any order and each as often as one likes. -/
def StringSet.IsForm (set : StringSet) (v : Value) : Prop :=
  ∃ strings : List String, (∀ s, s ∈ set ↔ s ∈ strings) ∧ v = .list (strings.map .string)

namespace Predicate

/-- The value is a form of the predicate. -/
inductive IsForm : Predicate → Value → Prop
  | equal (left right : Term) :
      IsForm (.equal left right) (.tagged "equal" (.list [left.form, right.form]))
  | notEqual (left right : Term) :
      IsForm (.notEqual left right) (.tagged "not_equal" (.list [left.form, right.form]))
  | oneOf (term : Term) {set : StringSet} {members : Value} (h : set.IsForm members) :
      IsForm (.oneOf term set) (.tagged "in" (.list [term.form, members]))
  | noneOf (term : Term) {set : StringSet} {members : Value} (h : set.IsForm members) :
      IsForm (.noneOf term set) (.tagged "not_in" (.list [term.form, members]))
  | present (term : Term) : IsForm (.present term) (.tagged "truthy" term.form)
  | not {operand : Predicate} {v : Value} (h : IsForm operand v) :
      IsForm (.not operand) (.tagged "not" v)
  | and {left right : Predicate} {v w : Value} (hleft : IsForm left v) (hright : IsForm right w) :
      IsForm (.and left right) (.tagged "and" (.list [v, w]))
  | or {left right : Predicate} {v w : Value} (hleft : IsForm left v) (hright : IsForm right w) :
      IsForm (.or left right) (.tagged "or" (.list [v, w]))

/-! ## Forms by their tags -/

section Content

variable {α β : Type}

/-- The predicate is made of two parts, and the value lists forms of them. -/
def IsPair (make : α → β → Predicate) (form : α → Value → Prop) (form' : β → Value → Prop)
    (p : Predicate) (content : Value) : Prop :=
  ∃ xy : α × β, p = make xy.1 xy.2 ∧
    ∃ v w, form xy.1 v ∧ form' xy.2 w ∧ content = .list [v, w]

/-- The value is what stands behind the tag of a kind of node in a form of the predicate. -/
def IsContent : NodeKind → Predicate → Value → Prop
  | .equal => IsPair equal (fun t v => v = t.form) fun t v => v = t.form
  | .notEqual => IsPair notEqual (fun t v => v = t.form) fun t v => v = t.form
  | .oneOf => IsPair oneOf (fun t v => v = t.form) StringSet.IsForm
  | .noneOf => IsPair noneOf (fun t v => v = t.form) StringSet.IsForm
  | .present => fun p content => ∃ term, p = present term ∧ content = term.form
  | .not => fun p content => ∃ operand, p = not operand ∧ operand.IsForm content
  | .and => IsPair and IsForm IsForm
  | .or => IsPair or IsForm IsForm

theorem isForm_iff_isContent {p : Predicate} {v : Value} :
    p.IsForm v ↔ ∃ k content, IsContent k p content ∧ v = .tagged k.tag content := by
  constructor
  · intro h
    cases h with
    | equal left right => exact ⟨.equal, _, ⟨(left, right), rfl, _, _, rfl, rfl, rfl⟩, rfl⟩
    | notEqual left right => exact ⟨.notEqual, _, ⟨(left, right), rfl, _, _, rfl, rfl, rfl⟩, rfl⟩
    | oneOf term h => exact ⟨.oneOf, _, ⟨(term, _), rfl, _, _, rfl, h, rfl⟩, rfl⟩
    | noneOf term h => exact ⟨.noneOf, _, ⟨(term, _), rfl, _, _, rfl, h, rfl⟩, rfl⟩
    | present term => exact ⟨.present, _, ⟨term, rfl, rfl⟩, rfl⟩
    | not h => exact ⟨.not, _, ⟨_, rfl, h⟩, rfl⟩
    | and hleft hright => exact ⟨.and, _, ⟨(_, _), rfl, _, _, hleft, hright, rfl⟩, rfl⟩
    | or hleft hright => exact ⟨.or, _, ⟨(_, _), rfl, _, _, hleft, hright, rfl⟩, rfl⟩
  · rintro ⟨k, content, h, rfl⟩
    cases k with
    | equal =>
        obtain ⟨⟨left, right⟩, rfl, _, _, rfl, rfl, rfl⟩ := h
        exact .equal left right
    | notEqual =>
        obtain ⟨⟨left, right⟩, rfl, _, _, rfl, rfl, rfl⟩ := h
        exact .notEqual left right
    | oneOf =>
        obtain ⟨⟨term, set⟩, rfl, _, _, rfl, h, rfl⟩ := h
        exact .oneOf term h
    | noneOf =>
        obtain ⟨⟨term, set⟩, rfl, _, _, rfl, h, rfl⟩ := h
        exact .noneOf term h
    | present =>
        obtain ⟨term, rfl, rfl⟩ := h
        exact .present term
    | not =>
        obtain ⟨operand, rfl, h⟩ := h
        exact .not h
    | and =>
        obtain ⟨⟨left, right⟩, rfl, _, _, hleft, hright, rfl⟩ := h
        exact .and hleft hright
    | or =>
        obtain ⟨⟨left, right⟩, rfl, _, _, hleft, hright, rfl⟩ := h
        exact .or hleft hright

end Content

end Predicate

theorem NodeKind.ofTag?_eq_some_iff {tag : String} {k : NodeKind} :
    ofTag? tag = some k ↔ tag = k.tag := by
  constructor
  · intro h
    have hfound := List.find?_some h
    simp only [decide_eq_true_eq] at hfound
    exact hfound.symm
  · rintro rfl
    exact ofTag?_tag k

namespace Json

variable {α β : Type} {room : Nat}

/-! ## Terms and sets -/

theorem decodesForm_term (room : Nat) : DecodesForm (term room) room fun t v => v = t.form := by
  have hcontent (make : String → Term) (_ : 0 < room) :
      DecodesForm (make <$> string) (room - 1) fun t v => ∃ x, t = make x ∧ v = .string x :=
    (decodesForm_string (room - 1)).map make
  refine (decodesForm_tagged _ hcontent).congr fun t v => ?_
  constructor
  · rintro ⟨tag, make, content, htag, ⟨x, rfl, rfl⟩, rfl⟩
    simp only [termTags] at htag
    split at htag
    · rename_i hliteral
      obtain rfl := Option.some.inj htag
      rw [hliteral]
      rfl
    · split at htag
      · rename_i hvariable
        obtain rfl := Option.some.inj htag
        rw [hvariable]
        rfl
      · contradiction
  · rintro rfl
    cases t with
    | literal value => exact ⟨literalTag, Term.literal, .string value, rfl, ⟨value, rfl, rfl⟩, rfl⟩
    | var name => exact ⟨variableTag, Term.var, .string name, rfl, ⟨name, rfl, rfl⟩, rfl⟩

theorem decodesForm_set (room : Nat) : DecodesForm (set room) room StringSet.IsForm := by
  refine ((decodesForm_strings room).map StringSet.ofList).congr fun set v => ?_
  constructor
  · rintro ⟨strings, rfl, rfl⟩
    exact ⟨strings, fun s => StringSet.mem_ofList, rfl⟩
  · rintro ⟨strings, hmem, rfl⟩
    refine ⟨strings, StringSet.ext fun s => ?_, rfl⟩
    rw [hmem, StringSet.mem_ofList]

/-! ## Predicates -/

/-- The parts of a node are read two levels below it. -/
theorem decodesForm_paired {kind : NodeKind} {first : Decoder α} {second : Decoder β}
    {make : α → β → Predicate} {form : α → Value → Prop} {form' : β → Value → Prop}
    (hfirst : 1 < room → DecodesForm first (room - 2) form)
    (hsecond : 1 < room → DecodesForm second (room - 2) form') :
    DecodesForm (do
        let (x, y) ← pair kind (room - 1) first second
        return make x y) (room - 1) (Predicate.IsPair make form form') := by
  have hbelow : 0 < room - 1 → 1 < room := by omega
  have hpair : DecodesForm (pair kind (room - 1) first second) (room - 1) fun xy v =>
      ∃ a b, form xy.1 a ∧ form' xy.2 b ∧ v = .list [a, b] :=
    decodesForm_pair (fun h => hfirst (hbelow h)) fun h => hsecond (hbelow h)
  exact hpair.map fun xy => make xy.1 xy.2

theorem decodesForm_node {operand joined : Decoder Predicate}
    (hoperand : 0 < room → DecodesForm operand (room - 1) Predicate.IsForm)
    (hjoined : 1 < room → DecodesForm joined (room - 2) Predicate.IsForm) :
    DecodesForm (node room operand joined) room Predicate.IsForm := by
  have hterm := decodesForm_term (room - 2)
  have hset := decodesForm_set (room - 2)
  rw [node]
  -- The tag says what is read behind it, so the cases are the kinds of nodes.
  refine (decodesForm_tagged Predicate.IsContent fun k hroom => ?_).congr fun p v => ?_
  · cases k with
    | equal => exact decodesForm_paired (fun _ => hterm) fun _ => hterm
    | notEqual => exact decodesForm_paired (fun _ => hterm) fun _ => hterm
    | oneOf => exact decodesForm_paired (fun _ => hterm) fun _ => hset
    | noneOf => exact decodesForm_paired (fun _ => hterm) fun _ => hset
    | present => exact (decodesForm_term (room - 1)).map Predicate.present
    | not => exact (hoperand hroom).map Predicate.not
    | and => exact decodesForm_paired hjoined hjoined
    | or => exact decodesForm_paired hjoined hjoined
  · rw [Predicate.isForm_iff_isContent]
    constructor
    · rintro ⟨tag, k, content, htag, h, rfl⟩
      obtain rfl := NodeKind.ofTag?_eq_some_iff.mp htag
      exact ⟨k, content, h, rfl⟩
    · rintro ⟨k, content, h, rfl⟩
      exact ⟨k.tag, k, content, NodeKind.ofTag?_tag k, h, rfl⟩

/-- Predicates are read from the spellings of their forms, as far as there is room. -/
theorem decodesForm_predicate (room : Nat) :
    DecodesForm (predicate room) room Predicate.IsForm := by
  -- An operand has one level less than the node, a joined predicate has two less.
  induction room using Nat.strongRecOn with
  | ind room ih =>
      obtain ⟨operand, joined, heq, hoperand, hjoined⟩ := predicate_eq_node room
      rw [heq]
      refine decodesForm_node (fun hroom => ?_) fun hroom => ?_
      · rw [hoperand hroom]
        exact ih _ (by omega)
      · rw [hjoined hroom]
        exact ih _ (by omega)

end Json

/-- A text is read as a predicate exactly if it spells a form of the predicate, with blanks around
it, in which at most 127 containers are open at the same time. -/
theorem Predicate.ofJson_eq_ok_iff (text : String) (p : Predicate) :
    Predicate.ofJson text = .ok p ↔
      ∃ v : Value, p.IsForm v ∧ v.depth ≤ 127 ∧
        text.toList ∈ Json.blanks * v.texts * Json.blanks :=
  (Json.decodesForm_predicate Json.openLimit).decode_eq_ok_iff

end PredicateLanguage
