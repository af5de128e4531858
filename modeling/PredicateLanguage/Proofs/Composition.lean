import PredicateLanguage.Proofs.Fronts
import PredicateLanguage.Proofs.Recognition
import PredicateLanguage.Proofs.Regrouping

/-!
# Predicates that are put together as texts

The texts of predicates can be put in parentheses and joined by operators, and the text that
results is read as the predicates are joined, with one more level of parentheses.  If two texts
are joined by `or` without parentheses, the chains that they may consist of become a single one.
It is grouped in another way than the joined predicates, but it evaluates as they do.
-/

namespace PredicateLanguage

variable {layer lower upper : Layer} {limit : Nat} {text text' : List Char} {p q : Predicate}
  {ts us : List Token}

/-! ## Tokens of joined texts -/

namespace Tokenizes

theorem group (h : Tokenizes text ts) :
    Tokenizes ('(' :: (text ++ [')']))
      (Symbol.openParen.token :: (ts ++ [Symbol.closeParen.token])) := by
  have hclose : Tokenizes [')'] [Symbol.closeParen.token] :=
    ⟨[], Reads.mark (s := .closeParen) rfl [], by simp⟩
  exact .prepend (Reads.mark (s := .openParen) rfl _) (h.append rfl hclose)

theorem behind_space (h : Tokenizes text ts) : Tokenizes (' ' :: text) ts :=
  .behind_spaces (List.forall_mem_singleton.mpr rfl) h

/-- A keyword or mark in front of a space. -/
theorem behind_symbol (s : Symbol) (h : Tokenizes text ts) :
    Tokenizes (s.text.toList ++ ' ' :: text) (s.token :: ts) :=
  .prepend (Spells.symbol s _ rfl) h.behind_space

theorem operator (s : Symbol) (h : Tokenizes text ts) (h' : Tokenizes text' us) :
    Tokenizes (text ++ ' ' :: (s.text.toList ++ ' ' :: text')) (ts ++ s.token :: us) :=
  h.append rfl (h'.behind_symbol s).behind_space

end Tokenizes

/-! ## Texts of a layer -/

/-- The text is cut into tokens from which the layer derives the predicate, and they keep to the
limit. -/
def Layer.Accepts (layer : Layer) (limit : Nat) (text : List Char) (p : Predicate) : Prop :=
  ∃ ts, Tokenizes text ts ∧ Derives layer p ts ∧ nesting ts ≤ limit

theorem parse_eq_ok_iff_accepts {text : String} :
    Predicate.parse text limit = .ok p ↔ Layer.disjunction.Accepts limit text.toList p := by
  constructor
  · exact exists_derives_of_parse
  · rintro ⟨ts, htokens, hts, hnesting⟩
    exact parse_of_derives htokens hts hnesting

namespace Layer.Accepts

/-- A negation is accepted by every layer. -/
theorem lift (h : Layer.negation.Accepts limit text p) (layer : Layer) :
    layer.Accepts limit text p := by
  obtain ⟨ts, htokens, hts, hnesting⟩ := h
  exact ⟨ts, htokens, hts.lift layer, hnesting⟩

theorem group (h : Layer.disjunction.Accepts limit text p) :
    Layer.negation.Accepts (limit + 1) ('(' :: (text ++ [')'])) p := by
  obtain ⟨ts, htokens, hts, hnesting⟩ := h
  refine ⟨_, htokens.group, Derives.group 0 hts, ?_⟩
  rw [hts.nests.group.nesting_eq]
  exact Nat.succ_le_succ hnesting

theorem not_group (h : Layer.disjunction.Accepts limit text p) :
    Layer.negation.Accepts (limit + 1)
      (Symbol.not.text.toList ++ ' ' :: '(' :: (text ++ [')'])) (.not p) := by
  obtain ⟨ts, htokens, hts, hnesting⟩ := h
  refine ⟨_, htokens.group.behind_symbol .not, Derives.group 1 hts, ?_⟩
  have hnots := (hts.nests.group.behind_nots 1).nesting_eq
  rw [List.replicate_one, List.singleton_append] at hnots
  rw [hnots]
  exact Nat.succ_le_succ hnesting

/-- A single operand is a chain. -/
theorem single {operator : Symbol} {join : Predicate → Predicate → Predicate}
    (hjoins : Joins operator join lower upper) (h : lower.Accepts limit text p) :
    upper.Accepts limit text p := by
  obtain ⟨ts, htokens, hts, hnesting⟩ := h
  exact ⟨ts, htokens, hjoins.single hts, hnesting⟩

/-- Texts with an operator between them are read as the predicates that it joins. -/
theorem join {operator : Symbol} {join : Predicate → Predicate → Predicate}
    (hjoins : Joins operator join lower upper) (hp : lower.Accepts limit text p)
    (hq : upper.Accepts limit text' q) :
    upper.Accepts limit (text ++ ' ' :: (operator.text.toList ++ ' ' :: text')) (join p q) := by
  obtain ⟨ts, htokens, hts, hnesting⟩ := hp
  obtain ⟨us, htokens', hus, hnesting'⟩ := hq
  refine ⟨_, htokens.operator operator htokens', hjoins.joined hts hus, ?_⟩
  rw [hjoins.nesting_eq hts hus]
  exact Nat.max_le.mpr ⟨hnesting, hnesting'⟩

end Layer.Accepts

/-! ## Chains in a row -/

/-- An operator between two chains makes a single chain of them, which is grouped to the right
from the first operand on. -/
theorem Derives.exists_or (hp : Derives .disjunction p ts) (hq : Derives .disjunction q us) :
    ∃ r, Derives .disjunction r (ts ++ Symbol.or.token :: us) ∧ Regroups r (.or p q) := by
  -- Along the left chain: its last operand is joined to the right chain, then those before it.
  generalize hlayer : Layer.disjunction = layer at hp
  induction hp with
  | comparison | group | negation | and => contradiction
  | conjunction hp => exact ⟨_, .or hp hq, .refl _⟩
  | @or p p' ts ts' hp _ _ ihr =>
      obtain ⟨r, hr, hregroups⟩ := ihr rfl
      refine ⟨.or p r, ?_, ?_⟩
      · rw [List.append_assoc, List.cons_append]
        exact .or hp hr
      · exact (Regroups.or (.refl p) hregroups).trans (.symm (.or_assoc p p' q))

theorem Layer.Accepts.exists_or (hp : Layer.disjunction.Accepts limit text p)
    (hq : Layer.disjunction.Accepts limit text' q) :
    ∃ r, Layer.disjunction.Accepts limit
      (text ++ ' ' :: (Symbol.or.text.toList ++ ' ' :: text')) r ∧ Regroups r (.or p q) := by
  obtain ⟨ts, htokens, hts, hnesting⟩ := hp
  obtain ⟨us, htokens', hus, hnesting'⟩ := hq
  obtain ⟨r, hr, hregroups⟩ := hts.exists_or hus
  refine ⟨r, ⟨_, htokens.operator .or htokens', hr, ?_⟩, hregroups⟩
  have hor : Nests (nesting us) (Symbol.or.token :: us) := hus.nests.cons fun _ => rfl
  rw [(hts.nests.append hor).nesting_eq]
  exact Nat.max_le.mpr ⟨hnesting, hnesting'⟩

theorem Regroups.evaluate_eq_or {r : Predicate} (h : Regroups r (.or p q)) (env : Environment) :
    r.evaluate env = ⟨(p.evaluate env).value || (q.evaluate env).value,
      (p.evaluate env).lookups ++
        if (p.evaluate env).value then [] else (q.evaluate env).lookups⟩ := by
  simp only [Predicate.evaluate, Predicate.evaluateUnder_eq, Bool.bne_false]
  rw [h.holds_eq env, h.consulted_eq env]
  rfl

/-! ## Texts of predicates -/

/-- Texts of predicates in parentheses are read as the predicates joined, with one more level.  In
a chain of `or` they need no parentheses, since only the grouping depends on them: the right text
is evaluated where the left one is false, and behind it. -/
theorem parse_composed {left right : String} {limit : Nat} {p q : Predicate}
    (hp : Predicate.parse left limit = .ok p) (hq : Predicate.parse right limit = .ok q) :
    Predicate.parse ("(" ++ left ++ ")") (limit + 1) = .ok p ∧
      Predicate.parse ("not (" ++ left ++ ")") (limit + 1) = .ok (.not p) ∧
      Predicate.parse ("(" ++ left ++ ") and (" ++ right ++ ")") (limit + 1) = .ok (.and p q) ∧
      Predicate.parse ("(" ++ left ++ ") or (" ++ right ++ ")") (limit + 1) = .ok (.or p q) ∧
      ∃ r, Predicate.parse (left ++ " or " ++ right) limit = .ok r ∧
        ∀ env, r.evaluate env = ⟨(p.evaluate env).value || (q.evaluate env).value,
          (p.evaluate env).lookups ++
            if (p.evaluate env).value then [] else (q.evaluate env).lookups⟩ := by
  simp only [parse_eq_ok_iff_accepts] at hp hq ⊢
  refine ⟨?_, ?_, ?_, ?_, ?_⟩
  · simpa using hp.group.lift .disjunction
  · simpa [Symbol.text] using hp.not_group.lift .disjunction
  · have hand := (hp.group.join joins_and (hq.group.lift .conjunction)).single joins_or
    simpa [Symbol.text] using hand
  · have hor := (hp.group.lift .conjunction).join joins_or (hq.group.lift .disjunction)
    simpa [Symbol.text] using hor
  · obtain ⟨r, hr, hregroups⟩ := hp.exists_or hq
    refine ⟨r, ?_, hregroups.evaluate_eq_or⟩
    simpa [Symbol.text] using hr

/-- Two chains of `or` become one chain of four operands.  It is evaluated up to the third of them,
which is the first that is true. -/
theorem parse_composed_chains :
    let left := "a or b"
    let right := "c or not d"
    let p := Predicate.or (.present (.var "a")) (.present (.var "b"))
    let q := Predicate.or (.present (.var "c")) (.not (.present (.var "d")))
    Predicate.parse left 0 = .ok p ∧ Predicate.parse right 0 = .ok q ∧
      Predicate.parse ("(" ++ left ++ ")") 1 = .ok p ∧
      Predicate.parse ("not (" ++ left ++ ")") 1 = .ok (.not p) ∧
      Predicate.parse ("(" ++ left ++ ") and (" ++ right ++ ")") 1 = .ok (.and p q) ∧
      Predicate.parse ("(" ++ left ++ ") or (" ++ right ++ ")") 1 = .ok (.or p q) ∧
      ∃ r, Predicate.parse (left ++ " or " ++ right) 0 = .ok r ∧
        r.evaluate (Bindings.ofList [("c", "x")]).lookup = ⟨true, ["a", "b", "c"]⟩ := by
  intro left right p q
  have hp : Predicate.parse left 0 = .ok p := by decide +kernel
  have hq : Predicate.parse right 0 = .ok q := by decide +kernel
  obtain ⟨hgroup, hnot, hand, hor, r, hr, hevaluate⟩ := parse_composed hp hq
  refine ⟨hp, hq, hgroup, hnot, hand, hor, r, hr, ?_⟩
  rw [hevaluate]
  decide

end PredicateLanguage
