import PredicateLanguage.Proofs.Recognition
import PredicateLanguage.Proofs.Spelling
import PredicateLanguage.Proofs.Weights

/-!
# Reading canonical texts back

A predicate is read back from its canonical text exactly if it is well formed and its
parentheses nest no deeper than the limit.  Every predicate that was read from some text is of
this kind, under the limit that it was read with.
-/

namespace PredicateLanguage

variable {p : Predicate} {limit : Nat}

theorem parse_canonical (h : p.WellFormed) (hdepth : p.depth ≤ limit) :
    Predicate.parse p.canonical limit = .ok p := by
  have hderives : Derives .disjunction p p.tokens := Predicate.derives_tokens h rfl
  refine parse_of_derives (Predicate.tokenizes_canonical h) hderives ?_
  rw [Predicate.nesting_tokens h]
  exact hdepth

theorem parse_canonical_tooDeep (h : p.WellFormed) (hdepth : limit < p.depth) :
    Predicate.parse p.canonical limit = .error (.tooDeep limit) := by
  have hderives : Derives .disjunction p p.tokens := Predicate.derives_tokens h rfl
  refine parse_tooDeep_of_derives (Predicate.tokenizes_canonical h) hderives ?_
  rw [Predicate.nesting_tokens h]
  exact hdepth

/-- Whatever is read is well formed and is written with parentheses that keep to the limit. -/
theorem wellFormed_of_parse {text : String} (h : Predicate.parse text limit = .ok p) :
    p.WellFormed ∧ p.depth ≤ limit := by
  obtain ⟨ts, ⟨tail, hreads, -⟩, hderives, hnesting⟩ := exists_derives_of_parse h
  exact ⟨hderives.wellFormed hreads.proper, le_trans hderives.depth_le_nesting hnesting⟩

/-- A predicate that was read is read back from its canonical text, with the same limit. -/
theorem parse_canonical_of_parse (text : String) (limit : Nat) (p : Predicate)
    (h : Predicate.parse text limit = .ok p) :
    ∃ q, Predicate.parse p.canonical limit = .ok q ∧ q = p ∧ q.canonical = p.canonical := by
  obtain ⟨hp, hdepth⟩ := wellFormed_of_parse h
  exact ⟨p, parse_canonical hp hdepth, rfl, rfl⟩

theorem parse_canonical_of_parse_grouped :
    Predicate.parse "((a or 1)) and not not not and" 2 =
        .ok (.and (.or (.present (.var "a")) (.present (.literal "1")))
          (.not (.present (.var "and")))) ∧
      ∃ q, Predicate.parse (Predicate.and (.or (.present (.var "a")) (.present (.literal "1")))
          (.not (.present (.var "and")))).canonical 2 = .ok q ∧
        q = .and (.or (.present (.var "a")) (.present (.literal "1")))
          (.not (.present (.var "and"))) ∧
        q.canonical = "(a or '1') and not and" := by
  have h : Predicate.parse "((a or 1)) and not not not and" 2 =
      .ok (.and (.or (.present (.var "a")) (.present (.literal "1")))
        (.not (.present (.var "and")))) := by decide +kernel
  obtain ⟨q, hparse, hq, -⟩ := parse_canonical_of_parse _ 2 _ h
  exact ⟨h, q, hparse, hq, by rw [hq]; decide +kernel⟩

/-- A predicate is read back from its canonical text exactly if it is well formed and its
parentheses keep to the limit; if they nest deeper, it is refused for this reason. -/
theorem parse_canonical_iff (p : Predicate) (limit : Nat) :
    (Predicate.parse p.canonical limit = .ok p ↔ p.WellFormed ∧ p.depth ≤ limit) ∧
    (p.WellFormed → limit < p.depth →
      Predicate.parse p.canonical limit = .error (.tooDeep limit)) := by
  refine ⟨⟨wellFormed_of_parse, ?_⟩, parse_canonical_tooDeep⟩
  rintro ⟨hp, hdepth⟩
  exact parse_canonical hp hdepth

theorem parse_canonical_iff_not_not :
    Predicate.parse (Predicate.not (.not (.present (.var "in")))).canonical 1 =
        .ok (.not (.not (.present (.var "in")))) ∧
      Predicate.parse (Predicate.not (.not (.present (.var "in")))).canonical 0 =
        .error (.tooDeep 0) := by
  have hp : (Predicate.not (.not (.present (.var "in")))).WellFormed := by decide
  constructor
  · exact (parse_canonical_iff _ 1).1.mpr ⟨hp, by decide⟩
  · exact (parse_canonical_iff _ 0).2 hp (by decide)

/-- Comparisons that start with the name `not` may be read as a single negated one. -/
example : Predicate.parse
    (Predicate.or (.present (.var "not")) (.oneOf (.var "not") (.ofList ["x"]))).canonical =
      .ok (.not (.noneOf (.var "or") (.ofList ["x"]))) := by
  decide +kernel

end PredicateLanguage
