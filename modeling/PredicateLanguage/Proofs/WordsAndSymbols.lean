import PredicateLanguage.Proofs.OperatorOrder
import PredicateLanguage.Proofs.ScannerRuns

/-!
# Words and symbols

A symbol is looked for by its spelling and at most one byte behind it, a name and a literal by going
on as far as there are bytes of a word.  None of these scans knows of the others.  But wherever a
scanner stands between two characters at most one token comes next, and all of them tell which it
is.
-/

namespace PredicateLanguage

namespace Grammar

open Rule

variable {c d : Cursor} {s : Symbol} {name : String}

/-- A keyword comes next exactly where its spelling is read as a name. -/
theorem next_keyword_iff (hs : s.isKeyword = true) :
    Next c s.token d ↔ identifier.Matches c s.text d := by
  have htoken : s.token = .word s.text := if_pos hs
  have halpha : s.text.toList.head?.any Char.isAlpha = true := by
    revert hs
    cases s <;> decide
  rw [matches_identifier, htoken]
  exact (and_iff_left halpha).symm

theorem matches_literal_of_identifier (h : identifier.Matches c name d) :
    literal.Matches c name d :=
  matches_literal.mpr (Or.inl (matches_identifier.mp h).1)

theorem fails_literal_of_mark (hs : s.isKeyword = false) (h : Next c s.token d) :
    literal.Fails c := by
  have htoken : s.token = .mark s := if_neg (ne_true_of_eq_false hs)
  rw [htoken] at h
  refine fails_iff.mpr fun value d' hvalue => ?_
  rcases matches_literal.mp hvalue with hword | hquoted
  · exact Token.noConfusion (h.unique hword).1
  · exact Token.noConfusion (h.unique hquoted).1

theorem fails_identifier_of_mark (hs : s.isKeyword = false) (h : Next c s.token d) :
    identifier.Fails c := by
  refine fails_iff.mpr fun name d' hname => ?_
  exact (fails_literal_of_mark hs h).not_matches (matches_literal_of_identifier hname)

theorem matches_eat_true : (eat s).Matches c true d ↔ Next c s.token d := by
  rw [matches_eat]
  simp

end Grammar

namespace Scanner

variable {s t : Scanner}

/-! ## What failed before -/

/-- The scanner as if the furthest place at which a scan failed were another one. -/
def recalling (place : Nat) (s : Scanner) : Scanner :=
  { s with furthest := place }

section Recalling

variable (place start stop : Nat) (p : UInt8 → Bool)

@[simp]
theorem position_recalling : (s.recalling place).position = s.position := rfl

@[simp]
theorem length_recalling : (s.recalling place).length = s.length := rfl

@[simp]
theorem byteAt?_recalling : (s.recalling place).byteAt? = s.byteAt? := rfl

@[simp]
theorem slice?_recalling : (s.recalling place).slice? start stop = s.slice? start stop := rfl

@[simp]
theorem moveTo_recalling : (s.recalling place).moveTo stop = (s.moveTo stop).recalling place := rfl

@[simp]
theorem missFrom_recalling :
    (s.recalling place).missFrom start = (s.missFrom start).recalling (max place s.position) := rfl

@[simp]
theorem skipWhile_recalling :
    (s.recalling place).skipWhile p = (s.skipWhile p).recalling place := by
  rw [skipWhile_eq, skipWhile_eq]
  rfl

@[simp]
theorem skipSpaces_recalling : (s.recalling place).skipSpaces = s.skipSpaces.recalling place :=
  skipWhile_recalling place isSpaceByte

/-- No scan looks at where others failed. -/
theorem exists_eat_recalling {symbol : Symbol} {found : Bool}
    (h : s.eat symbol = some (found, t)) :
    ∃ place', (s.recalling place).eat symbol = some (found, t.recalling place') := by
  obtain ⟨rest, hrest, h⟩ := Option.bind_eq_some_iff.mp h
  simp only [eat, skipSpaces_recalling, position_recalling, length_recalling, slice?_recalling,
    byteAt?_recalling, moveTo_recalling, missFrom_recalling, hrest, Option.bind_eq_bind,
    Option.bind_some]
  dsimp only at h
  split at h
  · rename_i hopens
    obtain ⟨rfl, rfl⟩ := Prod.mk.inj (Option.some.inj h)
    exact ⟨place, if_pos hopens⟩
  · rename_i hopens
    obtain ⟨rfl, rfl⟩ := Prod.mk.inj (Option.some.inj h)
    exact ⟨_, if_neg hopens⟩

theorem exists_identifier_recalling {name : Option String}
    (h : s.identifier = some (name, t)) :
    ∃ place', (s.recalling place).identifier = some (name, t.recalling place') := by
  simp only [identifier, skipSpaces_recalling, position_recalling, byteAt?_recalling,
    skipWhile_recalling, slice?_recalling, missFrom_recalling]
  rw [identifier] at h
  dsimp only at h
  split at h
  · rename_i hletter
    obtain ⟨value, hvalue, h⟩ := Option.bind_eq_some_iff.mp h
    obtain ⟨rfl, rfl⟩ := Prod.mk.inj (Option.some.inj h)
    rw [if_pos hletter, hvalue]
    exact ⟨place, rfl⟩
  · rename_i hletter
    obtain ⟨rfl, rfl⟩ := Prod.mk.inj (Option.some.inj h)
    exact ⟨_, if_neg hletter⟩

theorem exists_literal_recalling {value : Option String}
    (h : s.literal = some (value, t)) :
    ∃ place', (s.recalling place).literal = some (value, t.recalling place') := by
  simp only [literal, skipSpaces_recalling, position_recalling, length_recalling,
    byteAt?_recalling, skipWhile_recalling, slice?_recalling, moveTo_recalling,
    missFrom_recalling]
  rw [literal] at h
  dsimp only at h
  split at h
  · rename_i hquote
    obtain ⟨inside, hinside, h⟩ := Option.bind_eq_some_iff.mp h
    rw [if_pos hquote, hinside, Option.bind_eq_bind, Option.bind_some]
    split at h
    · obtain ⟨text, htext, h⟩ := Option.bind_eq_some_iff.mp h
      obtain ⟨rfl, rfl⟩ := Prod.mk.inj (Option.some.inj h)
      rw [htext]
      exact ⟨place, rfl⟩
    · obtain ⟨rfl, rfl⟩ := Prod.mk.inj (Option.some.inj h)
      exact ⟨_, rfl⟩
  · rename_i hquote
    rw [if_neg hquote]
    split at h
    · rename_i hstays
      obtain ⟨rfl, rfl⟩ := Prod.mk.inj (Option.some.inj h)
      exact ⟨_, if_pos hstays⟩
    · rename_i hstays
      obtain ⟨text, htext, h⟩ := Option.bind_eq_some_iff.mp h
      obtain ⟨rfl, rfl⟩ := Prod.mk.inj (Option.some.inj h)
      rw [if_neg hstays, htext]
      exact ⟨place, rfl⟩

end Recalling

/-- Where something is found, only the position changes. -/
theorem Outcome.eq_moveTo {input : String} {x : Step input} {answer : Answer}
    (h : s.Outcome x answer t) (hfound : answer.missed = false) : t = s.moveTo t.position := by
  obtain ⟨text, position, furthest⟩ := t
  obtain rfl : text = s.input := h.input_eq
  obtain rfl : furthest = s.furthest := h.kept hfound
  rfl

end Scanner

/-! ## Scans and rules -/

namespace Reader

open Grammar Rule

variable {α : Type} {r : Reader} {s t : Scanner} {rule : Rule α} {x : α} {d : Cursor}

theorem read_eq_some_iff : (r.read rule).1 = some x ↔ ∃ d, rule.Matches r.cursor x d := by
  change (rule.run r.cursor).outcome.map Prod.fst = some x ↔ _
  rw [Option.map_eq_some_iff]
  constructor
  · rintro ⟨⟨y, d⟩, hy, rfl⟩
    exact ⟨d, hy⟩
  · rintro ⟨d, hx⟩
    exact ⟨(x, d), hx, rfl⟩

theorem read_eq_none_iff : (r.read rule).1 = none ↔ rule.Fails r.cursor :=
  Option.map_eq_none_iff

theorem position_read_of_matches (h : rule.Matches r.cursor x d) :
    (r.read rule).2.position = r.offsetOf d := by
  change r.offsetOf ((rule.run r.cursor).cursorFrom r.cursor) = r.offsetOf d
  rw [h.run_eq]
  rfl

/-- The reader stands where the scanner does, in the same text. -/
structure StandsAt (r : Reader) (s : Scanner) : Prop where
  text_eq : r.text = s.input
  position_eq : r.position = s.position

theorem exists_standsAt (h : s.Between s.position) : ∃ r : Reader, r.StandsAt s := by
  have htext : (ofText s.input).text = s.input := String.ofList_toList
  rw [Scanner.Between, ← htext] at h
  obtain ⟨c, hc, -, hplace⟩ := exists_moveToOffset? h
  exact ⟨(ofText s.input).moveTo c hc, htext, hplace⟩

namespace StandsAt

theorem recalling_scanner (h : r.StandsAt s) : r.scanner.recalling s.furthest = s := by
  obtain ⟨input, position, furthest⟩ := s
  obtain ⟨rfl, rfl⟩ := h
  rfl

theorem exists_eat (h : r.StandsAt s) (symbol : Symbol) :
    ∃ t, s.eat symbol = some ((r.read (eat symbol)).1.getD false, t) ∧
      t.position = (r.read (eat symbol)).2.position := by
  obtain ⟨place, hscan⟩ := Scanner.exists_eat_recalling s.furthest (r.eat_scanner symbol)
  rw [h.recalling_scanner] at hscan
  exact ⟨_, hscan, rfl⟩

theorem exists_identifier (h : r.StandsAt s) :
    ∃ t, s.identifier = some ((r.read identifier).1, t) ∧
      t.position = (r.read identifier).2.position := by
  obtain ⟨place, hscan⟩ := Scanner.exists_identifier_recalling s.furthest r.identifier_scanner
  rw [h.recalling_scanner] at hscan
  exact ⟨_, hscan, rfl⟩

theorem exists_literal (h : r.StandsAt s) :
    ∃ t, s.literal = some ((r.read literal).1, t) ∧ t.position = (r.read literal).2.position := by
  obtain ⟨place, hscan⟩ := Scanner.exists_literal_recalling s.furthest r.literal_scanner
  rw [h.recalling_scanner] at hscan
  exact ⟨_, hscan, rfl⟩

/-- Where a scan finds what a rule reads, it ends where the rule does. -/
theorem eq_moveTo_of_matches {input : String} {step : Scanner.Step input} {answer : Scanner.Answer}
    (houtcome : s.Outcome step answer t) (hfound : answer.missed = false)
    (hposition : t.position = (r.read rule).2.position) (hd : rule.Matches r.cursor x d) :
    t = s.moveTo (r.offsetOf d) := by
  rw [houtcome.eq_moveTo hfound, hposition, position_read_of_matches hd]

/-- Something is found exactly where it ends at some cursor, and the scan ends there too. -/
theorem eq_some_iff_of_ends {β : Type} {result : Option (β × Scanner)} {y y' : β}
    {Ends : Cursor → Prop} (hresult : result = some (y, t)) (hy : y = y' ↔ ∃ d, Ends d)
    (ht : y = y' → ∀ d, Ends d → t = s.moveTo (r.offsetOf d)) {u : Scanner} :
    result = some (y', u) ↔ ∃ d, Ends d ∧ u = s.moveTo (r.offsetOf d) := by
  rw [hresult, Option.some_inj, Prod.mk.injEq]
  constructor
  · rintro ⟨heq, rfl⟩
    obtain ⟨d, hd⟩ := hy.mp heq
    exact ⟨d, hd, ht heq d hd⟩
  · rintro ⟨d, hd, rfl⟩
    have heq : y = y' := hy.mpr ⟨d, hd⟩
    exact ⟨heq, ht heq d hd⟩

/-- A symbol is found exactly where it comes next. -/
theorem eat_eq_true_iff (h : r.StandsAt s) {symbol : Symbol} :
    s.eat symbol = some (true, t) ↔
      ∃ d, Next r.cursor symbol.token d ∧ t = s.moveTo (r.offsetOf d) := by
  obtain ⟨u, hscan, hposition⟩ := h.exists_eat symbol
  have hfound : (r.read (eat symbol)).1.getD false = true ↔
      ∃ d, Next r.cursor symbol.token d := by
    have hread : (r.read (eat symbol)).1.getD false = true ↔
        (r.read (eat symbol)).1 = some true := by
      cases (r.read (eat symbol)).1 <;> simp
    rw [hread, read_eq_some_iff]
    simp only [matches_eat_true]
  refine eq_some_iff_of_ends hscan hfound fun heq d hd => ?_
  rw [heq] at hscan
  have houtcome : s.Outcome (.eat symbol : Scanner.Step s.input) (.ate true) u :=
    Scanner.outcome_eat hscan
  exact eq_moveTo_of_matches houtcome rfl hposition (matches_eat_true.mpr hd)

theorem identifier_eq_some_iff (h : r.StandsAt s) {name : String} :
    s.identifier = some (some name, t) ↔
      ∃ d, identifier.Matches r.cursor name d ∧ t = s.moveTo (r.offsetOf d) := by
  obtain ⟨u, hscan, hposition⟩ := h.exists_identifier
  refine eq_some_iff_of_ends hscan read_eq_some_iff fun heq d hd => ?_
  rw [heq] at hscan
  have houtcome : s.Outcome (.identifier : Scanner.Step s.input) (.read (some name)) u :=
    Scanner.outcome_identifier hscan
  exact eq_moveTo_of_matches houtcome rfl hposition hd

theorem literal_eq_some_iff (h : r.StandsAt s) {value : String} :
    s.literal = some (some value, t) ↔
      ∃ d, literal.Matches r.cursor value d ∧ t = s.moveTo (r.offsetOf d) := by
  obtain ⟨u, hscan, hposition⟩ := h.exists_literal
  refine eq_some_iff_of_ends hscan read_eq_some_iff fun heq d hd => ?_
  rw [heq] at hscan
  have houtcome : s.Outcome (.literal : Scanner.Step s.input) (.read (some value)) u :=
    Scanner.outcome_literal hscan
  exact eq_moveTo_of_matches houtcome rfl hposition hd

end StandsAt

end Reader

/-! ## One token at most -/

namespace Scanner

open Grammar

/-- At most one token comes next where the scanner stands, and all scans agree on it. -/
structure OneTokenNext (s : Scanner) : Prop where
  /-- No scan is about to cut a character in two. -/
  answers : (∀ symbol, ∃ found t, s.eat symbol = some (found, t)) ∧
    (∃ name t, s.identifier = some (name, t)) ∧ ∃ value t, s.literal = some (value, t)
  /-- A keyword is found exactly where a name is read that is spelled like it, and ends there. -/
  keyword : ∀ symbol t, symbol.isKeyword = true →
    (s.eat symbol = some (true, t) ↔ s.identifier = some (some symbol.text, t))
  /-- A name is read as a literal too, out of the same part of the text. -/
  name : ∀ text t, s.identifier = some (some text, t) →
    s.literal = some (some text, t) ∧ s.slice? s.firstNonSpace t.position = some text
  /-- Where any other symbol is found, neither a name nor a literal is read. -/
  mark : ∀ symbol t, symbol.isKeyword = false → s.eat symbol = some (true, t) →
    (∃ u, s.identifier = some (none, u)) ∧ ∃ u, s.literal = some (none, u)
  /-- No two symbols are found at the same place. -/
  symbol : ∀ symbol symbol' t t', s.eat symbol = some (true, t) →
    s.eat symbol' = some (true, t') → symbol = symbol'

variable {s : Scanner}

theorem oneTokenNext (h : s.Between s.position) : s.OneTokenNext := by
  obtain ⟨r, hr⟩ := Reader.exists_standsAt h
  obtain ⟨u, hidentifier, -⟩ := hr.exists_identifier
  obtain ⟨v, hliteral, -⟩ := hr.exists_literal
  constructor
  · refine ⟨fun symbol => ?_, ⟨_, _, hidentifier⟩, _, _, hliteral⟩
    obtain ⟨t, heat, -⟩ := hr.exists_eat symbol
    exact ⟨_, _, heat⟩
  · intro symbol t hkeyword
    rw [hr.eat_eq_true_iff, hr.identifier_eq_some_iff]
    simp only [next_keyword_iff hkeyword]
  · intro text t hname
    obtain ⟨d, hd, ht⟩ := hr.identifier_eq_some_iff.mp hname
    refine ⟨hr.literal_eq_some_iff.mpr ⟨d, matches_literal_of_identifier hd, ht⟩, ?_⟩
    have houtcome : s.Outcome (.identifier : Step s.input) (.read (some text)) t :=
      outcome_identifier hname
    exact houtcome.sliced text rfl
  · intro symbol t hmark heat
    obtain ⟨d, hnext, -⟩ := hr.eat_eq_true_iff.mp heat
    have hnoName : (r.read Grammar.identifier).1 = none :=
      Reader.read_eq_none_iff.mpr (fails_identifier_of_mark hmark hnext)
    have hnoValue : (r.read Grammar.literal).1 = none :=
      Reader.read_eq_none_iff.mpr (fails_literal_of_mark hmark hnext)
    rw [hnoName] at hidentifier
    rw [hnoValue] at hliteral
    exact ⟨⟨u, hidentifier⟩, v, hliteral⟩
  · intro symbol symbol' t t' heat heat'
    obtain ⟨d, hnext, -⟩ := hr.eat_eq_true_iff.mp heat
    obtain ⟨d', hnext', -⟩ := hr.eat_eq_true_iff.mp heat'
    exact Symbol.token_injective (hnext.unique hnext').1

/-- Wherever a scanner stands between two characters, keywords are the names that are spelled like
them, names are literals, no other symbol is either, and no two symbols are found.  So whatever the
order in which operators are tried, a comparison is read alike and ends at the same place, and
expressions are read by the very same rule. -/
theorem words_and_symbols_apart (s : Scanner) (h : s.Between s.position) :
    s.OneTokenNext ∧ ∀ order : List Operator, (∀ o, o ∈ order) →
      (∀ c, ((comparisonBy order).run c).outcome = (comparison.run c).outcome) ∧
        ∀ limit, expressionBy order limit = expression limit :=
  ⟨oneTokenNext h, fun _ horder => ⟨outcome_comparisonBy horder, expressionBy_eq horder⟩⟩

/-- A keyword ends before a letter of another script, as a name and a literal do. -/
theorem words_and_symbols_apart_accented :
    let s : Scanner := ⟨"'é'noté !=", 4, 20⟩
    let u : Scanner := s.moveTo 9
    let order : List Operator := [.notMember, .member, .notEqual, .equal]
    s.Between s.position ∧ s.eat .not = some (true, s.moveTo 7) ∧
      s.identifier = some (some "not", s.moveTo 7) ∧ s.literal = some (some "not", s.moveTo 7) ∧
      (∀ symbol t, s.eat symbol = some (true, t) → symbol = .not) ∧
      u.Between u.position ∧ u.eat .notEqual = some (true, u.moveTo 12) ∧
      (∃ v, u.identifier = some (none, v)) ∧ (∃ v, u.literal = some (none, v)) ∧
      (∀ o, o ∈ order) ∧ ∀ limit, expressionBy order limit = expression limit := by
  intro s u order
  have hs : s.Between s.position := by decide +kernel
  have hu : u.Between u.position := by decide +kernel
  have hnot : s.eat .not = some (true, s.moveTo 7) := by decide +kernel
  have hnotEqual : u.eat .notEqual = some (true, u.moveTo 12) := by decide +kernel
  have horder : ∀ o, o ∈ order := by
    intro o
    cases o <;> decide
  obtain ⟨hnext, horders⟩ := words_and_symbols_apart s hs
  have hname := (hnext.keyword .not _ rfl).mp hnot
  obtain ⟨hnoName, hnoValue⟩ := (words_and_symbols_apart u hu).1.mark .notEqual _ rfl hnotEqual
  exact ⟨hs, hnot, hname, (hnext.name _ _ hname).1,
    fun symbol t h => hnext.symbol symbol .not t _ h hnot, hu, hnotEqual, hnoName, hnoValue, horder,
    (horders order horder).2⟩

end Scanner

end PredicateLanguage
