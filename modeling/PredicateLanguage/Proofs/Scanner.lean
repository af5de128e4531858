import Mathlib.Data.Nat.Find
import PredicateLanguage.Proofs.ByteClasses

/-!
# Scanning byte by byte

A cursor stands between two characters by its nature.  Here a text is scanned as it is held, with a
position and a furthest place that are numbers of bytes.  A scan moves on by single bytes, and a
part of the text can only be taken out between two places where characters end.  A scan that is
about to cut a character in two, or to reach behind the end of the text, gives nothing.
-/

namespace PredicateLanguage

/-- A text that is scanned byte by byte. -/
structure Scanner where
  input : String
  position : Nat
  /-- The furthest place at which a scan failed. -/
  furthest : Nat
  deriving DecidableEq

namespace Scanner

def ofText (input : String) : Scanner :=
  ⟨input, 0, 0⟩

def length (s : Scanner) : Nat :=
  (utf8Bytes s.input).length

def byteAt? (s : Scanner) (place : Nat) : Option UInt8 :=
  (utf8Bytes s.input)[place]?

/-- Characters end at the place, which is not behind the end of the text. -/
def Between (s : Scanner) (place : Nat) : Prop :=
  String.Pos.Raw.IsValid s.input ⟨place⟩

instance (s : Scanner) (place : Nat) : Decidable (s.Between place) :=
  inferInstanceAs (Decidable (String.Pos.Raw.IsValid s.input ⟨place⟩))

/-- Where the scanner stands, and where a scan failed, characters end. -/
structure InBounds (s : Scanner) : Prop where
  position_le : s.position ≤ s.length
  furthest_le : s.furthest ≤ s.length
  between_position : s.Between s.position
  between_furthest : s.Between s.furthest

/-- The text from one place to another, if it can be taken out. -/
def slice? (s : Scanner) (start stop : Nat) : Option String :=
  if h : start ≤ stop ∧ s.Between start ∧ s.Between stop then
    some (String.extract (s := s.input) ⟨⟨start⟩, h.2.1⟩ ⟨⟨stop⟩, h.2.2⟩)
  else
    none

def moveTo (s : Scanner) (place : Nat) : Scanner :=
  { s with position := place }

section

variable (s : Scanner) (start stop place : Nat)

@[simp]
theorem position_moveTo : (s.moveTo place).position = place := rfl

@[simp]
theorem length_moveTo : (s.moveTo place).length = s.length := rfl

@[simp]
theorem byteAt?_moveTo : (s.moveTo place).byteAt? = s.byteAt? := rfl

@[simp]
theorem slice?_moveTo : (s.moveTo place).slice? start stop = s.slice? start stop := rfl

@[simp]
theorem moveTo_moveTo : (s.moveTo start).moveTo place = s.moveTo place := rfl

end

/-- Goes on over the bytes of a class. -/
def skipWhile (p : UInt8 → Bool) (s : Scanner) : Scanner :=
  match _h : s.byteAt? s.position with
  | some b => if p b then (s.moveTo (s.position + 1)).skipWhile p else s
  | none => s
termination_by s.length - s.position
decreasing_by
  have hlt : s.position < s.length := (List.getElem?_eq_some_iff.mp _h).1
  simp only [length, moveTo] at hlt ⊢
  omega

def skipSpaces (s : Scanner) : Scanner :=
  s.skipWhile isSpaceByte

/-- Records that a scan failed and goes back to where it began. -/
def missFrom (start : Nat) (s : Scanner) : Scanner :=
  { s with furthest := max s.furthest s.position, position := start }

/-- Scans a symbol.  A keyword must not be followed by a byte of a word. -/
def eat (symbol : Symbol) (s : Scanner) : Option (Bool × Scanner) := do
  let t := s.skipSpaces
  let rest ← t.slice? t.position t.length
  let stop := t.position + (utf8Bytes symbol.text).length
  if (utf8Bytes symbol.text).isPrefixOf (utf8Bytes rest) &&
      !(symbol.isKeyword && (t.byteAt? stop).any isWordByte) then
    return (true, t.moveTo stop)
  else
    return (false, t.missFrom s.position)

def identifier (s : Scanner) : Option (Option String × Scanner) := do
  let t := s.skipSpaces
  if (t.byteAt? t.position).any isLetterByte then
    let u := t.skipWhile isWordByte
    return (some (← u.slice? t.position u.position), u)
  else
    return (none, t.missFrom s.position)

/-- Scans a quoted text, which ends at the first quote behind the opening one, or a word. -/
def literal (s : Scanner) : Option (Option String × Scanner) := do
  let t := s.skipSpaces
  if t.byteAt? t.position = some quoteByte then
    let start := t.position + 1
    let inside ← t.slice? start t.length
    match (utf8Bytes inside).findIdx? (· = quoteByte) with
    | some size => return (some (← t.slice? start (start + size)), t.moveTo (start + size + 1))
    | none => return (none, (t.moveTo t.length).missFrom s.position)
  else
    let u := t.skipWhile isWordByte
    if u.position = t.position then
      return (none, u.missFrom s.position)
    else
      return (some (← u.slice? t.position u.position), u)

/-! ## Steps -/

/-- What is done with a scanner of a text.  It is only set back to places between characters. -/
inductive Step (input : String) where
  | skipSpaces
  | eat (symbol : Symbol)
  | identifier
  | literal
  | reset (place : input.Pos)

/-- What a step gives. -/
inductive Answer where
  | done
  | ate (found : Bool)
  | read (value : Option String)
  deriving DecidableEq

/-- The step looked for something that was not there. -/
def Answer.missed : Answer → Bool
  | done => false
  | ate found => !found
  | read value => value.isNone

def step {input : String} (s : Scanner) : Step input → Option (Answer × Scanner)
  | .skipSpaces => some (.done, s.skipSpaces)
  | .eat symbol => do
    let (found, t) ← s.eat symbol
    return (.ate found, t)
  | .identifier => do
    let (name, t) ← s.identifier
    return (.read name, t)
  | .literal => do
    let (value, t) ← s.literal
    return (.read value, t)
  | .reset place => some (.done, s.moveTo place.offset.byteIdx)

/-- The scanner behind some steps. -/
def after {input : String} (s : Scanner) : List (Step input) → Option Scanner
  | [] => some s
  | x :: steps =>
    match s.step x with
    | none => none
    | some (_, t) => t.after steps

/-! ## Places that are missed -/

theorem exists_nonSpace (s : Scanner) :
    ∃ place, s.position ≤ place ∧ (s.byteAt? place).all (fun b => !isSpaceByte b) = true := by
  refine ⟨max s.position s.length, Nat.le_max_left _ _, ?_⟩
  have hend : s.byteAt? (max s.position s.length) = none :=
    List.getElem?_eq_none (Nat.le_max_right s.position s.length)
  rw [hend]
  rfl

/-- The first place at or behind the position where no space stands: the place of another byte, or
the end of the text. -/
def firstNonSpace (s : Scanner) : Nat :=
  Nat.find s.exists_nonSpace

/-- A literal is looked for, and a quote opens it. -/
def quotes {input : String} (s : Scanner) : Step input → Bool
  | .literal => s.byteAt? s.firstNonSpace = some quoteByte
  | _ => false

/-- Where a step fails if it does: where it starts to look, or at the end of the text if a quote is
never closed. -/
def missOffset {input : String} (s : Scanner) (x : Step input) : Nat :=
  if s.quotes x then s.length else s.firstNonSpace

/-- The places at which some steps fail, one after the other. -/
def failures {input : String} (s : Scanner) : List (Step input) → List Nat
  | [] => []
  | x :: steps =>
    match s.step x with
    | none => []
    | some (answer, t) =>
      if answer.missed then s.missOffset x :: t.failures steps else t.failures steps

/-! ## Parts of a text -/

theorem utf8Bytes_of_slice {s : Scanner} {start stop : Nat} {value : String}
    (h : s.slice? start stop = some value) :
    utf8Bytes value = ((utf8Bytes s.input).drop start).take (stop - start) := by
  rw [slice?] at h
  split at h
  · rw [← Option.some.inj h, utf8Bytes, String.toByteArray_extract, ByteArray.data_extract,
      Array.toList_extract, List.extract_eq_take_drop]
    rfl
  · contradiction

theorem utf8Bytes_of_slice_length {s : Scanner} {start : Nat} {value : String}
    (h : s.slice? start s.length = some value) :
    utf8Bytes value = (utf8Bytes s.input).drop start := by
  rw [utf8Bytes_of_slice h, length, ← List.length_drop, List.take_length]

/-! ## Bytes of a class -/

section Skip

variable (p : UInt8 → Bool) (s : Scanner)

theorem skipWhile_eq :
    s.skipWhile p = s.moveTo
      (s.position + (((utf8Bytes s.input).drop s.position).takeWhile p).length) := by
  fun_induction skipWhile p s with
  | case1 s b h hp ih =>
      obtain ⟨hlt, hb⟩ := List.getElem?_eq_some_iff.mp h
      rw [ih, List.drop_eq_getElem_cons hlt, hb, List.takeWhile_cons, if_pos hp, List.length_cons]
      change s.moveTo (s.position + 1 + _) = s.moveTo (s.position + (_ + 1))
      rw [Nat.add_right_comm, Nat.add_assoc]
      rfl
  | case2 s b h hp =>
      obtain ⟨hlt, hb⟩ := List.getElem?_eq_some_iff.mp h
      rw [List.drop_eq_getElem_cons hlt, hb, List.takeWhile_cons, if_neg hp]
      rfl
  | case3 s h =>
      rw [List.drop_eq_nil_of_le (List.getElem?_eq_none_iff.mp h)]
      rfl

theorem byteAt?_of_skipped {place : Nat} (hle : s.position ≤ place)
    (hlt : place < (s.skipWhile p).position) : ∃ b, s.byteAt? place = some b ∧ p b = true := by
  fun_induction skipWhile p s with
  | case1 s b h hp ih =>
      rcases Nat.eq_or_lt_of_le hle with rfl | hbehind
      · exact ⟨b, h, hp⟩
      · exact ih hbehind hlt
  | case2 s b h hp => exact absurd hlt (Nat.not_lt_of_le hle)
  | case3 s h => exact absurd hlt (Nat.not_lt_of_le hle)

theorem byteAt?_skipWhile :
    (s.byteAt? (s.skipWhile p).position).all (fun b => !p b) = true := by
  fun_induction skipWhile p s with
  | case1 s b h hp ih => exact ih
  | case2 s b h hp =>
      rw [h]
      simpa using hp
  | case3 s h =>
      rw [h]
      rfl

end Skip

theorem position_skipSpaces (s : Scanner) : s.skipSpaces.position = s.firstNonSpace := by
  symm
  refine (Nat.find_eq_iff _).mpr ⟨⟨?_, s.byteAt?_skipWhile isSpaceByte⟩, ?_⟩
  · rw [skipSpaces, skipWhile_eq]
    exact Nat.le_add_right _ _
  · rintro place hlt ⟨hle, hnot⟩
    obtain ⟨b, hb, hspace⟩ := s.byteAt?_of_skipped isSpaceByte hle hlt
    rw [hb] at hnot
    simp [hspace] at hnot

theorem skipSpaces_eq (s : Scanner) : s.skipSpaces = s.moveTo s.firstNonSpace := by
  rw [← position_skipSpaces, skipSpaces, skipWhile_eq]
  rfl

/-! ## What one step does -/

/-- A step that fails goes back to where it began and records where it failed, and no other step
changes what was recorded.  What is read is the text from where the step starts to look up to where
it ends, without the quotes if there are any. -/
structure Outcome {input : String} (s : Scanner) (x : Step input) (answer : Answer)
    (t : Scanner) : Prop where
  input_eq : t.input = s.input
  missed : answer.missed = true →
    t.position = s.position ∧ t.furthest = max s.furthest (s.missOffset x)
  kept : answer.missed = false → t.furthest = s.furthest
  sliced : ∀ value, answer = .read (some value) →
    if s.quotes x then
      ∃ stop, t.position = stop + 1 ∧ s.byteAt? stop = some quoteByte ∧
        s.slice? (s.firstNonSpace + 1) stop = some value
    else
      s.slice? s.firstNonSpace t.position = some value

namespace Outcome

variable {input : String} {s : Scanner} {x : Step input}

theorem of_missed {answer : Answer} {place : Nat} (hanswer : answer.missed = true)
    (hplace : s.missOffset x = place) :
    s.Outcome x answer ((s.moveTo place).missFrom s.position) where
  input_eq := rfl
  missed _ := ⟨rfl, congrArg (max s.furthest) hplace.symm⟩
  kept h := by
    rw [h] at hanswer
    contradiction
  sliced value h := by
    rw [h] at hanswer
    contradiction

theorem of_moved {answer : Answer} {place : Nat} (hanswer : answer.missed = false)
    (hread : ∀ value, answer ≠ .read (some value)) : s.Outcome x answer (s.moveTo place) where
  input_eq := rfl
  missed h := by
    rw [h] at hanswer
    contradiction
  kept _ := rfl
  sliced value h := absurd h (hread value)

theorem of_read {value : String} {place : Nat} (hquotes : s.quotes x = false)
    (hslice : s.slice? s.firstNonSpace place = some value) :
    s.Outcome x (.read (some value)) (s.moveTo place) where
  input_eq := rfl
  missed h := by contradiction
  kept _ := rfl
  sliced value' h := by
    obtain rfl : value = value' := Option.some.inj (Answer.read.inj h)
    rw [hquotes, if_neg Bool.false_ne_true]
    exact hslice

end Outcome

theorem outcome_eat {input : String} {s t : Scanner} {symbol : Symbol} {found : Bool}
    (h : s.eat symbol = some (found, t)) :
    s.Outcome (.eat symbol : Step input) (.ate found) t := by
  rw [eat, skipSpaces_eq] at h
  obtain ⟨rest, -, h⟩ := Option.bind_eq_some_iff.mp h
  dsimp only at h
  split at h
  · obtain ⟨rfl, rfl⟩ := Prod.mk.inj (Option.some.inj h)
    exact .of_moved rfl fun value => nofun
  · obtain ⟨rfl, rfl⟩ := Prod.mk.inj (Option.some.inj h)
    exact .of_missed rfl rfl

theorem outcome_identifier {input : String} {s t : Scanner} {name : Option String}
    (h : s.identifier = some (name, t)) :
    s.Outcome (.identifier : Step input) (.read name) t := by
  rw [identifier, skipSpaces_eq] at h
  dsimp only at h
  split at h
  · rw [skipWhile_eq] at h
    obtain ⟨value, hvalue, h⟩ := Option.bind_eq_some_iff.mp h
    obtain ⟨rfl, rfl⟩ := Prod.mk.inj (Option.some.inj h)
    exact .of_read rfl hvalue
  · obtain ⟨rfl, rfl⟩ := Prod.mk.inj (Option.some.inj h)
    exact .of_missed rfl rfl

theorem outcome_literal {input : String} {s t : Scanner} {value : Option String}
    (h : s.literal = some (value, t)) :
    s.Outcome (.literal : Step input) (.read value) t := by
  rw [literal, skipSpaces_eq] at h
  dsimp only at h
  split at h
  · rename_i hquote
    have hquotes : s.quotes (.literal : Step input) = true := decide_eq_true hquote
    obtain ⟨inside, hinside, h⟩ := Option.bind_eq_some_iff.mp h
    split at h
    · rename_i size hsize
      obtain ⟨text, htext, h⟩ := Option.bind_eq_some_iff.mp h
      obtain ⟨rfl, rfl⟩ := Prod.mk.inj (Option.some.inj h)
      refine ⟨rfl, fun h => by contradiction, fun _ => rfl, fun value' h' => ?_⟩
      obtain rfl : text = value' := Option.some.inj (Answer.read.inj h')
      rw [hquotes, if_pos rfl]
      refine ⟨_, rfl, ?_, htext⟩
      obtain ⟨hlt, hbyte, -⟩ := List.findIdx?_eq_some_iff_getElem.mp hsize
      rw [byteAt?, ← List.getElem?_drop]
      have hinput := utf8Bytes_of_slice_length hinside
      rw [← of_decide_eq_true hbyte, ← List.getElem?_eq_getElem hlt, hinput]
      rfl
    · obtain ⟨rfl, rfl⟩ := Prod.mk.inj (Option.some.inj h)
      have hplace : s.missOffset (.literal : Step input) = s.length := by
        rw [missOffset, hquotes, if_pos rfl]
      exact .of_missed rfl hplace
  · rename_i hquote
    have hquotes : s.quotes (.literal : Step input) = false := decide_eq_false hquote
    rw [skipWhile_eq] at h
    split at h
    · rename_i hstays
      obtain ⟨rfl, rfl⟩ := Prod.mk.inj (Option.some.inj h)
      have hplace : s.missOffset (.literal : Step input) = s.firstNonSpace := by
        rw [missOffset, hquotes, if_neg Bool.false_ne_true]
      exact .of_missed rfl (hplace.trans hstays.symm)
    · obtain ⟨text, htext, h⟩ := Option.bind_eq_some_iff.mp h
      obtain ⟨rfl, rfl⟩ := Prod.mk.inj (Option.some.inj h)
      exact .of_read hquotes htext

theorem outcome_step {input : String} {s t : Scanner} {x : Step input} {answer : Answer}
    (h : s.step x = some (answer, t)) : s.Outcome x answer t := by
  cases x with
  | skipSpaces =>
      rw [step, skipSpaces_eq] at h
      obtain ⟨rfl, rfl⟩ := Prod.mk.inj (Option.some.inj h)
      exact .of_moved rfl fun value => nofun
  | eat symbol =>
      obtain ⟨⟨found, u⟩, heat, h⟩ := Option.bind_eq_some_iff.mp h
      obtain ⟨rfl, rfl⟩ := Prod.mk.inj (Option.some.inj h)
      exact outcome_eat heat
  | identifier =>
      obtain ⟨⟨name, u⟩, hname, h⟩ := Option.bind_eq_some_iff.mp h
      obtain ⟨rfl, rfl⟩ := Prod.mk.inj (Option.some.inj h)
      exact outcome_identifier hname
  | literal =>
      obtain ⟨⟨value, u⟩, hvalue, h⟩ := Option.bind_eq_some_iff.mp h
      obtain ⟨rfl, rfl⟩ := Prod.mk.inj (Option.some.inj h)
      exact outcome_literal hvalue
  | reset place =>
      obtain ⟨rfl, rfl⟩ := Prod.mk.inj (Option.some.inj h)
      exact .of_moved rfl fun value => nofun

/-- The furthest place is the largest of those at which steps failed, and of the one before. -/
theorem furthest_after {input : String} {s t : Scanner} {steps : List (Step input)}
    (h : s.after steps = some t) : t.furthest = (s.failures steps).foldl max s.furthest := by
  induction steps generalizing s with
  | nil =>
      obtain rfl := Option.some.inj h
      rfl
  | cons x steps ih =>
      rw [after] at h
      rw [failures]
      cases hstep : s.step x with
      | none =>
          rw [hstep] at h
          contradiction
      | some result =>
          obtain ⟨answer, u⟩ := result
          have houtcome := outcome_step hstep
          rw [hstep] at h
          have ht : t.furthest = (u.failures steps).foldl max u.furthest := ih h
          dsimp only
          cases hmissed : answer.missed with
          | true => rw [if_pos rfl, List.foldl_cons, ← (houtcome.missed hmissed).2, ht]
          | false => rw [if_neg Bool.false_ne_true, ← houtcome.kept hmissed, ht]

end Scanner

end PredicateLanguage
