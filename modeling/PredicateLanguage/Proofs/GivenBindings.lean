import PredicateLanguage.CommandLine.Run
import PredicateLanguage.Json.Bindings
import PredicateLanguage.Proofs.JsonValues

/-!
# Bindings that are given

Bindings are given as a JSON object of strings, or one by one as names and values with `=` between
them.  A name may be given several values, of which the last one counts.  A list of assignments is
taken up to the first that is malformed, and that one is told.
-/

namespace PredicateLanguage

/-! ## The last value of a name -/

/-- The value that stands last for a name. -/
def lastValue (pairs : List (String × String)) : Environment :=
  fun name => pairs.reverse.lookup name

/-- What names stand for where a file gives some members and others are assigned. -/
def givenBy (members assigned : List (String × String)) : Environment :=
  fun name => (lastValue assigned name).or (lastValue members name)

variable {pairs : List (String × String)} {name value : String}

theorem lastValue_eq_some_iff :
    lastValue pairs name = some value ↔
      ∃ earlier later, pairs = earlier ++ (name, value) :: later ∧ ∀ v, (name, v) ∉ later := by
  rw [lastValue, List.lookup_eq_some_iff]
  constructor
  · rintro ⟨later, earlier, hpairs, hlater⟩
    refine ⟨earlier.reverse, later.reverse, ?_, fun v hv => ?_⟩
    · rw [← List.reverse_reverse pairs, hpairs, List.reverse_append, List.reverse_cons,
        List.append_assoc, List.singleton_append]
    · exact bne_iff_ne.mp (hlater _ (List.mem_reverse.mp hv)) rfl
  · rintro ⟨earlier, later, rfl, hlater⟩
    refine ⟨later.reverse, earlier.reverse, ?_, fun p hp => bne_iff_ne.mpr ?_⟩
    · rw [List.reverse_append, List.reverse_cons, List.append_assoc, List.singleton_append]
    · rintro rfl
      exact hlater p.2 (List.mem_reverse.mp hp)

namespace Bindings

theorem entries_bindAll (b : Bindings) (pairs : List (String × String)) :
    (b.bindAll pairs).entries = pairs.reverse ++ b.entries := by
  induction pairs generalizing b with
  | nil => rfl
  | cons pair pairs ih =>
      have hstep : b.bindAll (pair :: pairs) = (b.bind pair.1 pair.2).bindAll pairs := rfl
      rw [hstep, ih, bind, List.reverse_cons, List.append_assoc, List.singleton_append]

/-- The last of the new values of a name counts, and without any the one that it had before. -/
theorem lookup_bindAll (b : Bindings) (pairs : List (String × String)) :
    (b.bindAll pairs).lookup = fun name => (lastValue pairs name).or (b.lookup name) := by
  funext name
  rw [lookup, entries_bindAll, List.lookup_append]
  rfl

theorem lookup_ofList (pairs : List (String × String)) :
    (ofList pairs).lookup = lastValue pairs := by
  rw [ofList, lookup_bindAll]
  funext name
  rw [lookup_empty, Option.or_none]

theorem lookup_bindAll_ofList (members assigned : List (String × String)) :
    ((ofList members).bindAll assigned).lookup = givenBy members assigned := by
  rw [lookup_bindAll, lookup_ofList]
  rfl

end Bindings

/-! ## Objects of strings -/

namespace Json

/-- The object of some strings. -/
def Value.ofStrings (members : List (String × String)) : Value :=
  .object (members.map fun member => (member.1, .string member.2))

/-- The texts of a key and its string. -/
def memberTexts (member : String × String) : Language Char :=
  stringTexts member.1 * (blanks * (symbol ':' * (blanks * stringTexts member.2)))

theorem Value.depth_ofStrings (members : List (String × String)) :
    (ofStrings members).depth = 1 := by
  rw [ofStrings, depth]
  induction members with
  | nil => rfl
  | cons member members ih =>
      rw [List.map_cons, membersDepth, depth, Nat.zero_max]
      exact ih

theorem Value.memberTexts_ofStrings (members : List (String × String)) :
    Value.memberTexts (members.map fun member => (member.1, .string member.2)) =
      members.map Json.memberTexts := by
  induction members with
  | nil => rfl
  | cons member members ih =>
      rw [List.map_cons, List.map_cons, Value.memberTexts, texts, ih]
      rfl

variable {s rest : List Char}

theorem begins_memberTexts {member : String × String} :
    Begins (memberTexts member) s rest ↔
      ∃ inside, s = '"' :: inside ∧ ∃ behind, Begins (bodyTexts member.1) inside behind ∧
      ∃ value, behind.dropWhile isBlank = ':' :: value ∧
        (Value.string member.2).Leads value rest := by
  rw [memberTexts, stringTexts, mul_assoc, begins_symbol_mul]
  simp only [begins_mul, begins_blanks_symbol_mul (c := ':') (by decide),
    (solid_stringTexts _).begins_blanks_mul, Value.Leads, Value.texts]

theorem run_binding_eq_ok_iff {member : String × String} :
    binding.run s = .ok (member, rest) ↔
      Begins (memberTexts member) (s.dropWhile isBlank) rest := by
  rw [binding, Decoder.run_ahead_skip_eq_ok_iff fun _ => Decoder.refuses_fail _,
    begins_memberTexts]
  simp only [Decoder.run_bind_eq_ok_iff, run_colon_eq_ok_iff, run_string_eq_ok_iff,
    Decoder.run_pure_eq_ok_iff]
  constructor
  · rintro ⟨inside, hs, name, behind, hname, _, value, hcolon, v, _, hvalue, rfl, rfl⟩
    exact ⟨inside, hs, behind, readString_eq_ok_iff.mp hname, value, hcolon, hvalue⟩
  · rintro ⟨inside, hs, behind, hname, value, hcolon, hvalue⟩
    exact ⟨inside, hs, member.1, behind, readString_eq_ok_iff.mpr hname, (), value, hcolon,
      member.2, rest, hvalue, rfl, rfl⟩

/-- Members with strings are items of objects. -/
theorem readsItems_binding : ReadsItems .object binding memberTexts where
  run := run_binding_eq_ok_iff
  solid member := (solid_stringTexts member.1).mul _
  head_ne h := by
    obtain ⟨cs, rfl, -⟩ := begins_memberTexts.mp h
    exact ⟨_, cs, rfl, by decide⟩

/-- The forms of bindings are objects of strings that give them. -/
theorem decodesForm_bindings (room : Nat) :
    DecodesForm (bindings room) room fun b v =>
      ∃ members, b = .ofList members ∧ v = .ofStrings members := by
  intro s b rest
  have hleads (members : List (String × String)) : (Value.ofStrings members).Leads s rest ↔
      ∃ inside, s.dropWhile isBlank = '{' :: inside ∧
        Begins (separatedTexts (members.map memberTexts) * symbol '}') inside rest := by
    rw [Value.Leads, Value.ofStrings, Value.texts, Value.memberTexts_ofStrings, begins_symbol_mul]
  rw [bindings, run_opened_eq_ok_iff fun _ => Decoder.refuses_refuse _]
  simp only [Decoder.run_map_eq_ok_iff, readsItems_binding.run_content_eq_ok_iff]
  constructor
  · rintro ⟨hroom, inside, hs, members, hbegins, rfl⟩
    refine ⟨_, ⟨members, rfl, rfl⟩, ?_, (hleads members).mpr ⟨inside, hs, hbegins⟩⟩
    rw [Value.depth_ofStrings]
    exact hroom
  · rintro ⟨_, ⟨members, rfl, rfl⟩, hdepth, hv⟩
    rw [Value.depth_ofStrings] at hdepth
    obtain ⟨inside, hs, hbegins⟩ := (hleads members).mp hv
    exact ⟨hdepth, inside, hs, members, hbegins, rfl⟩

/-- The text is a JSON object of strings, with blanks around it. -/
def IsObjectText (members : List (String × String)) (text : String) : Prop :=
  text.toList ∈ blanks * (Value.ofStrings members).texts * blanks

end Json

/-- A text gives bindings exactly if it is an object of strings, and it gives those. -/
theorem Bindings.ofJson_eq_ok_iff_isObjectText {text : String} {b : Bindings} :
    Bindings.ofJson text = .ok b ↔
      ∃ members, b = .ofList members ∧ Json.IsObjectText members text := by
  rw [Bindings.ofJson, (Json.decodesForm_bindings Json.openLimit).decode_eq_ok_iff]
  constructor
  · rintro ⟨_, ⟨members, rfl, rfl⟩, -, htext⟩
    exact ⟨members, rfl, htext⟩
  · rintro ⟨members, rfl, htext⟩
    refine ⟨_, ⟨members, rfl, rfl⟩, ?_, htext⟩
    rw [Json.Value.depth_ofStrings]
    decide

namespace CommandLine

/-! ## Files -/

/-- What is found under the name of a file is no text, for the reason that the message tells. -/
inductive NoText : FileState → String → Prop
  | absent : NoText .absent "No such file or directory (os error 2)"
  | directory : NoText .directory "Is a directory (os error 21)"
  | belowFile : NoText .belowFile "Not a directory (os error 20)"
  | denied : NoText .denied "Permission denied (os error 13)"
  | nameTooLong : NoText .nameTooLong "File name too long (os error 36)"
  | notText {bytes : ByteArray} (h : ∀ text : String, bytes ≠ text.toUTF8) :
      NoText (.file bytes) "stream did not contain valid UTF-8"

theorem fromUTF8?_eq_some_iff {bytes : ByteArray} {text : String} :
    String.fromUTF8? bytes = some text ↔ bytes = text.toUTF8 := by
  rw [String.fromUTF8?, Option.dite_none_right_eq_some]
  constructor
  · rintro ⟨_, htext⟩
    rw [← Option.some.inj htext]
    rfl
  · rintro rfl
    exact ⟨text.isValidUTF8, rfl⟩

/-- The text of a file is the one that its bytes spell. -/
theorem text_file (text : String) : (FileState.file text.toUTF8).text = .ok text := by
  rw [FileState.text, fromUTF8?_eq_some_iff.mpr rfl]

theorem text_of_noText {state : FileState} {message : String} (h : NoText state message) :
    ∃ reason, state.text = .error reason ∧ reason.message = message := by
  cases h with
  | absent => exact ⟨.absent, rfl, rfl⟩
  | directory => exact ⟨.directory, rfl, rfl⟩
  | belowFile => exact ⟨.belowFile, rfl, rfl⟩
  | denied => exact ⟨.denied, rfl, rfl⟩
  | nameTooLong => exact ⟨.nameTooLong, rfl, rfl⟩
  | @notText bytes h =>
      have hnone : String.fromUTF8? bytes = none :=
        Option.eq_none_iff_forall_ne_some.mpr fun text htext =>
          h text (fromUTF8?_eq_some_iff.mp htext)
      refine ⟨.notText, ?_, rfl⟩
      rw [FileState.text, hnone]

theorem file_or_noText (state : FileState) :
    (∃ text : String, state = .file text.toUTF8) ∨ ∃ message, NoText state message := by
  cases state with
  | absent => exact Or.inr ⟨_, .absent⟩
  | directory => exact Or.inr ⟨_, .directory⟩
  | belowFile => exact Or.inr ⟨_, .belowFile⟩
  | denied => exact Or.inr ⟨_, .denied⟩
  | nameTooLong => exact Or.inr ⟨_, .nameTooLong⟩
  | file bytes =>
      by_cases h : ∃ text : String, bytes = text.toUTF8
      · obtain ⟨text, rfl⟩ := h
        exact Or.inl ⟨text, rfl⟩
      · exact Or.inr ⟨_, .notText (not_exists.mp h)⟩

/-! ## Assignments -/

/-- The text of an assignment. -/
def assigning (pair : String × String) : String :=
  pair.1 ++ "=" ++ pair.2

/-- A name that values can be assigned to. -/
def IsName (name : String) : Prop :=
  name ≠ "" ∧ '=' ∉ name.toList

/-- The text is no assignment, for the reason that the message tells. -/
inductive Malformed : String → String → Prop
  | notAssignment {given : String} (h : '=' ∉ given.toList) :
      Malformed given ("Expected NAME=VALUE, got " ++ showQuoted given)
  | nameless {given : String} (h : given.toList.head? = some '=') :
      Malformed given ("Missing variable name in " ++ showQuoted given)

section Split

variable {c : Char} {front : List Char}

theorem splitAtFirst_of_notMem (h : c ∉ front) : splitAtFirst c front = (front, none) := by
  have hdrop : front.dropWhile (· ≠ c) = [] := by
    refine List.dropWhile_eq_nil_iff.mpr fun x hx => decide_eq_true ?_
    rintro rfl
    exact h hx
  rw [splitAtFirst, hdrop]

theorem splitAtFirst_append (h : c ∉ front) (behind : List Char) :
    splitAtFirst c (front ++ c :: behind) = (front, some behind) := by
  have hfront : ∀ x ∈ front, decide (x ≠ c) = true := by
    intro x hx
    refine decide_eq_true ?_
    rintro rfl
    exact h hx
  have hdrop : (front ++ c :: behind).dropWhile (· ≠ c) = c :: behind := by
    rw [List.dropWhile_append_of_pos hfront]
    exact List.dropWhile_cons_of_neg (by simp)
  have htake : (front ++ c :: behind).takeWhile (· ≠ c) = front := by
    rw [List.takeWhile_append_of_pos hfront, List.takeWhile_cons_of_neg (by simp), List.append_nil]
  rw [splitAtFirst, hdrop, htake]

end Split

theorem toList_assigning (pair : String × String) :
    (assigning pair).toList = pair.1.toList ++ '=' :: pair.2.toList := by
  rw [assigning, String.toList_append, String.toList_append, List.append_assoc]
  rfl

theorem assignment_assigning {pair : String × String} (h : IsName pair.1) :
    assignment (assigning pair) = .ok pair := by
  obtain ⟨c, cs, hname⟩ : ∃ c cs, pair.1.toList = c :: cs := by
    apply List.exists_cons_of_ne_nil
    intro hnil
    exact h.1 (String.toList_injective hnil)
  have hpair : (String.ofList (c :: cs), String.ofList pair.2.toList) = pair := by
    rw [← hname, String.ofList_toList, String.ofList_toList]
  rw [assignment, toList_assigning, splitAtFirst_append h.2, hname]
  exact congrArg Except.ok hpair

/-- A malformed text is refused, and the message is reported. -/
theorem assignment_of_malformed {given message : String} (h : Malformed given message) :
    ∃ failure, assignment given = .error failure ∧
      failure.report = "Error: " ++ message ++ "\n" := by
  cases h with
  | notAssignment h =>
      refine ⟨.notAssignment given, ?_, String.append_empty⟩
      rw [assignment, splitAtFirst_of_notMem h]
  | nameless h =>
      obtain ⟨value, hgiven⟩ := List.head?_eq_some_iff.mp h
      have hsplit : splitAtFirst '=' given.toList = ([], some value) := by
        rw [hgiven]
        exact splitAtFirst_append List.not_mem_nil value
      refine ⟨.nameless given, ?_, String.append_empty⟩
      rw [assignment, hsplit]

/-- A text is an assignment to a name or malformed. -/
theorem assigning_or_malformed (given : String) :
    (∃ pair : String × String, IsName pair.1 ∧ given = assigning pair) ∨
      ∃ message, Malformed given message := by
  by_cases hmem : '=' ∈ given.toList
  · obtain ⟨name, value, hgiven, hname⟩ := List.eq_append_cons_of_mem hmem
    -- What stands before the first `=` is a name unless it is empty.
    cases name with
    | nil =>
        right
        refine ⟨_, .nameless ?_⟩
        rw [hgiven]
        rfl
    | cons c cs =>
        left
        refine ⟨(String.ofList (c :: cs), String.ofList value), ⟨?_, ?_⟩, ?_⟩
        · intro hempty
          have := congrArg String.toList hempty
          rw [String.toList_ofList] at this
          exact List.cons_ne_nil c cs this
        · rw [String.toList_ofList]
          exact hname
        · apply String.toList_injective
          rw [toList_assigning, String.toList_ofList, String.toList_ofList, hgiven]
  · right
    exact ⟨_, .notAssignment hmem⟩

/-! ### Lists of assignments -/

/-- Assignments to names are all taken, in their order. -/
theorem mapM_assignment_assigning {assigned : List (String × String)}
    (h : ∀ pair ∈ assigned, IsName pair.1) :
    (assigned.map assigning).mapM assignment = .ok assigned := by
  induction assigned with
  | nil => rfl
  | cons pair assigned ih =>
      rw [List.map_cons, List.mapM_cons, assignment_assigning (h pair List.mem_cons_self),
        ih fun other hother => h other (List.mem_cons_of_mem pair hother)]
      rfl

/-- The first assignment that is refused is told, whatever stands behind it. -/
theorem mapM_assignment_of_error {assigned : List (String × String)} {bad : String}
    {failure : Failure} (h : ∀ pair ∈ assigned, IsName pair.1)
    (hbad : assignment bad = .error failure) (later : List String) :
    (assigned.map assigning ++ bad :: later).mapM assignment = .error failure := by
  rw [List.mapM_append, mapM_assignment_assigning h, List.mapM_cons, hbad]
  rfl

/-- A list of texts consists of assignments to names, or has a first that is malformed. -/
theorem map_assigning_or_malformed (given : List String) :
    (∃ assigned : List (String × String), (∀ pair ∈ assigned, IsName pair.1) ∧
        given = assigned.map assigning) ∨
      ∃ (assigned : List (String × String)) (bad : String) (later : List String)
        (message : String), (∀ pair ∈ assigned, IsName pair.1) ∧ Malformed bad message ∧
          given = assigned.map assigning ++ bad :: later := by
  induction given with
  | nil =>
      left
      exact ⟨[], fun _ h => absurd h List.not_mem_nil, rfl⟩
  | cons first given ih =>
      obtain ⟨pair, hpair, rfl⟩ | ⟨message, hfirst⟩ := assigning_or_malformed first
      · obtain ⟨assigned, hassigned, rfl⟩ | ⟨assigned, bad, later, message, hassigned, hbad, rfl⟩ :=
          ih
        · left
          exact ⟨pair :: assigned, List.forall_mem_cons.mpr ⟨hpair, hassigned⟩, rfl⟩
        · right
          exact ⟨pair :: assigned, bad, later, message,
            List.forall_mem_cons.mpr ⟨hpair, hassigned⟩, hbad, rfl⟩
      · right
        exact ⟨[], first, given, message, fun _ h => absurd h List.not_mem_nil, hfirst, rfl⟩

end CommandLine

end PredicateLanguage
