import PredicateLanguage.Proofs.Occurrences
import PredicateLanguage.Proofs.RoundTrip
import PredicateLanguage.Proofs.Runs

/-!
# Names that nothing is bound to

A run that evaluates a predicate reports the variables that neither the file of bindings nor any
assignment binds.  The report is about the predicate as a whole, so it may tell of names that the
evaluation does not look up.  All that the evaluation looks up in vain is in it, and since an unbound
name reads as the empty string, binding reported names to the empty string changes no result.
-/

namespace PredicateLanguage

variable {p : Predicate} {name : String}

/-! ## Names of variables -/

theorem Term.eq_var_of_mem_names {t : Term} (h : name ∈ Traversal.names.term t) : t = .var name := by
  cases t with
  | literal value => contradiction
  | var other => rw [List.mem_singleton.mp h]

/-- The variables of a well-formed predicate are well formed. -/
theorem Predicate.WellFormed.var (h : p.WellFormed) (hname : name ∈ Traversal.names.visit p) :
    (Term.var name).WellFormed := by
  induction p with
  | equal left right | notEqual left right =>
      rcases List.mem_append.mp hname with hleft | hright
      · rw [← Term.eq_var_of_mem_names hleft]
        exact h.1.1
      · rw [← Term.eq_var_of_mem_names hright]
        exact h.2
  | oneOf term set | noneOf term set =>
      rcases List.mem_append.mp hname with hterm | hset
      · rw [← Term.eq_var_of_mem_names hterm]
        exact h.1.1
      · contradiction
  | present term =>
      rw [← Term.eq_var_of_mem_names hname]
      exact h.1
  | not operand ih => exact ih h hname
  | and left right ihl ihr | or left right ihl ihr =>
      rcases List.mem_append.mp hname with hleft | hright
      · exact ihl h.1 hleft
      · exact ihr h.2 hright

/-- A variable that is well formed can be assigned to. -/
theorem Term.WellFormed.isName (h : (Term.var name).WellFormed) : CommandLine.IsName name := by
  constructor
  · rintro rfl
    exact absurd h.1 Bool.false_ne_true
  · intro hmem
    exact absurd (h.2 '=' hmem) (by decide)

/-! ## Values that are added -/

section Values

variable {pairs : List (String × String)}

theorem lastValue_append (pairs others : List (String × String)) (name : String) :
    lastValue (pairs ++ others) name = (lastValue others name).or (lastValue pairs name) := by
  rw [lastValue, List.reverse_append, List.lookup_append]
  rfl

/-- A name has no last value exactly if it has none at all. -/
theorem lastValue_eq_none_iff : lastValue pairs name = none ↔ ∀ value, (name, value) ∉ pairs := by
  rw [lastValue, List.lookup_eq_none_iff]
  constructor
  · intro h value hmem
    have hne := h (name, value) (List.mem_reverse.mpr hmem)
    simp at hne
  · rintro h ⟨other, value⟩ hmem
    refine bne_iff_ne.mpr ?_
    rintro rfl
    exact h value (List.mem_reverse.mp hmem)

theorem lastValue_emptied (emptied : List String) (name : String) :
    lastValue (emptied.map (·, "")) name = if name ∈ emptied then some "" else none := by
  have hmem {value : String} (h : (name, value) ∈ emptied.map (·, "")) :
      name ∈ emptied ∧ value = "" := by
    obtain ⟨other, hother, heq⟩ := List.mem_map.mp h
    obtain ⟨rfl, rfl⟩ := Prod.mk.inj heq
    exact ⟨hother, rfl⟩
  split
  · rename_i hname
    cases hvalue : lastValue (emptied.map (·, "")) name with
    | none => exact absurd (List.mem_map_of_mem hname) (lastValue_eq_none_iff.mp hvalue "")
    | some value =>
        obtain ⟨earlier, later, heq, -⟩ := lastValue_eq_some_iff.mp hvalue
        have hpair : (name, value) ∈ emptied.map (·, "") := by
          rw [heq]
          exact List.mem_append_right earlier List.mem_cons_self
        rw [(hmem hpair).2]
  · rename_i hname
    exact lastValue_eq_none_iff.mpr fun value h => hname (hmem h).1

theorem givenBy_eq_none_iff {members assigned : List (String × String)} :
    givenBy members assigned name = none ↔
      (∀ value, (name, value) ∉ members) ∧ ∀ value, (name, value) ∉ assigned := by
  rw [givenBy, Option.or_eq_none_iff, lastValue_eq_none_iff, lastValue_eq_none_iff, and_comm]

/-- Where names that nothing is bound to are assigned the empty string, wherever these assignments
stand among the others, every name reads as before. -/
theorem read_givenBy_emptied {members before after : List (String × String)}
    {emptied : List String} (h : ∀ name ∈ emptied, givenBy members (before ++ after) name = none)
    (name : String) :
    (givenBy members (before ++ after)).read name =
      (givenBy members (before ++ emptied.map (·, "") ++ after)).read name := by
  apply Environment.read_eq_of_empty
  by_cases hname : name ∈ emptied
  · have hnone := h name hname
    rw [givenBy, lastValue_append, Option.or_eq_none_iff, Option.or_eq_none_iff] at hnone
    obtain ⟨⟨hafter, -⟩, -⟩ := hnone
    refine Or.inr (Or.inl ⟨h name hname, ?_⟩)
    rw [givenBy, lastValue_append, lastValue_append, hafter, lastValue_emptied, if_pos hname]
    rfl
  · left
    rw [givenBy, givenBy, lastValue_append, lastValue_append, lastValue_append, lastValue_emptied,
      if_neg hname, Option.none_or]

end Values

namespace CommandLine

variable {options : Options} {files : String → FileState} {setting : Option String}
  {arguments : List String} {members assigned : List (String × String)}

/-! ## Lines of the report -/

/-- How a name is reported that nothing is bound to. -/
def unboundLine (name : String) : String :=
  "DEBUG predlang: Variable " ++ name ++ " is unbound, reading as empty\n"

theorem writeInLog_of_isWord {c : Char} (h : isWord c = true) : writeInLog c = [c] := by
  obtain ⟨hlow, hhigh⟩ := toNat_of_isWord h
  have hcontrol : ¬(c = '\x1b' ∨ c = '\x07' ∨ c = '\x08' ∨ c = '\x0c' ∨ c = '\x7f') := by
    rintro (rfl | rfl | rfl | rfl | rfl)
    · exact absurd hlow (by decide)
    · exact absurd hlow (by decide)
    · exact absurd hlow (by decide)
    · exact absurd hlow (by decide)
    · exact absurd hhigh (by decide)
  have hrange : ¬(0x80 ≤ c.toNat ∧ c.toNat ≤ 0x9f) := by omega
  rw [writeInLog, if_neg hcontrol]
  exact if_neg hrange

theorem inLog_of_isWord {text : String} (h : ∀ c ∈ text.toList, isWord c = true) :
    inLog text = text := by
  rw [inLog, List.flatMap_congr fun c hc => writeInLog_of_isWord (h c hc), List.flatMap_singleton',
    String.ofList_toList]

/-- The name of a variable stands in a line of the log as it is. -/
theorem write_unbound (h : (Term.var name).WellFormed) :
    (LogLine.mk .debug .program
      ("Variable " ++ name ++ " is unbound, reading as empty")).write = unboundLine name := by
  have hfront : Level.debug.name ++ " " ++ Source.program.name ++ ": " ++ inLog "Variable " =
      "DEBUG predlang: Variable " := by decide +kernel
  have hend : inLog " is unbound, reading as empty" ++ "\n" =
      " is unbound, reading as empty\n" := by decide +kernel
  have hname : inLog name = name := inLog_of_isWord h.2
  unfold unboundLine
  rw [LogLine.write, inLog_append ("Variable " ++ name), inLog_append "Variable ", hname, ← hfront,
    ← hend]
  simp only [String.append_assoc]

/-- Of lines at one level, all are written if the level is admitted. -/
theorem writeLog_map {threshold : Threshold} {line : String → LogLine} {names : List String}
    {text : String → String} (hlevel : ∀ name, threshold.admits (line name).level = true)
    (htext : ∀ name ∈ names, (line name).write = text name) :
    writeLog threshold (names.map line) = String.join (names.map text) := by
  induction names with
  | nil => rfl
  | cons name names ih =>
      obtain ⟨hname, hnames⟩ := List.forall_mem_cons.mp htext
      rw [List.map_cons, List.map_cons, String.join_cons, writeLog_cons, if_pos (hlevel name), hname,
        ih hnames]

/-! ## Runs that evaluate -/

/-- A run evaluates a predicate, with some members of a file and some assignments on top. -/
structure Options.Evaluates (options : Options) (files : String → FileState) (p : Predicate)
    (members assigned : List (String × String)) : Prop where
  parsed : Predicate.parse options.predicate = .ok p
  task : options.task = .evaluate
  file : FileGives files options.bindingsFile (.ok members)
  given : options.assignments = assigned.map assigning
  named : ∀ pair ∈ assigned, IsName pair.1

namespace Options.Evaluates

/-- The names that a run reports. -/
def reported (p : Predicate) (members assigned : List (String × String)) : List String :=
  p.variables.members.filter fun name => (givenBy members assigned name).isNone

theorem run_eq (h : options.Evaluates files p members assigned) :
    options.run files =
      (.printed (resultText (p.evaluate (givenBy members assigned)).value),
        ⟨.trace, .predicates,
            "Parsed predicate " ++ showQuoted options.predicate ++ " as " ++ p.canonical⟩ ::
          (reported p members assigned).map fun name =>
            ⟨.debug, .program, "Variable " ++ name ++ " is unbound, reading as empty"⟩) := by
  rw [Options.run, h.parsed, h.task, bindings_of_assigning h.file h.given h.named]
  dsimp only
  rw [unboundNames, Bindings.lookup_bindAll_ofList]
  rfl

/-- Whatever is logged, a run prints the value of the predicate. -/
theorem respond_eq (h : options.Evaluates files p members assigned)
    (hrequest : Request.ofArguments arguments = .ok (.run options)) (setting : Option String) :
    respond arguments setting files =
      .ok ⟨0, if (p.evaluate (givenBy members assigned)).value then "True\n" else "False\n",
        writeLog (.ofSetting setting) (options.run files).2⟩ := by
  rw [respond, hrequest]
  dsimp only
  rw [h.run_eq, ← resultText_append]
  rfl

/-- At the level for debugging, nothing but the names is reported. -/
theorem writeLog_eq (h : options.Evaluates files p members assigned)
    (hsetting : Threshold.ofSetting setting = some .debug) :
    writeLog (.ofSetting setting) (options.run files).2 =
      String.join ((reported p members assigned).map unboundLine) := by
  have hquiet : Threshold.admits (some .debug) .trace = false := rfl
  rw [h.run_eq, hsetting, writeLog_cons]
  dsimp only
  rw [hquiet, if_neg Bool.false_ne_true, String.empty_append]
  refine writeLog_map (fun _ => rfl) fun name hname => write_unbound ?_
  have hvariable : name ∈ p.variables := (List.mem_filter.mp hname).1
  exact (wellFormed_of_parse h.parsed).1.var (StringSet.mem_ofList.mp hvariable)

theorem mem_reported_iff :
    name ∈ reported p members assigned ↔
      name ∈ p.variables ∧ givenBy members assigned name = none := by
  rw [reported, List.mem_filter, Option.isNone_iff_eq_none, StringSet.mem_def]

/-- Names that a run reports can be assigned the empty string between its assignments. -/
theorem emptied {before after : List (String × String)} {names : List String}
    (h : options.Evaluates files p members (before ++ after))
    (hreported : ∀ name ∈ names, name ∈ reported p members (before ++ after)) :
    Options.Evaluates
      { options with
        assignments := before.map assigning ++ names.map (· ++ "=") ++ after.map assigning }
      files p members (before ++ names.map (·, "") ++ after) where
  parsed := h.parsed
  task := h.task
  file := h.file
  given := by
    have hnames : names.map (· ++ "=") = (names.map (·, "")).map assigning := by
      rw [List.map_map]
      exact List.map_congr_left fun name _ => String.append_empty.symm
    rw [hnames, List.map_append, List.map_append]
  named := by
    intro pair hpair
    rcases List.mem_append.mp hpair with hpair | hafter
    · rcases List.mem_append.mp hpair with hbefore | hempty
      · exact h.named pair (List.mem_append_left after hbefore)
      · obtain ⟨name, hname, rfl⟩ := List.mem_map.mp hempty
        have hvariable := (mem_reported_iff.mp (hreported name hname)).1
        have hword := (wellFormed_of_parse h.parsed).1.var (StringSet.mem_ofList.mp hvariable)
        exact hword.isName
    · exact h.named pair (List.mem_append_right before hafter)

end Options.Evaluates

/-- A run that logs at the level for debugging reports exactly the variables of its predicate which
neither the file nor an assignment binds, in increasing order.  All that is looked up in vain is
among them.  To assign the empty string to any of them, at any place among the assignments, does not
change what is printed. -/
theorem respond_reports_unbound {setting : Option String}
    (hrequest : Request.ofArguments arguments = .ok (.run options))
    (hsetting : Threshold.ofSetting setting = some .debug)
    (h : options.Evaluates files p members assigned) :
    ∃ names : List String,
      respond arguments setting files =
          .ok ⟨0, if (p.evaluate (givenBy members assigned)).value then "True\n" else "False\n",
            String.join (names.map unboundLine)⟩ ∧
        names.Pairwise (· < ·) ∧
        (∀ name, name ∈ names ↔ Event.term (.var name) ∈ Traversal.full.visit p ∧
          (∀ value, (name, value) ∉ members) ∧ ∀ value, (name, value) ∉ assigned) ∧
        (∀ name ∈ (p.evaluate (givenBy members assigned)).lookups,
          givenBy members assigned name = none → name ∈ names) ∧
        ∀ (emptied before after arguments' : List String) (setting' : Option String),
          (∀ name ∈ emptied, name ∈ names) → options.assignments = before ++ after →
          Request.ofArguments arguments' = .ok (.run
            { options with assignments := before ++ emptied.map (· ++ "=") ++ after }) →
          ∃ log, respond arguments' setting' files =
            .ok ⟨0, if (p.evaluate (givenBy members assigned)).value then "True\n" else "False\n",
              log⟩ := by
  refine ⟨Options.Evaluates.reported p members assigned, ?_, ?_, ?_, ?_, ?_⟩
  · rw [h.respond_eq hrequest, h.writeLog_eq hsetting]
  · exact p.variables.increasing.filter _
  · intro name
    rw [Options.Evaluates.mem_reported_iff, Predicate.mem_variables_iff,
      Predicate.mem_occurrences_iff, givenBy_eq_none_iff]
  · intro name hname hnone
    have hvariable : name ∈ p.variables :=
      Predicate.mem_variables_iff.mpr ((p.lookups_sublist_occurrences _).subset hname)
    exact Options.Evaluates.mem_reported_iff.mpr ⟨hvariable, hnone⟩
  · intro emptied before after arguments' setting' hemptied hgiven hrequest'
    obtain ⟨before, after, rfl, rfl, rfl⟩ := List.map_eq_append_iff.mp (h.given.symm.trans hgiven)
    have hread := read_givenBy_emptied fun name hname =>
      (Options.Evaluates.mem_reported_iff.mp (hemptied name hname)).2
    have hvalue := p.evaluate_congr fun name _ => hread name
    rw [(h.emptied hemptied).respond_eq hrequest' setting', hvalue]
    exact ⟨_, rfl⟩

theorem isObjectText_one : Json.IsObjectText [("b", "1")] "\x7b\"b\":\"1\"\x7d" := by
  have hentries : (Bindings.ofJson "\x7b\"b\":\"1\"\x7d").map Bindings.entries =
      .ok [("b", "1")] := by decide +kernel
  cases hjson : Bindings.ofJson "\x7b\"b\":\"1\"\x7d" with
  | error fault =>
      rw [hjson] at hentries
      contradiction
  | ok b =>
      rw [hjson] at hentries
      obtain ⟨members, rfl, hobject⟩ := Bindings.ofJson_eq_ok_iff_isObjectText.mp hjson
      have hreverse : members.reverse ++ [] = [("b", "1")] :=
        (Bindings.entries_bindAll ∅ members).symm.trans (Except.ok.inj hentries)
      rw [List.append_nil, List.reverse_eq_iff] at hreverse
      rw [← List.reverse_singleton, ← hreverse]
      exact hobject

/-- The name `c` is reported though it is not looked up, and so is `e`, which is.  Both can be bound
to the empty string in front of the other assignment. -/
theorem respond_reports_unbound_or :
    let files : String → FileState := fun _ => .file "\x7b\"b\":\"1\"\x7d".toUTF8
    ∃ names : List String, ("c" ∈ names ∧ "e" ∈ names) ∧ ("a" ∉ names ∧ "b" ∉ names) ∧
      respond ["not e and (a or b == c)", "a=y", "--vars-file", "f"] (some "debug") files =
        .ok ⟨0, "True\n", String.join (names.map unboundLine)⟩ ∧
      ∃ log, respond ["not e and (a or b == c)", "c=", "e=", "a=y", "--vars-file", "f"] none files =
        .ok ⟨0, "True\n", log⟩ := by
  intro files
  let p : Predicate := .and (.not (.present (.var "e")))
    (.or (.present (.var "a")) (.equal (.var "b") (.var "c")))
  have hrequest : Request.ofArguments ["not e and (a or b == c)", "a=y", "--vars-file", "f"] =
      .ok (.run ⟨"not e and (a or b == c)", ["a=y"], some "f", .evaluate⟩) := by decide +kernel
  have hevaluates : Options.Evaluates ⟨"not e and (a or b == c)", ["a=y"], some "f", .evaluate⟩
      files p [("b", "1")] [("a", "y")] := by
    refine ⟨by decide +kernel, rfl, .object rfl isObjectText_one, by decide, ?_⟩
    · exact List.forall_mem_singleton.mpr ⟨by decide, by decide⟩
  obtain ⟨names, hresponse, -, hnames, -, hemptied⟩ :=
    respond_reports_unbound hrequest (by decide +kernel : Threshold.ofSetting (some "debug") = _)
      hevaluates
  have hc : "c" ∈ names := (hnames "c").mpr ⟨by decide, by simp, by simp⟩
  have he : "e" ∈ names := (hnames "e").mpr ⟨by decide, by simp, by simp⟩
  refine ⟨names, ⟨hc, he⟩, ⟨fun ha => ?_, fun hb => ?_⟩, hresponse, ?_⟩
  · exact ((hnames "a").mp ha).2.2 "y" List.mem_cons_self
  · exact ((hnames "b").mp hb).2.1 "1" List.mem_cons_self
  · exact hemptied ["c", "e"] [] ["a=y"] _ none (by simp [hc, he]) rfl (by decide +kernel)

end CommandLine

end PredicateLanguage
