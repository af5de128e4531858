import PredicateLanguage.Proofs.GivenBindings

/-!
# What decides a run

The answer of a run is told by rules: a predicate that cannot be read comes before everything else,
a form that is asked for before the bindings, and the file of bindings before the assignments.  The
rules leave no run without an answer and no choice between two.
-/

namespace PredicateLanguage.CommandLine

/-! ## Rules -/

/-- What the file of bindings of a run gives: some members, or the message that tells why there are
none. -/
inductive FileGives (files : String → FileState) :
    Option String → Except String (List (String × String)) → Prop
  | unnamed : FileGives files none (.ok [])
  | unreadable {path cause : String} (h : NoText (files path) cause) :
      FileGives files (some path) (.error
        ("Failed to read variables file " ++ path ++ "\n\nCaused by:\n    " ++ cause))
  | notObject {path text : String} {fault : Json.Fault} (hfile : files path = .file text.toUTF8)
      (h : ∀ members, ¬Json.IsObjectText members text)
      (hfault : Bindings.ofJson text = .error fault) :
      FileGives files (some path) (.error
        (path ++ " is not a JSON object of strings" ++ "\n\nCaused by:\n    " ++ fault.message))
  | object {path text : String} {members : List (String × String)}
      (hfile : files path = .file text.toUTF8) (h : Json.IsObjectText members text) :
      FileGives files (some path) (.ok members)

/-- The answer of a run where no log setting is given. -/
inductive Options.Answers (options : Options) (files : String → FileState) : Response → Prop
  | rejected {e : SyntaxError} (h : Predicate.parse options.predicate = .error e) :
      options.Answers files
        ⟨2, "None\n", "WARN predlang: Invalid predicate: " ++ inLog e.message ++ "\n"⟩
  | json {p : Predicate} (hp : Predicate.parse options.predicate = .ok p)
      (htask : options.task = .printJson) : options.Answers files ⟨0, p.toJson ++ "\n", ""⟩
  | canonical {p : Predicate} (hp : Predicate.parse options.predicate = .ok p)
      (htask : options.task = .printCanonical) : options.Answers files ⟨0, p.canonical ++ "\n", ""⟩
  | badFile {p : Predicate} {message : String}
      (hp : Predicate.parse options.predicate = .ok p) (htask : options.task = .evaluate)
      (hfile : FileGives files options.bindingsFile (.error message)) :
      options.Answers files ⟨1, "", "Error: " ++ message ++ "\n"⟩
  | badAssignment {p : Predicate} {members assigned : List (String × String)} {bad : String}
      {later : List String} {message : String}
      (hp : Predicate.parse options.predicate = .ok p) (htask : options.task = .evaluate)
      (hfile : FileGives files options.bindingsFile (.ok members))
      (hgiven : options.assignments = assigned.map assigning ++ bad :: later)
      (hnames : ∀ pair ∈ assigned, IsName pair.1) (hbad : Malformed bad message) :
      options.Answers files ⟨1, "", "Error: " ++ message ++ "\n"⟩
  | evaluated {p : Predicate} {members assigned : List (String × String)} {value : Bool}
      (hp : Predicate.parse options.predicate = .ok p) (htask : options.task = .evaluate)
      (hfile : FileGives files options.bindingsFile (.ok members))
      (hgiven : options.assignments = assigned.map assigning)
      (hnames : ∀ pair ∈ assigned, IsName pair.1)
      (hvalue : (p.evaluate (givenBy members assigned)).value = value) :
      options.Answers files ⟨0, if value then "True\n" else "False\n", ""⟩

variable {options : Options} {files : String → FileState} {message : String}
  {members assigned : List (String × String)}

/-! ## What the rules need is found by a run -/

theorem exists_fileGives (files : String → FileState) (file : Option String) :
    ∃ result, FileGives files file result := by
  cases file with
  | none => exact ⟨_, .unnamed⟩
  | some path =>
      obtain ⟨text, hfile⟩ | ⟨cause, hcause⟩ := file_or_noText (files path)
      · cases hjson : Bindings.ofJson text with
        | ok bindings =>
            obtain ⟨members, -, hmembers⟩ := Bindings.ofJson_eq_ok_iff_isObjectText.mp hjson
            exact ⟨_, .object hfile hmembers⟩
        | error fault =>
            refine ⟨_, .notObject hfile (fun members hmembers => ?_) hjson⟩
            have hok := Bindings.ofJson_eq_ok_iff_isObjectText.mpr ⟨members, rfl, hmembers⟩
            rw [hjson] at hok
            contradiction
      · exact ⟨_, .unreadable hcause⟩

theorem report_of_cause {failure : Failure} {cause : String} (h : failure.cause? = some cause) :
    failure.report = "Error: " ++ (failure.message ++ "\n\nCaused by:\n    " ++ cause) ++ "\n" := by
  have hcaused : "\n\nCaused by:\n    " = "\n" ++ "\nCaused by:\n    " := by decide +kernel
  rw [Failure.report, h, hcaused]
  simp only [String.append_assoc]

/-- Where the file gives nothing, that is what comes of the bindings. -/
theorem bindings_of_fileGives_error (h : FileGives files options.bindingsFile (.error message)) :
    ∃ failure, options.bindings files = .error failure ∧
      failure.report = "Error: " ++ message ++ "\n" := by
  rw [Options.bindings]
  -- The rules are about a file that is given, so that it can be any.
  generalize options.bindingsFile = file at h
  cases h with
  | @unreadable path _ h =>
      obtain ⟨reason, htext, rfl⟩ := text_of_noText h
      refine ⟨.unreadable path reason, ?_, report_of_cause rfl⟩
      simp only [fileBindings, htext]
      rfl
  | @notObject path text fault hfile _ hfault =>
      refine ⟨.notBindings path fault, ?_, report_of_cause rfl⟩
      simp only [fileBindings, hfile, text_file, hfault]
      rfl

/-- The assignments are put on top of what the file gives. -/
theorem bindings_of_fileGives (h : FileGives files options.bindingsFile (.ok members)) :
    options.bindings files =
      (Bindings.ofList members).bindAll <$> options.assignments.mapM assignment := by
  rw [Options.bindings]
  generalize options.bindingsFile = file at h
  cases h with
  | unnamed => rfl
  | object hfile h =>
      have hjson := Bindings.ofJson_eq_ok_iff_isObjectText.mpr ⟨_, rfl, h⟩
      simp only [fileBindings, hfile, text_file, hjson]
      rfl

theorem bindings_of_malformed {bad : String} {later : List String}
    (hfile : FileGives files options.bindingsFile (.ok members))
    (hgiven : options.assignments = assigned.map assigning ++ bad :: later)
    (hnames : ∀ pair ∈ assigned, IsName pair.1) (hbad : Malformed bad message) :
    ∃ failure, options.bindings files = .error failure ∧
      failure.report = "Error: " ++ message ++ "\n" := by
  obtain ⟨failure, hfailure, hreport⟩ := assignment_of_malformed hbad
  refine ⟨failure, ?_, hreport⟩
  rw [bindings_of_fileGives hfile, hgiven, mapM_assignment_of_error hnames hfailure]
  rfl

theorem bindings_of_assigning (hfile : FileGives files options.bindingsFile (.ok members))
    (hgiven : options.assignments = assigned.map assigning)
    (hnames : ∀ pair ∈ assigned, IsName pair.1) :
    options.bindings files = .ok ((Bindings.ofList members).bindAll assigned) := by
  rw [bindings_of_fileGives hfile, hgiven, mapM_assignment_assigning hnames]
  rfl

/-- Some rule tells an answer of every run. -/
theorem exists_answers (options : Options) (files : String → FileState) :
    ∃ response, options.Answers files response := by
  -- The questions are asked in the order in which the rules come before each other.
  cases hp : Predicate.parse options.predicate with
  | error e => exact ⟨_, .rejected hp⟩
  | ok p =>
      cases htask : options.task with
      | printJson => exact ⟨_, .json hp htask⟩
      | printCanonical => exact ⟨_, .canonical hp htask⟩
      | evaluate =>
          obtain ⟨result, hfile⟩ := exists_fileGives files options.bindingsFile
          cases result with
          | error message => exact ⟨_, .badFile hp htask hfile⟩
          | ok members =>
              obtain ⟨assigned, hnames, hgiven⟩ |
                  ⟨assigned, bad, later, message, hnames, hbad, hgiven⟩ :=
                map_assigning_or_malformed options.assignments
              · exact ⟨_, .evaluated hp htask hfile hgiven hnames rfl⟩
              · exact ⟨_, .badAssignment hp htask hfile hgiven hnames hbad⟩

/-! ## Logs -/

section Logs

variable {threshold : Threshold} {line : LogLine}

theorem inLog_append (text rest : String) : inLog (text ++ rest) = inLog text ++ inLog rest := by
  rw [inLog, String.toList_append, List.flatMap_append, String.ofList_append]
  rfl

/-- What stands in front of a message is told by the line. -/
theorem write_rejection (message : String) :
    (LogLine.mk .warn .program ("Invalid predicate: " ++ message)).write =
      "WARN predlang: Invalid predicate: " ++ inLog message ++ "\n" := by
  have hfront : Level.warn.name ++ " " ++ Source.program.name ++ ": " ++
      inLog "Invalid predicate: " = "WARN predlang: Invalid predicate: " := by decide +kernel
  rw [LogLine.write, inLog_append, ← hfront]
  simp only [String.append_assoc]

theorem writeLog_cons (threshold : Threshold) (line : LogLine) (lines : List LogLine) :
    writeLog threshold (line :: lines) =
      (if threshold.admits line.level then line.write else "") ++ writeLog threshold lines := by
  rw [writeLog, writeLog, List.filter_cons]
  split
  · rw [List.map_cons, String.join_cons]
  · rw [String.empty_append]

/-- Lines that a threshold does not admit are not written. -/
theorem writeLog_eq_empty {lines : List LogLine}
    (h : ∀ line ∈ lines, threshold.admits line.level = false) : writeLog threshold lines = "" := by
  induction lines with
  | nil => rfl
  | cons line lines ih =>
      obtain ⟨hline, hlines⟩ := List.forall_mem_cons.mp h
      rw [writeLog_cons, hline, ih hlines]
      rfl

theorem writeLog_singleton (hline : threshold.admits line.level = true) :
    writeLog threshold [line] = line.write := by
  rw [writeLog_cons, if_pos hline]
  exact String.append_empty

end Logs

/-! ## Answers -/

/-- How a run answers where no log setting is given. -/
def Options.response (options : Options) (files : String → FileState) : Response :=
  (options.run files).1.response (writeLog (.ofSetting none) (options.run files).2)

/-- What is printed of a value. -/
theorem resultText_append (value : Bool) :
    resultText value ++ "\n" = if value then "True\n" else "False\n" := by
  cases value with
  | true => decide +kernel
  | false => decide +kernel

/-- That a predicate was read is not told. -/
theorem writeLog_parsed (text : String) :
    writeLog (.ofSetting none) [⟨.trace, .predicates, text⟩] = "" :=
  writeLog_eq_empty (List.forall_mem_singleton.mpr rfl)

/-- A run without bindings reports what is wrong with them, and nothing else. -/
theorem Options.response_of_failure {p : Predicate} {failure : Failure}
    (hp : Predicate.parse options.predicate = .ok p) (htask : options.task = .evaluate)
    (hfailure : options.bindings files = .error failure) :
    options.response files = ⟨1, "", failure.report⟩ := by
  rw [Options.response, Options.run, hp, htask, hfailure]
  dsimp only
  rw [writeLog_parsed, Ending.response, String.empty_append]

/-- A run answers as every rule that applies to it tells. -/
theorem Options.Answers.response_eq {response : Response} (h : options.Answers files response) :
    options.response files = response := by
  cases h with
  | rejected h =>
      rw [Options.response, Options.run, h]
      dsimp only
      rw [writeLog_cons, writeLog_singleton rfl, write_rejection]
      exact congrArg (Response.mk 2 "None\n") String.empty_append
  | json hp htask | canonical hp htask =>
      rw [Options.response, Options.run, hp, htask]
      dsimp only
      rw [writeLog_parsed]
      rfl
  | badFile hp htask hfile =>
      obtain ⟨failure, hfailure, hreport⟩ := bindings_of_fileGives_error hfile
      rw [Options.response_of_failure hp htask hfailure, hreport]
  | badAssignment hp htask hfile hgiven hnames hbad =>
      obtain ⟨failure, hfailure, hreport⟩ := bindings_of_malformed hfile hgiven hnames hbad
      rw [Options.response_of_failure hp htask hfailure, hreport]
  | evaluated hp htask hfile hgiven hnames hvalue =>
      rw [Options.response, Options.run, hp, htask, bindings_of_assigning hfile hgiven hnames]
      dsimp only
      rw [writeLog_eq_empty, Bindings.lookup_bindAll_ofList, hvalue, Ending.response,
        resultText_append]
      refine List.forall_mem_cons.mpr ⟨rfl, fun line hline => ?_⟩
      obtain ⟨name, -, rfl⟩ := List.mem_map.mp hline
      rfl

/-- A run answers, and exactly as the rules tell. -/
theorem exists_respond_eq_and_answers_iff {arguments : List String}
    (h : Request.ofArguments arguments = .ok (.run options)) (files : String → FileState) :
    ∃ response, respond arguments none files = .ok response ∧
      ∀ r, options.Answers files r ↔ r = response := by
  have hrespond : respond arguments none files = .ok (options.response files) := by
    rw [respond, h]
    rfl
  refine ⟨options.response files, hrespond, fun r => ⟨fun hr => hr.response_eq.symm, ?_⟩⟩
  rintro rfl
  obtain ⟨response, hresponse⟩ := exists_answers options files
  rw [hresponse.response_eq]
  exact hresponse

/-- Arguments ask for a run, and the program and the rules give it the same answer and no other. -/
def Answered (files : String → FileState) (arguments : List String) (options : Options)
    (response : Response) : Prop :=
  Request.ofArguments arguments = .ok (.run options) ∧
    respond arguments none files = .ok response ∧
    ∀ r, options.Answers files r ↔ r = response

/-- Runs of every kind.  The last of two assignments to a name counts, its value may have a `=` in
it, and it comes before the file.  What is wrong with the file is told before a malformed
assignment, and of two malformed assignments the first is told.  Neither matters to a run that
prints a form of its predicate or cannot read it. -/
theorem exists_respond_eq_and_answers_iff_reassigned :
    let files : String → FileState := fun path =>
      if path = "f" then .file "\x7b\"b\":\"1\"\x7d".toUTF8
      else if path = "g" then .file "\x7b\"b\":1\x7d".toUTF8
      else .absent
    Answered files ["a == 'y=z'", "a=x", "a=y=z"]
        ⟨"a == 'y=z'", ["a=x", "a=y=z"], none, .evaluate⟩ ⟨0, "True\n", ""⟩ ∧
      Answered files ["b == '1'", "b=2", "--vars-file", "f"]
        ⟨"b == '1'", ["b=2"], some "f", .evaluate⟩ ⟨0, "False\n", ""⟩ ∧
      Answered files ["b", "b", "--vars-file", "g"] ⟨"b", ["b"], some "g", .evaluate⟩
        ⟨1, "", "Error: g is not a JSON object of strings\n\nCaused by:\n    " ++
          "invalid type: integer \x601\x60, expected a string\n"⟩ ∧
      Answered files ["b", "b", "--vars-file", "h"] ⟨"b", ["b"], some "h", .evaluate⟩
        ⟨1, "", "Error: Failed to read variables file h\n\nCaused by:\n    " ++
          "No such file or directory (os error 2)\n"⟩ ∧
      Answered files ["b", "a=1", "=\"x\"", "b"] ⟨"b", ["a=1", "=\"x\"", "b"], none, .evaluate⟩
        ⟨1, "", "Error: Missing variable name in \"=\\\"x\\\"\"\n"⟩ ∧
      Answered files ["b", "b", "--vars-file", "h", "--json"] ⟨"b", ["b"], some "h", .printJson⟩
        ⟨0, "\x7b\"truthy\":\x7b\"variable\":\"b\"\x7d\x7d\n", ""⟩ ∧
      Answered files ["--canonical", "(a and (b))  or c", "=x"]
        ⟨"(a and (b))  or c", ["=x"], none, .printCanonical⟩ ⟨0, "a and b or c\n", ""⟩ ∧
      Answered files ["b ==", "b", "--vars-file", "h", "--json"]
        ⟨"b ==", ["b"], some "h", .printJson⟩
        ⟨2, "None\n",
          "WARN predlang: Invalid predicate: Unexpected end of input at offset 4\n"⟩ := by
  intro files
  have answered {arguments : List String} {options : Options} {response : Response}
      (hrequest : Request.ofArguments arguments = .ok (.run options))
      (hrespond : respond arguments none files = .ok response) :
      Answered files arguments options response := by
    obtain ⟨_, hresponse, hrules⟩ := exists_respond_eq_and_answers_iff hrequest files
    obtain rfl := Except.ok.inj (hresponse.symm.trans hrespond)
    exact ⟨hrequest, hrespond, hrules⟩
  refine ⟨?_, ?_, ?_, ?_, ?_, ?_, ?_, ?_⟩ <;>
    exact answered (by decide +kernel) (by decide +kernel)

end PredicateLanguage.CommandLine
