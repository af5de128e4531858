import PredicateLanguage.Json.Tree
import PredicateLanguage.Proofs.CanonicalTokens
import PredicateLanguage.Proofs.JsonStrings

/-!
# Reading JSON forms back

A predicate is read back from its JSON form exactly if no more containers are open at the same
time in that form than may be.  What is written is free of every other fault, so a form with
too many open containers is refused for that reason.
-/

namespace PredicateLanguage

/-- The containers that are open at the same time in the JSON form of a predicate. -/
def Predicate.containers : Predicate → Nat
  | equal _ _ | notEqual _ _ | oneOf _ _ | noneOf _ _ => 3
  | present _ => 2
  | not operand => operand.containers + 1
  | and left right | or left right => max left.containers right.containers + 2

namespace Json

variable {α β κ : Type}

/-! ## Steps of a decoder -/

namespace Decoder

variable {d : Decoder α} {next : α → Decoder β} {s rest : List Char} {x : α} {fault : Fault}

theorem run_bind_of_ok (h : d.run s = .ok (x, rest)) :
    (d >>= next).run s = (next x).run rest := by
  rw [run_bind, h]

theorem run_bind_of_error (h : d.run s = .error fault) :
    (d >>= next).run s = .error fault := by
  rw [run_bind, h]

end Decoder

open Decoder

section Steps

variable {part : Part} {c : Char} {s : List Char}

theorem run_ahead (hc : isBlank c = false) :
    (ahead part).run (c :: s) = .ok (c, c :: s) := by
  simp only [ahead, List.dropWhile_cons, hc]
  rfl

theorem run_ahead_bind {next : Char → Decoder β} (hc : isBlank c = false) :
    (ahead part >>= next).run (c :: s) = (next c).run (c :: s) :=
  run_bind_of_ok (run_ahead hc)

theorem run_skip_bind {next : Unit → Decoder β} :
    (skip >>= next).run (c :: s) = (next ()).run s :=
  run_bind_of_ok rfl

theorem run_colon_bind {next : Unit → Decoder β} :
    (colon >>= next).run (':' :: s) = (next ()).run s := by
  refine run_bind_of_ok (x := ()) ?_
  rw [colon, run_ahead_bind (by decide), if_pos rfl]
  rfl

theorem run_openBracket_zero {next : Unit → Decoder β} :
    (openBracket 0 >>= next).run s = .error .tooDeep :=
  run_bind_of_error rfl

theorem run_openBracket_succ {room : Nat} {next : Unit → Decoder β} :
    (openBracket (room + 1) >>= next).run (c :: s) = (next ()).run s :=
  run_bind_of_ok rfl

end Steps

/-! ## Decoders that read back what is written -/

/-- Whatever stands behind the text, the decoder reads `x` from it if the room is as much as
needed, and ends for want of room if it is less. -/
structure Restores (d : Decoder α) (room needed : Nat) (text : List Char) (x : α) : Prop where
  read : needed ≤ room → ∀ rest, d.run (text ++ rest) = .ok (x, rest)
  refused : room < needed → ∀ rest, d.run (text ++ rest) = .error .tooDeep

/-- The text starts with the bracket of a container or with the quote of a string. -/
def OpensValue (text : List Char) : Prop :=
  ∃ c cs, text = c :: cs ∧ isBlank c = false ∧ c ≠ ']'

/-- What is made of a value that is read needs no more room. -/
theorem Restores.bind_pure {d : Decoder α} {room needed : Nat} {text : List Char} {x : α} {y : β}
    {next : α → Decoder β} (h : Restores d room needed text x) (hnext : next x = pure y) :
    Restores (d >>= next) room needed text y where
  read hroom rest := by
    rw [run_bind_of_ok (h.read hroom rest), hnext, run_pure]
  refused hroom rest := run_bind_of_error (h.refused hroom rest)

theorem Restores.map {d : Decoder α} {room needed : Nat} {text : List Char} {x : α}
    (h : Restores d room needed text x) (f : α → β) :
    Restores (f <$> d) room needed text (f x) :=
  h.bind_pure rfl

theorem OpensValue.append {text : List Char} (h : OpensValue text) (more : List Char) :
    OpensValue (text ++ more) := by
  obtain ⟨c, cs, rfl, hblank, hclose⟩ := h
  exact ⟨c, cs ++ more, rfl, hblank, hclose⟩

theorem chars_writeString (s : String) :
    (writeString s).chars = '"' :: (s.toList.flatMap writeChar ++ ['"']) := by
  rw [writeString, Writer.chars_between, Writer.chars_ofChars]
  rfl

theorem opensValue_writeString (s : String) : OpensValue (writeString s).chars := by
  rw [chars_writeString]
  exact ⟨_, _, rfl, by decide, by decide⟩

theorem run_stringBody_write (s : String) (rest : List Char) :
    stringBody.run (s.toList.flatMap writeChar ++ '"' :: rest) = .ok (s, rest) :=
  readString_write s rest

theorem restores_string (room : Nat) (s : String) :
    Restores string room 0 (writeString s).chars s where
  read _ rest := by
    rw [chars_writeString, string, List.cons_append, run_ahead_bind (by decide), if_pos rfl,
      run_skip_bind, List.append_assoc]
    exact run_stringBody_write s rest
  refused hroom := absurd hroom (Nat.not_lt_zero room)

/-! ### Tags -/

section Tagged

variable {tags : Tags κ} {tag : String} {k : κ} {room needed : Nat} {body : κ → Decoder α}
  {content : Writer} {x : α}

theorem chars_writeTagged (tag : String) (content : Writer) :
    (writeTagged tag content).chars =
      '\x7b' :: '"' :: (tag.toList.flatMap writeChar ++ '"' :: ':' ::
        (content.chars ++ ['\x7d'])) := by
  rw [writeTagged, Writer.chars_between, Writer.chars_append, Writer.chars_append,
    chars_writeString, Writer.chars_text]
  simp

theorem run_tag_bind {next : κ → Decoder β} (htag : tags.ofTag? tag = some k)
    (rest : List Char) :
    (Json.tag tags >>= next).run (tag.toList.flatMap writeChar ++ '"' :: rest) =
      (next k).run rest := by
  refine run_bind_of_ok ?_
  rw [Json.tag, run_bind_of_ok (run_stringBody_write tag rest), htag]
  rfl

/-- With room for its object, a tagged value is read by what its tag asks for. -/
theorem run_tagged (htag : tags.ofTag? tag = some k) (rest : List Char) :
    (tagged tags (room + 1) body).run ((writeTagged tag content).chars ++ rest) =
      (body k >>= fun x => do
        if (← ahead .object) = '\x7d' then
          skip
          return x
        else
          .fail .valueExpected).run (content.chars ++ '\x7d' :: rest) := by
  rw [chars_writeTagged, tagged, List.cons_append, run_ahead_bind (by decide), if_pos rfl,
    run_openBracket_succ, List.cons_append, run_ahead_bind (by decide), if_pos rfl,
    run_skip_bind, List.append_assoc, List.cons_append, run_tag_bind htag, List.cons_append,
    List.append_assoc, List.singleton_append, run_colon_bind]

theorem restores_tagged (htag : tags.ofTag? tag = some k)
    (hbody : 0 < room → Restores (body k) (room - 1) needed content.chars x) :
    Restores (tagged tags room body) room (needed + 1) (writeTagged tag content).chars x := by
  cases room with
  | zero =>
      refine ⟨fun h => absurd h (Nat.not_succ_le_zero needed), fun _ rest => ?_⟩
      rw [chars_writeTagged, tagged, List.cons_append, run_ahead_bind (by decide), if_pos rfl,
        run_openBracket_zero]
  | succ room =>
      have hcontent := hbody (Nat.succ_pos room)
      constructor
      · intro hroom rest
        rw [run_tagged htag, run_bind_of_ok (hcontent.read (Nat.le_of_succ_le_succ hroom) _),
          run_ahead_bind (by decide), if_pos rfl, run_skip_bind, run_pure]
      · intro hroom rest
        rw [run_tagged htag]
        exact run_bind_of_error (hcontent.refused (Nat.lt_of_succ_lt_succ hroom) _)

theorem opensValue_writeTagged (tag : String) (content : Writer) :
    OpensValue (writeTagged tag content).chars := by
  rw [chars_writeTagged]
  exact ⟨_, _, rfl, by decide, by decide⟩

end Tagged

/-! ### Lists -/

section Lists

variable {room m n : Nat} {first : Decoder α} {second : Decoder β} {v w : Writer} {x : α}
  {y : β} {s text : List Char}

theorem run_ahead_list_bind {next : Char → Decoder α} (h : OpensValue s) :
    ∃ c, c ≠ ']' ∧ (ahead .list >>= next).run s = (next c).run s := by
  obtain ⟨c, cs, rfl, hblank, hclose⟩ := h
  exact ⟨c, hclose, run_ahead_bind hblank⟩

theorem readMore_close (rest : List Char) : readMore .list (']' :: rest) = .ok (false, rest) :=
  rfl

/-- Behind a comma in front of a value, another item follows. -/
theorem readMore_comma (h : OpensValue s) : readMore .list (',' :: s) = .ok (true, s) := by
  obtain ⟨c, cs, rfl, hblank, hclose⟩ := h
  have hcomma : (',' :: c :: cs).dropWhile isBlank = ',' :: c :: cs := rfl
  have hvalue : (c :: cs).dropWhile isBlank = c :: cs :=
    List.dropWhile_cons_of_neg (by rw [hblank]; decide)
  rw [readMore, hcomma]
  dsimp only
  rw [if_neg (by decide), if_pos rfl, hvalue]
  exact if_neg hclose

theorem chars_writePair (v w : Writer) :
    (writeList [v, w]).chars = '[' :: (v.chars ++ ',' :: (w.chars ++ [']'])) := by
  rw [writeList, Writer.chars_between, Writer.chars_joined]
  simp [List.intercalate]

theorem opensValue_writeList (items : List Writer) : OpensValue (writeList items).chars := by
  rw [writeList, Writer.chars_between]
  exact ⟨_, _, rfl, by decide, by decide⟩

/-- With room for its list, a pair is read part by part. -/
theorem run_pair {kind : NodeKind} (hv : OpensValue v.chars) (rest : List Char) :
    (pair kind (room + 1) first second).run ((writeList [v, w]).chars ++ rest) =
      (first >>= fun x => do
        if ← more .list then
          let y ← second
          closeList
          return (x, y)
        else
          .fail (.tooShort 1 kind)).run (v.chars ++ ',' :: (w.chars ++ ']' :: rest)) := by
  rw [chars_writePair, pair, List.cons_append, run_ahead_bind (by decide), if_pos rfl,
    run_openBracket_succ, List.append_assoc, List.cons_append, List.append_assoc,
    List.singleton_append]
  obtain ⟨c, hc, hrun⟩ := run_ahead_list_bind (hv.append (',' :: (w.chars ++ ']' :: rest)))
  rw [hrun, if_neg hc]

/-- The parts of a pair are read one level below it. -/
theorem restores_pair (kind : NodeKind) (hv : OpensValue v.chars) (hw : OpensValue w.chars)
    (hfirst : 0 < room → Restores first (room - 1) m v.chars x)
    (hsecond : 0 < room → Restores second (room - 1) n w.chars y) :
    Restores (pair kind room first second) room (max m n + 1) (writeList [v, w]).chars
      (x, y) := by
  cases room with
  | zero =>
      refine ⟨fun h => absurd h (Nat.not_succ_le_zero _), fun _ rest => ?_⟩
      rw [chars_writePair, pair, List.cons_append, run_ahead_bind (by decide), if_pos rfl,
        run_openBracket_zero]
  | succ room =>
      have hx := hfirst (Nat.succ_pos room)
      have hy := hsecond (Nat.succ_pos room)
      have hmore : ∀ rest, (more .list).run (',' :: (w.chars ++ ']' :: rest)) =
          .ok (true, w.chars ++ ']' :: rest) := fun rest => readMore_comma (hw.append _)
      constructor
      · intro hroom rest
        have hm : m ≤ room := le_trans (Nat.le_max_left m n) (Nat.le_of_succ_le_succ hroom)
        have hn : n ≤ room := le_trans (Nat.le_max_right m n) (Nat.le_of_succ_le_succ hroom)
        rw [run_pair hv, run_bind_of_ok (hx.read hm _), run_bind_of_ok (hmore rest), if_pos rfl,
          run_bind_of_ok (hy.read hn _)]
        rfl
      · intro hroom rest
        rw [run_pair hv]
        by_cases hm : room < m
        · exact run_bind_of_error (hx.refused hm _)
        · have hn : room < n := by omega
          rw [run_bind_of_ok (hx.read (Nat.le_of_not_lt hm) _), run_bind_of_ok (hmore rest),
            if_pos rfl]
          exact run_bind_of_error (hy.refused hn _)

/-- The written members of a set that is not empty, with commas between them. -/
theorem chars_joined_cons (value other : String) (others : List String) :
    (Writer.joined "," ((value :: other :: others).map writeString)).chars =
      (writeString value).chars ++
        ',' :: (Writer.joined "," ((other :: others).map writeString)).chars := by
  simp [Writer.joined]

theorem opensValue_joined (value : String) (others : List String) :
    OpensValue (Writer.joined "," ((value :: others).map writeString)).chars := by
  cases others with
  | nil => exact opensValue_writeString value
  | cons other others =>
      rw [chars_joined_cons]
      exact (opensValue_writeString value).append _

/-- Written strings with commas between them are read up to the bracket behind them. -/
theorem readItems_write (earlier : List String) (value : String) (others : List String)
    (rest : List Char) :
    readItems .list string earlier
        ((Writer.joined "," ((value :: others).map writeString)).chars ++ ']' :: rest) =
      .ok (earlier.reverse ++ value :: others, rest) := by
  have hvalue := fun value tail => (restores_string 0 value).read (Nat.zero_le 0) tail
  induction others generalizing earlier value with
  | nil =>
      rw [List.map_singleton, Writer.joined, readItems_eq, hvalue]
      simp only [readMore_close, List.reverse_cons]
  | cons other others ih =>
      have hmore := readMore_comma ((opensValue_joined other others).append (']' :: rest))
      rw [chars_joined_cons, List.append_assoc, List.cons_append, readItems_eq, hvalue]
      simp only [hmore, ih, List.reverse_cons, List.append_assoc, List.singleton_append]

theorem chars_writeList_append (items : List Writer) (rest : List Char) :
    (writeList items).chars ++ rest =
      '[' :: ((Writer.joined "," items).chars ++ ']' :: rest) := by
  rw [writeList, Writer.chars_between, List.cons_append, List.cons_append, List.append_assoc,
    List.singleton_append]

theorem restores_strings (room : Nat) (values : List String) :
    Restores (strings room) room 1 (writeList (values.map writeString)).chars values := by
  constructor
  · intro hroom rest
    obtain ⟨room, rfl⟩ := Nat.exists_eq_add_of_le' hroom
    rw [chars_writeList_append, strings, run_ahead_bind (by decide), if_pos rfl,
      run_openBracket_succ, content]
    cases values with
    | nil => rfl
    | cons value values =>
        have hopens := (opensValue_joined value values).append (']' :: rest)
        obtain ⟨c, hc, hrun⟩ := run_ahead_list_bind hopens
        have hclose : c ≠ Container.list.close := hc
        refine hrun.trans ?_
        rw [if_neg hclose]
        exact readItems_write [] value values rest
  · intro hroom rest
    obtain rfl : room = 0 := Nat.lt_one_iff.mp hroom
    rw [chars_writeList_append, strings, run_ahead_bind (by decide), if_pos rfl,
      run_openBracket_zero]

end Lists

/-! ## Terms, sets and predicates -/

theorem restores_term (room : Nat) (t : Term) :
    Restores (term room) room 1 (writeTerm t).chars t := by
  cases t with
  | literal value =>
      exact restores_tagged (k := Term.literal) rfl fun _ => (restores_string _ value).map _
  | var name =>
      exact restores_tagged (k := Term.var) rfl fun _ => (restores_string _ name).map _

theorem restores_set (room : Nat) (set : StringSet) :
    Restores (Json.set room) room 1 (writeSet set).chars set := by
  have h := (restores_strings room set.members).map StringSet.ofList
  rwa [set.ofList_members] at h

theorem opensValue_writeTerm (t : Term) : OpensValue (writeTerm t).chars := by
  cases t with
  | literal value => exact opensValue_writeTagged _ _
  | var name => exact opensValue_writeTagged _ _

theorem opensValue_writePredicate (p : Predicate) : OpensValue (writePredicate p).chars := by
  cases p <;> exact opensValue_writeTagged _ _

/-- A predicate is a node in whose object there is room for one container less, and in whose
list for two less. -/
theorem predicate_eq_node (room : Nat) :
    ∃ operand joined, predicate room = node room operand joined ∧
      (0 < room → operand = predicate (room - 1)) ∧
      (1 < room → joined = predicate (room - 2)) := by
  match room with
  | 0 =>
      refine ⟨_, _, rfl, ?_, ?_⟩
      · intro h
        exact absurd h (Nat.lt_irrefl 0)
      · intro h
        exact absurd h (Nat.not_lt_zero 1)
  | 1 =>
      refine ⟨_, _, rfl, fun _ => rfl, ?_⟩
      intro h
      exact absurd h (Nat.lt_irrefl 1)
  | room + 2 => exact ⟨_, _, rfl, fun _ => rfl, fun _ => rfl⟩

/-- The two parts of a node are read two levels below it. -/
theorem restores_paired {room m n : Nat} {kind : NodeKind} {body : NodeKind → Decoder Predicate}
    {first : Decoder α} {second : Decoder β} {make : α → β → Predicate} {v w : Writer} {x : α}
    {y : β}
    (hbody : body kind = pair kind (room - 1) first second >>= fun (x, y) => pure (make x y))
    (hv : OpensValue v.chars) (hw : OpensValue w.chars)
    (hfirst : 1 < room → Restores first (room - 2) m v.chars x)
    (hsecond : 1 < room → Restores second (room - 2) n w.chars y) :
    Restores (tagged nodeTags room body) room (max m n + 2)
      (writeTagged kind.tag (writeList [v, w])).chars (make x y) := by
  refine restores_tagged (NodeKind.ofTag?_tag kind) fun _ => ?_
  rw [hbody]
  have hbelow : 0 < room - 1 → 1 < room := by omega
  have hpair : Restores (pair kind (room - 1) first second) (room - 1) (max m n + 1)
      (writeList [v, w]).chars (x, y) :=
    restores_pair kind hv hw (fun h => hfirst (hbelow h)) fun h => hsecond (hbelow h)
  exact hpair.bind_pure rfl

theorem restores_predicate (p : Predicate) (room : Nat) :
    Restores (predicate room) room p.containers (writePredicate p).chars p := by
  induction p generalizing room with
  | equal left right =>
      obtain ⟨operand, joined, heq, -, -⟩ := predicate_eq_node room
      rw [heq]
      exact restores_paired rfl (opensValue_writeTerm left) (opensValue_writeTerm right)
        (fun _ => restores_term (room - 2) left) fun _ => restores_term (room - 2) right
  | notEqual left right =>
      obtain ⟨operand, joined, heq, -, -⟩ := predicate_eq_node room
      rw [heq]
      exact restores_paired rfl (opensValue_writeTerm left) (opensValue_writeTerm right)
        (fun _ => restores_term (room - 2) left) fun _ => restores_term (room - 2) right
  | oneOf term set =>
      obtain ⟨operand, joined, heq, -, -⟩ := predicate_eq_node room
      rw [heq]
      exact restores_paired rfl (opensValue_writeTerm term) (opensValue_writeList _)
        (fun _ => restores_term (room - 2) term) fun _ => restores_set (room - 2) set
  | noneOf term set =>
      obtain ⟨operand, joined, heq, -, -⟩ := predicate_eq_node room
      rw [heq]
      exact restores_paired rfl (opensValue_writeTerm term) (opensValue_writeList _)
        (fun _ => restores_term (room - 2) term) fun _ => restores_set (room - 2) set
  | present term =>
      obtain ⟨operand, joined, heq, -, -⟩ := predicate_eq_node room
      rw [heq]
      refine restores_tagged (NodeKind.ofTag?_tag .present) fun _ => ?_
      exact (restores_term (room - 1) term).bind_pure rfl
  | not operand ih =>
      obtain ⟨inner, joined, heq, hinner, -⟩ := predicate_eq_node room
      rw [heq]
      refine restores_tagged (NodeKind.ofTag?_tag .not) fun hroom => ?_
      have hoperand := ih (room - 1)
      rw [← hinner hroom] at hoperand
      exact hoperand.bind_pure rfl
  | and left right ihl ihr =>
      obtain ⟨operand, joined, heq, -, hjoined⟩ := predicate_eq_node room
      rw [heq]
      exact restores_paired rfl (opensValue_writePredicate left) (opensValue_writePredicate right)
        (fun hroom => hjoined hroom ▸ ihl (room - 2))
        fun hroom => hjoined hroom ▸ ihr (room - 2)
  | or left right ihl ihr =>
      obtain ⟨operand, joined, heq, -, hjoined⟩ := predicate_eq_node room
      rw [heq]
      exact restores_paired rfl (opensValue_writePredicate left) (opensValue_writePredicate right)
        (fun hroom => hjoined hroom ▸ ihl (room - 2))
        fun hroom => hjoined hroom ▸ ihr (room - 2)

/-- A text in front of which a value is read back is decoded as that value. -/
theorem Restores.decode {d : Decoder α} {room needed : Nat} {text : List Char} {x : α}
    (h : Restores d room needed text x) :
    Json.decode d text = if needed ≤ room then .ok x else .error .tooDeep := by
  by_cases hroom : needed ≤ room
  · have hread := h.read hroom []
    rw [List.append_nil] at hread
    rw [Json.decode, hread, if_pos hroom]
    rfl
  · have hrefused := h.refused (Nat.lt_of_not_le hroom) []
    rw [List.append_nil] at hrefused
    rw [Json.decode, hrefused, if_neg hroom]

end Json

/-- A predicate is read back from its JSON form if at most 127 containers are open in it at the
same time.  If more are, the form is refused for this reason. -/
theorem Predicate.ofJson_toJson (p : Predicate) :
    Predicate.ofJson p.toJson = (if p.containers ≤ 127 then .ok p else .error .tooDeep) ∧
      Json.Fault.tooDeep.message = "recursion limit exceeded" := by
  refine ⟨?_, rfl⟩
  rw [Predicate.ofJson, Predicate.toJson, Writer.string, String.toList_ofList]
  exact (Json.restores_predicate p Json.openLimit).decode

end PredicateLanguage
