import PredicateLanguage.Proofs.Descent
import PredicateLanguage.Proofs.Orderly
import PredicateLanguage.Proofs.Prefixes

/-!
# Descending terms, sets and comparisons

A descent follows a rule if it ends, gives what the rule gives and leaves the state that the rule
leaves.  Where it fails it may stand anywhere at first; going back to its start makes it do just
what the rule does.  Sets differ most from their rule, which tries elements before it asks for none,
and so takes the closing brace to be missing where elements break off.
-/

namespace PredicateLanguage

open Grammar Rule RuleState

namespace StringSet

/-- The set with more members, which are put into it one after the other. -/
def withAll (members : StringSet) (values : List String) : StringSet :=
  values.foldl (fun all value => all.insert value) members

theorem mem_withAll {value : String} {members : StringSet} {values : List String} :
    value ∈ members.withAll values ↔ value ∈ members ∨ value ∈ values := by
  induction values generalizing members with
  | nil => simp [withAll]
  | cons first others ih =>
      change value ∈ (members.insert first).withAll others ↔ _
      rw [ih, mem_insert, List.mem_cons]
      tauto

theorem withAll_empty (values : List String) : withAll ∅ values = .ofList values := by
  ext value
  rw [mem_withAll, mem_ofList, or_iff_right (not_mem_empty value)]

end StringSet

/-- Where something further on is missing already, a mark changes nothing. -/
theorem Marks.append_missingNext {m : Marks} {c e : Cursor} (hmiss : m.miss = some e)
    (hle : c.skipSpaces ≤ e) : m ++ missingNext c = m := by
  refine Marks.ext ?_ (Nat.max_zero m.levels)
  have hleft : ¬c.skipSpaces.left < e.left := Nat.not_lt_of_le (Cursor.left_le_of_le hle)
  rw [Marks.miss_append, hmiss]
  exact congrArg some (if_neg hleft)

namespace Grammar

variable {α : Type}

theorem expect_bind (symbol : Symbol) (next : Rule α) :
    (expect symbol >>= fun _ => next) =
      Grammar.eat symbol >>= fun found => if found = true then next else failure := by
  rw [expect, bind_assoc]
  congr 1
  funext found
  cases found with
  | true => exact pure_bind _ _
  | false => rfl

/-- What is read behind the members of a set. -/
def closing (values : List String) : Rule StringSet :=
  expect .closeBrace >>= fun _ => pure (.ofList values)

theorem setTail_eq : setTail = setMembers >>= closing := rfl

/-- What is read behind an element. -/
def moreElements (members : StringSet) : Rule StringSet := do
  if ← Grammar.eat .comma then
    (fun values => members.withAll (values.1 :: values.2)) <$> separated .comma literal
  else
    pure members

theorem map_elements_eq (members : StringSet) :
    (fun values => members.withAll (values.1 :: values.2)) <$> separated .comma literal =
      literal >>= fun value => moreElements (members.insert value) := by
  conv => lhs; rw [separated_eq]
  simp only [map_bind]
  congr 1
  funext value
  congr 1
  funext found
  cases found with
  | false => rfl
  | true =>
      rw [if_pos rfl, if_pos rfl, Functor.map_map]
      rfl

end Grammar

namespace Descend

variable {α β : Type} {s t : Descent} {d : Cursor} {symbol : Symbol}

/-! ## Steps -/

theorem run_bind_of_run {first : Descend α} {next : α → Descend β} {x : α}
    (h : first.run s = some (x, t)) : (first >>= next).run s = (next x).run t := by
  rw [StateT.run_bind, h]
  rfl

theorem run_position (s : Descent) : position.run s = some (s.cursor, s) := rfl

theorem run_modify (f : Descent → Descent) (s : Descent) :
    (modify f : Descend PUnit).run s = some (⟨⟩, f s) := rfl

theorem run_orGoTo (start : Cursor) (result : Option α) (s : Descent) :
    (orGoTo start result).run s = some (orBackTo start (result, s)) := by
  cases result with
  | none => rfl
  | some x => rfl

/-- A rule that opens no group is tried as a token is. -/
theorem run_token {rule : Rule α} (h : rule.Flat) (s : Descent) :
    (token rule).run s = some (read s rule) := by
  have hlevels : (rule.run s.cursor).marks.levels = 0 := h s.cursor
  refine congrArg some (Prod.ext rfl (Descent.eq_of_state (ParserState.ext rfl rfl rfl rfl ?_) ?_))
  · change s.tooDeep = (s.tooDeep || decide (s.room < (rule.run s.cursor).marks.levels))
    rw [hlevels]
    exact (Bool.or_false s.tooDeep).symm
  · change s.deepest = max s.deepest (s.depth + min (rule.run s.cursor).marks.levels s.room)
    rw [hlevels, s.max_deepest]

theorem run_eat_of_some (h : symbol.take? s.cursor = some d) :
    (eat symbol).run s = some (true, moveTo s d) := by
  have htoken := run_token (flat_eat symbol) s
  rw [read_eat_of_some h] at htoken
  exact run_bind_of_run htoken

theorem run_eat_of_none (h : symbol.take? s.cursor = none) :
    (eat symbol).run s = some (false, mark s (missingNext s.cursor)) := by
  have htoken := run_token (flat_eat symbol) s
  rw [read_eat_of_none h] at htoken
  exact run_bind_of_run htoken

/-! ## Steps that follow a rule -/

/-- The steps end, and they give what the rule gives and leave what it leaves, except that they may
stand anywhere if they fail. -/
def Follows (steps : Descend (Option α)) (s : Descent) (rule : Rule α) : Prop :=
  ∃ result, steps.run s = some result ∧ ∀ c, orBackTo c result = orBackTo c (read s rule)

namespace Follows

variable {steps next : Descend (Option β)} {rule : Rule α} {nextRule : α → Rule β} {x : α}

theorem of_run {steps : Descend (Option α)} (h : steps.run s = some (read s rule)) :
    Follows steps s rule :=
  ⟨_, h, fun _ => rfl⟩

/-- Steps that go back where they fail do just what the rule does. -/
theorem run_orGoTo {steps : Descend (Option α)} (h : Follows steps s rule) :
    (steps >>= orGoTo s.cursor).run s = some (read s rule) := by
  obtain ⟨result, hrun, hresult⟩ := h
  rw [run_bind_of_run hrun, Descend.run_orGoTo]
  exact congrArg some ((hresult s.cursor).trans (orBackTo_read s rule))

theorem found (x : α) (s : Descent) : Follows (pure (some x)) s (pure x) :=
  of_run (congrArg some (read_pure x s).symm)

theorem refused (s : Descent) : Follows (pure none) s (failure : Rule α) :=
  of_run (congrArg some (read_failure s).symm)

/-- What is read behind a match is read in the state that was left. -/
theorem behind (hread : read s rule = (some x, t)) (hrun : steps.run s = next.run t)
    (h : Follows next t (nextRule x)) : Follows steps s (rule >>= nextRule) := by
  obtain ⟨result, hnext, hresult⟩ := h
  refine ⟨result, hrun.trans hnext, fun c => ?_⟩
  rw [read_bind, hread]
  exact (hresult c).trans (orBackTo_orBackTo _ c _).symm

theorem missed {steps : Descend (Option β)} (hread : read s rule = (none, t))
    (hrun : steps.run s = some (none, t)) : Follows steps s (rule >>= nextRule) := by
  refine of_run ?_
  rw [hrun, read_bind, hread]

theorem if_eat {yes no : Descend (Option α)} {yesRule noRule : Rule α}
    (hyes : ∀ d, symbol.take? s.cursor = some d → Follows yes (moveTo s d) yesRule)
    (hno : symbol.take? s.cursor = none → Follows no (mark s (missingNext s.cursor)) noRule) :
    Follows (do if ← eat symbol then yes else no) s
      (Grammar.eat symbol >>= fun found => if found = true then yesRule else noRule) := by
  cases h : symbol.take? s.cursor with
  | none => exact behind (read_eat_of_none h) (run_bind_of_run (run_eat_of_none h)) (hno h)
  | some d => exact behind (read_eat_of_some h) (run_bind_of_run (run_eat_of_some h)) (hyes d h)

end Follows

/-! ## Terms -/

theorem run_term (s : Descent) : term.run s = some (read s Grammar.term) := by
  have hname := run_token flat_identifier s
  rw [term, Grammar.term, read_orElse, read_map]
  cases hread : read s identifier with
  | mk result t =>
      rw [hread] at hname
      rw [run_bind_of_run hname]
      cases result with
      | some name => rfl
      | none =>
          dsimp only [Option.map_none]
          rw [run_bind_of_run (run_token flat_literal t), read_map]
          rfl

theorem follows_map {steps : Descend (Option α)} {rule : Rule α}
    (h : steps.run s = some (read s rule)) (f : α → β) :
    Follows (do return (← steps).map f) s (rule >>= fun x => pure (f x)) := by
  refine .of_run ?_
  rw [run_bind_of_run h, bind_pure_comp, read_map]
  rfl

/-! ## Sets -/

theorem read_setMembers (s : Descent) :
    read s setMembers = match read s (separated .comma literal) with
      | (none, t) => (some [], t)
      | (some values, t) => (some (values.1 :: values.2), t) := by
  rw [setMembers, read_orElse, read_map]
  rcases read s (separated .comma literal) with ⟨_ | values, t⟩
  · exact read_pure [] t
  · rfl

theorem follows_elements (members : StringSet) (s : Descent) :
    Follows members.readElements s (moreElements members) := by
  induction hn : s.cursor.left using Nat.strongRecOn generalizing members s with
  | ind n ih =>
      rw [StringSet.readElements, moreElements, map_elements_eq]
      refine .if_eat (fun d hd => ?_) fun _ => .found members _
      have hvalue := run_token flat_literal (moveTo s d)
      cases hread : read (moveTo s d) literal with
      | mk result t =>
          rw [hread] at hvalue
          cases result with
          | none => exact .missed hread (run_bind_of_run hvalue)
          | some value =>
              have hle : t.cursor.left ≤ d.left := Cursor.left_le_of_le (cursor_le_of_read hread)
              have hlt : t.cursor.left < n := hn ▸ lt_of_le_of_lt hle (Symbol.left_lt_of_take? hd)
              exact .behind hread (run_bind_of_run hvalue) (ih _ hlt _ t rfl)

/-- Where elements break off behind the first one, it does not matter that no brace closes the set
in front of them. -/
theorem read_closing_of_breaks {value : String} {u : Descent}
    (hvalue : read s literal = (some value, t))
    (hbreaks : read s (separated .comma literal) = (none, u)) : read u (closing []) = (none, u) := by
  rcases read_cases s (separated .comma literal) with ⟨values, d, m, -, h⟩ | ⟨m, hrun, h⟩
  · cases h.symm.trans hbreaks
  obtain rfl : mark s m = u := (Prod.mk.inj (h.symm.trans hbreaks)).2
  obtain ⟨token, hnext, helement⟩ := matches_literal_iff.mp (matches_of_read hvalue)
  have hclose : Symbol.closeBrace.take? s.cursor = none := by
    refine Symbol.take?_eq_none_of_next hnext ?_
    rintro rfl
    contradiction
  have hfails : (separated .comma literal).Fails s.cursor := congrArg Attempt.outcome hrun
  have hloud := (orderly_separated (s := .comma) (orderly_literal 0) s.cursor).loud hfails
    (Nat.le_of_eq (flat_separated flat_literal s.cursor))
  obtain ⟨e, hmiss⟩ := Option.ne_none_iff_exists'.mp hloud
  obtain ⟨ts, hleads, -⟩ := expects_elements s.cursor e hmiss
  have hm : m.miss = some e := by
    rw [← hmiss, missAt, ← show cursor s = s.cursor from rfl, hrun]
  rw [closing, expect_bind, read_bind, read_eat_of_none hclose]
  change orBackTo _ (read (mark (mark s m) (missingNext s.cursor)) failure) = _
  rw [mark_mark, Marks.append_missingNext hm hleads.skipSpaces_le, read_failure]
  exact Prod.ext rfl (moveTo_mark_cursor _ _)

theorem follows_closing {all : StringSet} {values : List String} (h : all = .ofList values)
    (s : Descent) :
    Follows (do if ← eat .closeBrace then return some all else return none) s (closing values) := by
  rw [closing, expect_bind, h]
  exact .if_eat (fun d _ => .found _ _) fun _ => .refused _

/-- Behind the first element, the others are put into the set, or they break off somewhere. -/
theorem elements_cases {first : String} (hread : read s literal = (some first, t)) :
    (∃ values u, read s (separated .comma literal) = (some values, u) ∧
        (StringSet.insert first ∅).readElements.run t =
          some (some (.ofList (values.1 :: values.2)), u)) ∨
      ∃ u, read s (separated .comma literal) = (none, moveTo u s.cursor) ∧
        (StringSet.insert first ∅).readElements.run t = some (none, u) := by
  obtain ⟨⟨result, u⟩, hrun, hresult⟩ := follows_elements (StringSet.insert first ∅) t
  have hmap := read_map (fun values => StringSet.withAll ∅ (values.1 :: values.2))
    (separated .comma literal) s
  rw [map_elements_eq, read_bind, hread] at hmap
  dsimp only at hmap
  rw [← hresult] at hmap
  cases helements : read s (separated .comma literal) with
  | mk values v =>
      rw [helements] at hmap
      cases result with
      | none =>
          obtain ⟨hnone, rfl⟩ := Prod.mk.inj hmap
          obtain rfl : values = none := Option.map_eq_none_iff.mp hnone.symm
          exact Or.inr ⟨u, rfl, hrun⟩
      | some all =>
          obtain ⟨hsome, rfl⟩ := Prod.mk.inj hmap
          obtain ⟨values, rfl, rfl⟩ := Option.map_eq_some_iff.mp hsome.symm
          rw [StringSet.withAll_empty] at hrun
          exact Or.inl ⟨values, u, rfl, hrun⟩

theorem follows_members (s : Descent) :
    Follows (do
      match ← members with
      | none => return none
      | some all => if ← eat .closeBrace then return some all else return none) s setTail := by
  have hvalue := run_token flat_literal s
  have hset := read_setMembers s
  rw [members, setTail_eq, bind_assoc]
  cases hread : read s literal with
  | mk result t =>
      rw [hread] at hvalue
      cases result with
      | none =>
          have helements : read s (separated .comma literal) = (none, t) := by
            rw [separated_eq, read_bind, hread]
          rw [helements] at hset
          refine .behind hset ?_ (follows_closing (StringSet.withAll_empty []) t)
          rw [run_bind_of_run hvalue]
          rfl
      | some first =>
          rcases elements_cases hread with ⟨values, u, helements, hrun⟩ | ⟨u, hbreaks, hrun⟩
          · rw [helements] at hset
            refine .behind hset ?_ (follows_closing rfl u)
            rw [run_bind_of_run hvalue]
            exact run_bind_of_run hrun
          · rw [hbreaks] at hset
            refine ⟨(none, u), ?_, fun c => ?_⟩
            · rw [run_bind_of_run hvalue]
              exact run_bind_of_run hrun
            · rw [read_bind, hset]
              dsimp only
              rw [read_closing_of_breaks hread hbreaks, orBackTo_orBackTo, orBackTo, orBackTo,
                moveTo_moveTo]

theorem run_set (s : Descent) : set.run s = some (read s Grammar.set) := by
  have h : Follows braces s Grammar.set := by
    rw [set_eq, expect_bind]
    exact .if_eat (fun d _ => follows_members _) fun _ => .refused _
  exact h.run_orGoTo

/-! ## Comparisons -/

theorem follows_operation (left : Term) (s : Descent) :
    Follows (operation left) s (comparisonTail left) := by
  refine .if_eat (fun d _ => follows_map (run_term _) _) fun _ => ?_
  refine .if_eat (fun d _ => follows_map (run_term _) _) fun _ => ?_
  refine .if_eat (fun d _ => follows_map (run_set _) _) fun _ => ?_
  refine .if_eat (fun d _ => ?_) fun _ => .found _ _
  rw [expect_bind]
  exact .if_eat (fun d _ => follows_map (run_set _) _) fun _ => .refused _

theorem run_comparison (s : Descent) : comparison.run s = some (read s Grammar.comparison) := by
  have hleft := run_term s
  rw [comparison, run_bind_of_run (run_position s), comparison_eq, read_bind]
  cases hread : read s Grammar.term with
  | mk result t =>
      rw [hread] at hleft
      rw [run_bind_of_run hleft]
      cases result with
      | none => rfl
      | some left =>
          obtain ⟨result, hrun, hresult⟩ := follows_operation left t
          dsimp only
          rw [run_bind_of_run hrun, run_orGoTo, ← hresult]
          rfl

end Descend

end PredicateLanguage
