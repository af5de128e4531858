import PredicateLanguage.Proofs.JsonSteps

/-!
# Which texts are read as values

A decoder asks for a value of some form.  What it reads, and how many containers it may open for
that, is said by the values of the form: it reads exactly the texts that spell one of them.  This
module says so of the decoders that the readers of predicates and bindings are built from.
-/

namespace PredicateLanguage.Json

open Decoder

variable {α β κ : Type}

/-! ## Forms -/

/-- With room for a number of open containers, the decoder reads `x` exactly from the spellings of
those values that are a form of `x` and open no more containers. -/
def DecodesForm (d : Decoder α) (room : Nat) (form : α → Value → Prop) : Prop :=
  ∀ s x rest, d.run s = .ok (x, rest) ↔ ∃ v, form x v ∧ v.depth ≤ room ∧ v.Leads s rest

section Forms

variable {s rest : List Char} {room : Nat}

theorem run_string_eq_ok_iff {x : String} :
    string.run s = .ok (x, rest) ↔ (Value.string x).Leads s rest := by
  rw [string, run_ahead_skip_eq_ok_iff fun _ => refuses_refuse _, Value.leads_string]
  exact exists_congr fun inside => and_congr_right fun _ => readString_eq_ok_iff

theorem decodesForm_string (room : Nat) :
    DecodesForm string room fun x v => v = .string x := by
  intro s x rest
  rw [run_string_eq_ok_iff]
  constructor
  · intro h
    exact ⟨_, rfl, Nat.zero_le room, h⟩
  · rintro ⟨_, rfl, -, h⟩
    exact h

theorem DecodesForm.map {d : Decoder α} {form : α → Value → Prop} (h : DecodesForm d room form)
    (f : α → β) : DecodesForm (f <$> d) room fun y v => ∃ x, y = f x ∧ form x v := by
  intro s y rest
  rw [run_map_eq_ok_iff]
  constructor
  · rintro ⟨x, hx, rfl⟩
    obtain ⟨v, hv, hdepth, hleads⟩ := (h s x rest).mp hx
    exact ⟨v, ⟨x, rfl, hv⟩, hdepth, hleads⟩
  · rintro ⟨v, ⟨x, rfl, hv⟩, hdepth, hleads⟩
    exact ⟨x, (h s x rest).mpr ⟨v, hv, hdepth, hleads⟩, rfl⟩

/-- Forms that are equivalent can be exchanged. -/
theorem DecodesForm.congr {d : Decoder α} {form form' : α → Value → Prop}
    (h : DecodesForm d room form) (hform : ∀ x v, form x v ↔ form' x v) :
    DecodesForm d room form' := by
  intro s x rest
  rw [h s x rest]
  exact exists_congr fun v => and_congr_left fun _ => hform x v

/-- A container is opened by its bracket, if there is room for it. -/
theorem run_opened_eq_ok_iff {opening : Char} {next : Unit → Decoder α} {other : Char → Decoder α}
    {x : α} (hother : ∀ c, (other c).Refuses) :
    (ahead .value >>= fun c =>
        if c = opening then openBracket room >>= next else other c).run s = .ok (x, rest) ↔
      0 < room ∧ ∃ inside, s.dropWhile isBlank = opening :: inside ∧
        (next ()).run inside = .ok (x, rest) := by
  rw [run_ahead_if_eq_ok_iff hother]
  cases room with
  | zero =>
      simp only [run_openBracket_zero]
      exact ⟨nofun, fun h => absurd h.1 (Nat.lt_irrefl 0)⟩
  | succ room =>
      simp only [run_openBracket_succ]
      exact (and_iff_right (Nat.succ_pos room)).symm

/-! ### Tags -/

/-- A tag and its content are read from between the braces. -/
theorem run_tagged_eq_ok_iff {tags : Tags κ} {body : κ → Decoder α} {x : α} :
    (tagged tags room body).run s = .ok (x, rest) ↔
      0 < room ∧ ∃ inside, s.dropWhile isBlank = '\x7b' :: inside ∧
      ∃ key, inside.dropWhile isBlank = '"' :: key ∧
      ∃ k behind, (tag tags).run key = .ok (k, behind) ∧
      ∃ value, behind.dropWhile isBlank = ':' :: value ∧
      ∃ closing, (body k).run value = .ok (x, closing) ∧
        closing.dropWhile isBlank = '\x7d' :: rest := by
  have hbare : ∀ c : Char, (if c = '"' then (do
      skip
      let k ← tag tags
      .fail (.wrongType .bareTag (tags.wanted k)))
      else .fail .valueExpected : Decoder α).Refuses := by
    intro c
    exact .ite (.bind fun _ => .bind fun _ => refuses_fail _) (refuses_fail _)
  have hkey : ∀ c : Char, (if c = '\x7d' then .fail .valueExpected
      else .fail .keyNotString : Decoder α).Refuses :=
    fun c => .ite (refuses_fail _) (refuses_fail _)
  rw [tagged, run_opened_eq_ok_iff hbare]
  simp only [run_ahead_skip_eq_ok_iff hkey, run_bind_eq_ok_iff, run_colon_eq_ok_iff,
    run_ahead_skip_eq_ok_iff fun _ => refuses_fail _, run_pure_eq_ok_iff]
  constructor
  · rintro ⟨hroom, inside, hs, key, hinside, k, behind, hk, _, value, hcolon, _, closing, hbody, _,
      hclose, rfl, rfl⟩
    exact ⟨hroom, inside, hs, key, hinside, k, behind, hk, value, hcolon, closing, hbody, hclose⟩
  · rintro ⟨hroom, inside, hs, key, hinside, k, behind, hk, value, hcolon, closing, hbody, hclose⟩
    exact ⟨hroom, inside, hs, key, hinside, k, behind, hk, (), value, hcolon, x, closing, hbody,
      rest, hclose, rfl, rfl⟩

/-- The forms of a tagged value are objects with a tag as their only key and a form of what the tag
asks for as its content. -/
theorem decodesForm_tagged {tags : Tags κ} {body : κ → Decoder α} (form : κ → α → Value → Prop)
    (h : ∀ k, 0 < room → DecodesForm (body k) (room - 1) (form k)) :
    DecodesForm (tagged tags room body) room fun x v =>
      ∃ tag k content, tags.ofTag? tag = some k ∧ form k x content ∧ v = .tagged tag content := by
  intro s x rest
  rw [run_tagged_eq_ok_iff]
  constructor
  · rintro ⟨hroom, inside, hs, key, hinside, k, behind, hk, value, hcolon, closing, hbody, hclose⟩
    obtain ⟨tag, htag, hof⟩ := run_tag_eq_ok_iff.mp hk
    obtain ⟨content, hform, hdepth, hleads⟩ := (h k hroom _ _ _).mp hbody
    refine ⟨.tagged tag content, ⟨tag, k, content, hof, hform, rfl⟩, ?_, ?_⟩
    · rw [Value.depth_tagged]
      exact Nat.add_le_of_le_sub hroom hdepth
    · exact Value.leads_tagged.mpr
        ⟨inside, hs, key, hinside, behind, htag, value, hcolon, closing, hleads, hclose⟩
  · rintro ⟨_, ⟨tag, k, content, hof, hform, rfl⟩, hdepth, hleads⟩
    obtain ⟨inside, hs, key, hinside, behind, htag, value, hcolon, closing, hcontent, hclose⟩ :=
      Value.leads_tagged.mp hleads
    rw [Value.depth_tagged] at hdepth
    have hroom : 0 < room := Nat.lt_of_lt_of_le (Nat.succ_pos _) hdepth
    have hbody := (h k hroom value x closing).mpr
      ⟨content, hform, Nat.le_sub_one_of_lt hdepth, hcontent⟩
    exact ⟨hroom, inside, hs, key, hinside, k, behind, run_tag_eq_ok_iff.mpr ⟨tag, htag, hof⟩,
      value, hcolon, closing, hbody, hclose⟩

/-! ### Lists -/

/-- A pair is read part by part from between the brackets. -/
theorem run_pair_eq_ok_iff {kind : NodeKind} {first : Decoder α} {second : Decoder β} {x : α}
    {y : β} :
    (pair kind room first second).run s = .ok ((x, y), rest) ↔
      0 < room ∧ ∃ inside, s.dropWhile isBlank = '[' :: inside ∧
      ∃ c cs, inside.dropWhile isBlank = c :: cs ∧ c ≠ ']' ∧
      ∃ behind, first.run (c :: cs) = .ok (x, behind) ∧
      ∃ others, readMore .list behind = .ok (true, others) ∧
      ∃ closing, second.run others = .ok (y, closing) ∧
        closing.dropWhile isBlank = ']' :: rest := by
  rw [pair, run_opened_eq_ok_iff fun _ => refuses_refuse _]
  simp only [run_bind_eq_ok_iff, run_ahead_eq_ok_iff,
    run_ite_not_eq_ok_iff (refuses_fail (.tooShort 0 kind)),
    run_ite_eq_ok_iff (refuses_fail (.tooShort 1 kind)), run_closeList_eq_ok_iff,
    run_pure_eq_ok_iff]
  constructor
  · rintro ⟨hroom, inside, hs, c, _, ⟨cs, hinside, rfl⟩, hc, x', behind, hx, _, others, hmore, rfl,
      y', closing, hy, _, _, hclose, heq, rfl⟩
    obtain ⟨rfl, rfl⟩ := Prod.mk.inj heq
    exact ⟨hroom, inside, hs, c, cs, hinside, hc, behind, hx, others, hmore, closing, hy, hclose⟩
  · rintro ⟨hroom, inside, hs, c, cs, hinside, hc, behind, hx, others, hmore, closing, hy, hclose⟩
    exact ⟨hroom, inside, hs, c, _, ⟨cs, hinside, rfl⟩, hc, x, behind, hx, true, others, hmore, rfl,
      y, closing, hy, (), rest, hclose, rfl, rfl⟩

theorem Value.leads_dropWhile {v : Value} :
    v.Leads (s.dropWhile isBlank) rest ↔ v.Leads s rest := by
  rw [Value.Leads, Value.Leads, dropWhile_isBlank_dropWhile]

/-- The forms of a pair are lists of two forms. -/
theorem decodesForm_pair {kind : NodeKind} {first : Decoder α} {second : Decoder β}
    {form : α → Value → Prop} {form' : β → Value → Prop}
    (hfirst : 0 < room → DecodesForm first (room - 1) form)
    (hsecond : 0 < room → DecodesForm second (room - 1) form') :
    DecodesForm (pair kind room first second) room fun xy v =>
      ∃ a b, form xy.1 a ∧ form' xy.2 b ∧ v = .list [a, b] := by
  rintro s ⟨x, y⟩ rest
  rw [run_pair_eq_ok_iff]
  constructor
  · rintro ⟨hroom, inside, hs, c, cs, hinside, -, behind, hx, others, hmore, closing, hy, hclose⟩
    obtain ⟨a, ha, hadepth, haleads⟩ := (hfirst hroom _ _ _).mp hx
    obtain ⟨b, hb, hbdepth, hbleads⟩ := (hsecond hroom _ _ _).mp hy
    obtain ⟨tail, hcomma, rfl, -⟩ := readMore_eq_true_iff.mp hmore
    refine ⟨.list [a, b], ⟨a, b, ha, hb, rfl⟩, ?_, ?_⟩
    · rw [Value.depth_pair]
      exact Nat.add_le_of_le_sub hroom (Nat.max_le.mpr ⟨hadepth, hbdepth⟩)
    · rw [← hinside, Value.leads_dropWhile] at haleads
      rw [Value.leads_dropWhile] at hbleads
      exact Value.leads_pair.mpr
        ⟨inside, hs, behind, haleads, tail, hcomma, closing, hbleads, hclose⟩
  · rintro ⟨_, ⟨a, b, ha, hb, rfl⟩, hdepth, hleads⟩
    obtain ⟨inside, hs, behind, haleads, tail, hcomma, closing, hbleads, hclose⟩ :=
      Value.leads_pair.mp hleads
    rw [Value.depth_pair] at hdepth
    have hroom : 0 < room := Nat.lt_of_lt_of_le (Nat.succ_pos _) hdepth
    obtain ⟨hadepth, hbdepth⟩ := Nat.max_le.mp (Nat.le_sub_one_of_lt hdepth)
    obtain ⟨c, cs, hinside, -, hc, -⟩ := haleads.head_ne
    obtain ⟨c', cs', htail, -, hc', -⟩ := hbleads.head_ne
    rw [← Value.leads_dropWhile] at haleads hbleads
    rw [hinside] at haleads
    have hx := (hfirst hroom _ x _).mpr ⟨a, ha, hadepth, haleads⟩
    have hy := (hsecond hroom _ y _).mpr ⟨b, hb, hbdepth, hbleads⟩
    have hmore : readMore .list behind = .ok (true, tail.dropWhile isBlank) :=
      readMore_eq_true_iff.mpr ⟨tail, hcomma, rfl, c', cs', htail, hc'⟩
    exact ⟨hroom, inside, hs, c, cs, hinside, hc, behind, hx, _, hmore, closing, hy, hclose⟩

/-- Strings are items of lists. -/
theorem readsItems_string : ReadsItems .list string stringTexts where
  run := run_string_eq_ok_iff
  solid := solid_stringTexts
  head_ne h := by
    obtain ⟨cs, rfl, -⟩ := begins_symbol_mul.mp h
    exact ⟨_, cs, rfl, by decide⟩

/-- The form of a list of strings is the list of their values. -/
theorem decodesForm_strings (room : Nat) :
    DecodesForm (strings room) room fun xs v => v = .list (xs.map .string) := by
  intro s xs rest
  have hleads : (Value.list (xs.map .string)).Leads s rest ↔
      ∃ inside, s.dropWhile isBlank = '[' :: inside ∧
        Begins (separatedTexts (xs.map stringTexts) * symbol ']') inside rest := by
    rw [Value.Leads, Value.texts, Value.itemTexts_strings, begins_symbol_mul]
  rw [strings, run_opened_eq_ok_iff fun _ => refuses_refuse _]
  simp only [readsItems_string.run_content_eq_ok_iff]
  constructor
  · rintro ⟨hroom, hbegins⟩
    refine ⟨_, rfl, ?_, hleads.mpr hbegins⟩
    rw [Value.depth_strings]
    exact hroom
  · rintro ⟨_, rfl, hdepth, hv⟩
    rw [Value.depth_strings] at hdepth
    exact ⟨hdepth, hleads.mp hv⟩

/-! ### Whole texts -/

theorem decode_eq_ok_iff {d : Decoder α} {x : α} :
    decode d s = .ok x ↔ ∃ rest, d.run s = .ok (x, rest) ∧ rest ∈ blanks := by
  rw [decode]
  constructor
  · intro hok
    split at hok
    · contradiction
    · rename_i y rest hrun
      split at hok
      · rename_i hblanks
        obtain rfl := Except.ok.inj hok
        exact ⟨rest, hrun, List.all_eq_true.mp hblanks⟩
      · contradiction
  · rintro ⟨rest, hrun, hblanks⟩
    rw [hrun]
    exact if_pos (List.all_eq_true.mpr hblanks)

theorem Value.mem_texts_iff {v : Value} :
    s ∈ blanks * v.texts * blanks ↔ ∃ rest, v.Leads s rest ∧ rest ∈ blanks := by
  have hleads : ∀ rest, v.Leads s rest ↔ Begins (blanks * v.texts) s rest :=
    fun rest => v.solid_texts.begins_blanks_mul.symm
  constructor
  · intro hs
    obtain ⟨front, hfront, rest, hrest, rfl⟩ := Language.mem_mul.mp hs
    exact ⟨rest, (hleads rest).mpr ⟨front, hfront, rfl⟩, hrest⟩
  · rintro ⟨rest, hv, hrest⟩
    obtain ⟨front, hfront, rfl⟩ := (hleads rest).mp hv
    exact Language.append_mem_mul hfront hrest

/-- A whole text is decoded as `x` exactly if it spells a form of `x` with blanks around it. -/
theorem DecodesForm.decode_eq_ok_iff {d : Decoder α} {form : α → Value → Prop} {x : α}
    (h : DecodesForm d room form) :
    decode d s = .ok x ↔ ∃ v, form x v ∧ v.depth ≤ room ∧ s ∈ blanks * v.texts * blanks := by
  rw [Json.decode_eq_ok_iff]
  constructor
  · rintro ⟨rest, hrun, hrest⟩
    obtain ⟨v, hv, hdepth, hleads⟩ := (h s x rest).mp hrun
    exact ⟨v, hv, hdepth, Value.mem_texts_iff.mpr ⟨rest, hleads, hrest⟩⟩
  · rintro ⟨v, hv, hdepth, hs⟩
    obtain ⟨rest, hleads, hrest⟩ := Value.mem_texts_iff.mp hs
    exact ⟨rest, (h s x rest).mpr ⟨v, hv, hdepth, hleads⟩, hrest⟩

end Forms

end PredicateLanguage.Json
