import PredicateLanguage.Proofs.JsonReading
import PredicateLanguage.Proofs.JsonRoundTrip

/-!
# What the steps of a decoder read

A reading that ends well is told apart into its steps: what has to stand ahead for each of them
and where it ends.  The items of a container are then read exactly from their texts, whatever
kind of items they are.
-/

namespace PredicateLanguage.Json

variable {α β κ : Type}

/-! ## Steps of a decoder that end well -/

namespace Decoder

variable {d other : Decoder α} {next : α → Decoder β} {s rest : List Char} {x y : α} {z : β}

theorem run_bind_eq_ok_iff :
    (d >>= next).run s = .ok (z, rest) ↔
      ∃ x middle, d.run s = .ok (x, middle) ∧ (next x).run middle = .ok (z, rest) := by
  rw [run_bind]
  constructor
  · intro h
    split at h
    · contradiction
    · rename_i x middle hd
      exact ⟨x, middle, hd, h⟩
  · rintro ⟨x, middle, hd, h⟩
    rw [hd]
    exact h

theorem run_pure_eq_ok_iff : (pure x : Decoder α).run s = .ok (y, rest) ↔ y = x ∧ s = rest := by
  rw [run_pure]
  constructor
  · intro h
    obtain ⟨rfl, rfl⟩ := Prod.mk.inj (Except.ok.inj h)
    exact ⟨rfl, rfl⟩
  · rintro ⟨rfl, rfl⟩
    rfl

theorem run_map_eq_ok_iff {f : α → β} :
    (f <$> d).run s = .ok (z, rest) ↔ ∃ x, d.run s = .ok (x, rest) ∧ z = f x := by
  change (d >>= fun x => pure (f x)).run s = _ ↔ _
  rw [run_bind_eq_ok_iff]
  constructor
  · rintro ⟨x, middle, hd, h⟩
    obtain ⟨rfl, rfl⟩ := run_pure_eq_ok_iff.mp h
    exact ⟨x, hd, rfl⟩
  · rintro ⟨x, hd, rfl⟩
    exact ⟨x, rest, hd, run_pure_eq_ok_iff.mpr ⟨rfl, rfl⟩⟩

/-- The decoder ends every reading with a fault. -/
def Refuses (d : Decoder α) : Prop :=
  ∀ s x rest, d.run s ≠ .ok (x, rest)

theorem refuses_fail (fault : Fault) : (fail fault : Decoder α).Refuses :=
  fun _ _ _ => nofun

theorem refuses_refuse (wanted : Wanted) : (refuse wanted : Decoder α).Refuses := by
  intro s x rest h
  rw [refuse] at h
  dsimp only at h
  split at h
  · contradiction
  · contradiction

theorem Refuses.bind (h : ∀ x, (next x).Refuses) : (d >>= next).Refuses := by
  intro s z rest hrun
  obtain ⟨x, middle, -, hnext⟩ := run_bind_eq_ok_iff.mp hrun
  exact h x middle z rest hnext

theorem Refuses.ite {p : Prop} [Decidable p] (hd : d.Refuses) (hother : other.Refuses) :
    (if p then d else other).Refuses := by
  split
  · exact hd
  · exact hother

theorem run_ite_eq_ok_iff {p : Prop} [Decidable p] (hother : other.Refuses) :
    (if p then d else other).run s = .ok (x, rest) ↔ p ∧ d.run s = .ok (x, rest) := by
  by_cases hp : p
  · rw [if_pos hp]
    exact (and_iff_right hp).symm
  · rw [if_neg hp]
    exact iff_of_false (hother _ _ _) fun h => hp h.1

theorem run_ite_not_eq_ok_iff {p : Prop} [Decidable p] (hother : other.Refuses) :
    (if p then other else d).run s = .ok (x, rest) ↔ ¬p ∧ d.run s = .ok (x, rest) := by
  rw [← run_ite_eq_ok_iff hother, ite_not]

variable {part : Part} {c : Char}

theorem run_ahead_eq_ok_iff {middle : List Char} :
    (ahead part).run s = .ok (c, middle) ↔
      ∃ cs, s.dropWhile isBlank = c :: cs ∧ middle = c :: cs := by
  rw [ahead]
  dsimp only
  split
  · rename_i hs
    rw [hs]
    exact ⟨nofun, fun ⟨_, h, _⟩ => nomatch h⟩
  · rename_i c' cs hs
    rw [hs]
    constructor
    · intro h
      obtain ⟨rfl, rfl⟩ := Prod.mk.inj (Except.ok.inj h)
      exact ⟨cs, rfl, rfl⟩
    · rintro ⟨_, heq, rfl⟩
      obtain ⟨rfl, rfl⟩ := List.cons.inj heq
      rfl

theorem run_ahead_bind_eq_ok_iff {next : Char → Decoder β} :
    (ahead part >>= next).run s = .ok (z, rest) ↔
      ∃ c cs, s.dropWhile isBlank = c :: cs ∧ (next c).run (c :: cs) = .ok (z, rest) := by
  rw [run_bind_eq_ok_iff]
  constructor
  · rintro ⟨c, middle, h, hnext⟩
    obtain ⟨cs, hs, rfl⟩ := run_ahead_eq_ok_iff.mp h
    exact ⟨c, cs, hs, hnext⟩
  · rintro ⟨c, cs, hs, hnext⟩
    exact ⟨c, c :: cs, run_ahead_eq_ok_iff.mpr ⟨cs, hs, rfl⟩, hnext⟩

/-- A decoder that reads nothing unless a character is ahead goes on with that character. -/
theorem run_ahead_if_eq_ok_iff {other : Char → Decoder α} (hother : ∀ x, (other x).Refuses) :
    (ahead part >>= fun x => if x = c then d else other x).run s = .ok (y, rest) ↔
      ∃ cs, s.dropWhile isBlank = c :: cs ∧ d.run (c :: cs) = .ok (y, rest) := by
  rw [run_ahead_bind_eq_ok_iff]
  constructor
  · rintro ⟨x, cs, hs, h⟩
    split at h
    · rename_i hx
      subst hx
      exact ⟨cs, hs, h⟩
    · exact absurd h (hother x _ _ _)
  · rintro ⟨cs, hs, h⟩
    refine ⟨c, cs, hs, ?_⟩
    rwa [if_pos rfl]

/-- The same where the character is passed over. -/
theorem run_ahead_skip_eq_ok_iff {next : Unit → Decoder α} {other : Char → Decoder α}
    (hother : ∀ x, (other x).Refuses) :
    (ahead part >>= fun x => if x = c then skip >>= next else other x).run s = .ok (y, rest) ↔
      ∃ cs, s.dropWhile isBlank = c :: cs ∧ (next ()).run cs = .ok (y, rest) := by
  simp only [run_ahead_if_eq_ok_iff hother, run_skip_bind]

end Decoder

open Decoder

section Steps

variable {s rest : List Char}

theorem run_colon_eq_ok_iff {u : Unit} :
    colon.run s = .ok (u, rest) ↔ s.dropWhile isBlank = ':' :: rest := by
  rw [colon, run_ahead_if_eq_ok_iff fun _ => refuses_fail _]
  constructor
  · rintro ⟨cs, hs, h⟩
    obtain ⟨-, rfl⟩ := Prod.mk.inj (Except.ok.inj h)
    exact hs
  · intro hs
    exact ⟨rest, hs, rfl⟩

theorem run_tag_eq_ok_iff {tags : Tags κ} {k : κ} :
    (tag tags).run s = .ok (k, rest) ↔
      ∃ text, Begins (bodyTexts text) s rest ∧ tags.ofTag? text = some k := by
  rw [tag, run_bind_eq_ok_iff]
  constructor
  · rintro ⟨text, middle, htext, h⟩
    split at h
    · rename_i k' hk
      obtain ⟨rfl, rfl⟩ := run_pure_eq_ok_iff.mp h
      exact ⟨text, readString_eq_ok_iff.mp htext, hk⟩
    · exact absurd h (refuses_fail _ _ _ _)
  · rintro ⟨text, htext, hk⟩
    refine ⟨text, rest, readString_eq_ok_iff.mpr htext, ?_⟩
    rw [hk]
    exact run_pure_eq_ok_iff.mpr ⟨rfl, rfl⟩

theorem run_closeList_eq_ok_iff {u : Unit} :
    closeList.run s = .ok (u, rest) ↔ s.dropWhile isBlank = ']' :: rest := by
  rw [closeList]
  dsimp only
  constructor
  · intro h
    split at h
    · contradiction
    · rename_i c cs hs
      split at h
      · rename_i hc
        obtain ⟨-, rfl⟩ := Prod.mk.inj (Except.ok.inj h)
        rw [hs, hc]
      · split at h
        · contradiction
        · contradiction
  · intro hs
    rw [hs]
    rfl

/-- Nothing more follows if the closing bracket does. -/
theorem readMore_eq_false_iff {container : Container} :
    readMore container s = .ok (false, rest) ↔ s.dropWhile isBlank = container.close :: rest := by
  constructor
  · intro h
    rw [readMore] at h
    split at h
    · contradiction
    · rename_i c cs hs
      split at h
      · rename_i hc
        obtain ⟨-, rfl⟩ := Prod.mk.inj (Except.ok.inj h)
        rw [hs, hc]
      · split at h
        · split at h
          · contradiction
          · split at h
            · contradiction
            · cases h
        · contradiction
  · intro hs
    rw [readMore, hs]
    exact if_pos rfl

/-- Another item follows if a comma does and the closing bracket is not right behind it. -/
theorem readMore_eq_true_iff {container : Container} :
    readMore container s = .ok (true, rest) ↔
      ∃ behind, s.dropWhile isBlank = ',' :: behind ∧ rest = behind.dropWhile isBlank ∧
        ∃ c cs, rest = c :: cs ∧ c ≠ container.close := by
  constructor
  · intro h
    rw [readMore] at h
    split at h
    · contradiction
    · rename_i c cs hs
      split at h
      · cases h
      · split at h
        · rename_i hcomma
          split at h
          · contradiction
          · rename_i d ds hd
            split at h
            · contradiction
            · rename_i hclose
              obtain ⟨-, rfl⟩ := Prod.mk.inj (Except.ok.inj h)
              exact ⟨cs, by rw [hs, hcomma], hd.symm, d, ds, rfl, hclose⟩
        · contradiction
  · rintro ⟨behind, hs, rfl, c, cs, hc, hclose⟩
    have hcomma : ',' ≠ container.close := by
      cases container with
      | list => decide
      | object => decide
    rw [readMore, hs]
    dsimp only
    rw [if_neg hcomma, if_pos rfl, hc]
    exact if_neg hclose

end Steps

/-! ## Items of a container -/

section Items

variable {container : Container} {item : Decoder α} {texts : α → Language Char}
  {s rest : List Char}

/-- The decoder reads an item exactly from its texts, behind blanks, and none of these starts like
the end of the container. -/
structure ReadsItems (container : Container) (item : Decoder α) (texts : α → Language Char) :
    Prop where
  run : ∀ {s x rest}, item.run s = .ok (x, rest) ↔ Begins (texts x) (s.dropWhile isBlank) rest
  solid : ∀ x, Solid (texts x)
  head_ne : ∀ {x s rest}, Begins (texts x) s rest → ∃ c cs, s = c :: cs ∧ c ≠ container.close

theorem isBlank_close (container : Container) : isBlank container.close = false := by
  cases container with
  | list => decide
  | object => decide

theorem dropWhile_isBlank_dropWhile (s : List Char) :
    (s.dropWhile isBlank).dropWhile isBlank = s.dropWhile isBlank :=
  (begins_blanks_dropWhile s).dropWhile_eq.symm

/-- A last item and the closing bracket behind it. -/
theorem ReadsItems.begins_last (h : ReadsItems container item texts) {x : α} :
    Begins (separatedTexts [texts x] * symbol container.close) s rest ↔
      ∃ behind, Begins (texts x) (s.dropWhile isBlank) behind ∧
        behind.dropWhile isBlank = container.close :: rest := by
  rw [separatedTexts, mul_assoc, mul_assoc, ((h.solid x).mul _).begins_blanks_mul, begins_mul]
  simp only [begins_blanks_symbol (isBlank_close container)]

/-- An item with a comma and others behind it. -/
theorem ReadsItems.begins_more (h : ReadsItems container item texts) {x y : α} {ys : List α} :
    Begins (separatedTexts ((x :: y :: ys).map texts) * symbol container.close) s rest ↔
      ∃ behind, Begins (texts x) (s.dropWhile isBlank) behind ∧
      ∃ others, behind.dropWhile isBlank = ',' :: others ∧
        Begins (separatedTexts ((y :: ys).map texts) * symbol container.close) others rest := by
  rw [List.map_cons, List.map_cons, separatedTexts, mul_assoc, mul_assoc, mul_assoc, mul_assoc,
    ((h.solid x).mul _).begins_blanks_mul, begins_mul]
  simp only [begins_blanks_symbol_mul (c := ',') (by decide)]

/-- Blanks in front of items are passed over, and an item follows them. -/
theorem ReadsItems.begins_dropWhile (h : ReadsItems container item texts) {x : α} {xs : List α} :
    Begins (separatedTexts ((x :: xs).map texts) * symbol container.close) (s.dropWhile isBlank)
        rest ↔
      Begins (separatedTexts ((x :: xs).map texts) * symbol container.close) s rest := by
  cases xs with
  | nil => rw [List.map_singleton, h.begins_last, h.begins_last, dropWhile_isBlank_dropWhile]
  | cons y ys => rw [h.begins_more, h.begins_more, dropWhile_isBlank_dropWhile]

theorem ReadsItems.exists_begins (h : ReadsItems container item texts) {x : α} {xs : List α}
    (hbegins : Begins (separatedTexts ((x :: xs).map texts) * symbol container.close) s rest) :
    ∃ behind, Begins (texts x) (s.dropWhile isBlank) behind := by
  cases xs with
  | nil =>
      obtain ⟨behind, hx, -⟩ := h.begins_last.mp hbegins
      exact ⟨behind, hx⟩
  | cons y ys =>
      obtain ⟨behind, hx, -⟩ := h.begins_more.mp hbegins
      exact ⟨behind, hx⟩

/-- The items that are left are read exactly from their texts up to the closing bracket. -/
theorem ReadsItems.readItems_eq_ok_iff (h : ReadsItems container item texts) {earlier xs : List α} :
    readItems container item earlier s = .ok (xs, rest) ↔
      ∃ y ys, xs = earlier.reverse ++ y :: ys ∧
        Begins (separatedTexts ((y :: ys).map texts) * symbol container.close) s rest := by
  constructor
  · intro hread
    fun_induction readItems container item earlier s with
    | case1 => contradiction
    | case2 => contradiction
    | case3 earlier s x behind hx r hmore =>
        obtain ⟨rfl, rfl⟩ := Prod.mk.inj (Except.ok.inj hread)
        refine ⟨x, [], List.reverse_cons, ?_⟩
        exact h.begins_last.mpr ⟨behind, h.run.mp hx, readMore_eq_false_iff.mp hmore⟩
    | case4 earlier s x behind hx r hmore ih =>
        obtain ⟨y, ys, rfl, hys⟩ := ih hread
        obtain ⟨others, hcomma, rfl, -⟩ := readMore_eq_true_iff.mp hmore
        refine ⟨x, y :: ys, ?_, ?_⟩
        · rw [List.reverse_cons, List.append_assoc, List.singleton_append]
        · exact h.begins_more.mpr ⟨behind, h.run.mp hx, others, hcomma, h.begins_dropWhile.mp hys⟩
  · rintro ⟨y, ys, rfl, hbegins⟩
    -- On the items behind `y`: those before it are in `earlier`, which grows with every step.
    induction ys generalizing earlier s y with
    | nil =>
        obtain ⟨behind, hy, hclose⟩ := h.begins_last.mp hbegins
        rw [readItems_eq, h.run.mpr hy]
        dsimp only
        rw [readMore_eq_false_iff.mpr hclose, List.reverse_cons]
    | cons z zs ih =>
        obtain ⟨behind, hy, others, hcomma, hothers⟩ := h.begins_more.mp hbegins
        obtain ⟨_, hz⟩ := h.exists_begins hothers
        have hmore := readMore_eq_true_iff.mpr ⟨others, hcomma, rfl, h.head_ne hz⟩
        have hitems : readItems container item (y :: earlier) (others.dropWhile isBlank) =
            .ok ((y :: earlier).reverse ++ z :: zs, rest) :=
          ih z (h.begins_dropWhile.mpr hothers)
        rw [readItems_eq, h.run.mpr hy]
        dsimp only
        rw [hmore]
        dsimp only
        rw [hitems, List.reverse_cons, List.append_assoc, List.singleton_append]

/-- Behind the bracket that opens a container its items are read exactly from their texts. -/
theorem ReadsItems.run_content_eq_ok_iff (h : ReadsItems container item texts) {xs : List α} :
    (content container item).run s = .ok (xs, rest) ↔
      Begins (separatedTexts (xs.map texts) * symbol container.close) s rest := by
  rw [content, run_ahead_bind_eq_ok_iff]
  constructor
  · rintro ⟨c, cs, hs, hrun⟩
    split at hrun
    · rename_i hc
      obtain ⟨rfl, rfl⟩ := Prod.mk.inj (Except.ok.inj hrun)
      rw [List.map_nil, separatedTexts, begins_blanks_symbol (isBlank_close container), hs, hc]
      rfl
    · obtain ⟨y, ys, rfl, hys⟩ := h.readItems_eq_ok_iff.mp hrun
      rw [← hs] at hys
      exact h.begins_dropWhile.mp hys
  · intro hbegins
    cases xs with
    | nil =>
        rw [List.map_nil, separatedTexts, begins_blanks_symbol (isBlank_close container)] at hbegins
        refine ⟨container.close, rest, hbegins, ?_⟩
        rw [if_pos rfl]
        rfl
    | cons y ys =>
        obtain ⟨_, hy⟩ := h.exists_begins hbegins
        obtain ⟨c, cs, hc, hclose⟩ := h.head_ne hy
        refine ⟨c, cs, hc, ?_⟩
        rw [if_neg hclose, ← hc]
        exact h.readItems_eq_ok_iff.mpr ⟨y, ys, rfl, h.begins_dropWhile.mpr hbegins⟩

end Items

end PredicateLanguage.Json
