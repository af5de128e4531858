import PredicateLanguage.Proofs.Completeness
import PredicateLanguage.Proofs.Orderly

/-!
# How far a rule gets

A rule gets as far as a place if it matches and ends there or later, or else fails and marks a
place that lies as far on.  Rules in a row get there if the first one does and the next one does
not fall back, which rules with their marks in order never do.
-/

namespace PredicateLanguage

variable {α β : Type}

/-! ## Marks that are joined -/

namespace Marks

theorem exists_laterMiss_right (m : Option Cursor) (e : Cursor) :
    ∃ e', laterMiss m (some e) = some e' ∧ e'.left ≤ e.left := by
  cases m with
  | none => exact ⟨e, rfl, Nat.le_refl _⟩
  | some c =>
      refine ⟨c.later e, rfl, ?_⟩
      rw [Cursor.left_later]
      exact Nat.min_le_right _ _

theorem exists_laterMiss_left (e : Cursor) (m : Option Cursor) :
    ∃ e', laterMiss (some e) m = some e' ∧ e'.left ≤ e.left := by
  cases m with
  | none => exact ⟨e, rfl, Nat.le_refl _⟩
  | some c =>
      refine ⟨e.later c, rfl, ?_⟩
      rw [Cursor.left_later]
      exact Nat.min_le_left _ _

end Marks

namespace Rule

/-- Tried at `c`, the rule gets as far as `d`: it matches and ends there or later, or it fails
and marks a place with fewer than `n` bytes ahead, or it asks for more levels than the limit. -/
inductive Reaches (r : Rule α) (limit : Nat) (c d : Cursor) (n : Nat) : Prop
  | matched {x : α} {e : Cursor} (h : r.Matches c x e) (hle : d ≤ e)
  | missed {e : Cursor} (h : r.Fails c) (hmiss : r.missAt c = some e) (hlt : e.left < n)
  | refused (h : limit < r.levelsAt c)

namespace Reaches

variable {r s : Rule α} {next : α → Rule β} {limit n : Nat} {c d e : Cursor} {x : α}

/-- A rule that is tried behind the place gets there. -/
theorem later (hr : r.OrderlyAt limit c) (hle : d ≤ c) (hlt : c.left < n) :
    r.Reaches limit c d n := by
  rcases r.matches_or_fails c with ⟨x, e, h⟩ | h
  · exact .matched h (Cursor.le_trans hle h.le)
  by_cases hlevels : r.levelsAt c ≤ limit
  · obtain ⟨e, hmiss⟩ := Option.ne_none_iff_exists'.mp (hr.loud h hlevels)
    exact .missed h hmiss (lt_of_le_of_lt (Cursor.left_le_of_le (le_of_missAt hmiss)) hlt)
  · exact .refused (Nat.lt_of_not_le hlevels)

theorem here (hr : r.OrderlyAt limit c) (hlt : c.left < n) : r.Reaches limit c c n :=
  later hr (Cursor.le_refl c) hlt

theorem bind_of_matches (hx : r.Matches c x e) (hnext : (next x).Reaches limit e d n) :
    (r >>= next).Reaches limit c d n := by
  cases hnext with
  | matched h hle => exact .matched (matches_bind.mpr ⟨x, e, hx, h⟩) hle
  | @missed f h hmiss hlt =>
      obtain ⟨f', hlater, hleft⟩ := Marks.exists_laterMiss_right (r.missAt c) f
      rw [← hmiss, ← missAt_bind_of_matches hx] at hlater
      refine .missed (fails_bind.mpr (Or.inr ⟨x, e, hx, h⟩)) hlater ?_
      exact lt_of_le_of_lt hleft hlt
  | refused h =>
      apply refused
      rw [levelsAt_bind_of_matches hx]
      exact lt_of_lt_of_le h (Nat.le_max_right _ _)

theorem bind (hr : r.Reaches limit c d n)
    (hnext : ∀ x e, d ≤ e → (next x).Reaches limit e d n) :
    (r >>= next).Reaches limit c d n := by
  cases hr with
  | matched hx hle => exact bind_of_matches hx (hnext _ _ hle)
  | missed h hmiss hlt =>
      have hsame : (r >>= next).missAt c = r.missAt c := missAt_bind_of_fails h
      rw [← hsame] at hmiss
      exact .missed (fails_bind.mpr (Or.inl h)) hmiss hlt
  | refused h => exact .refused (lt_of_lt_of_le h (levelsAt_le_bind r next c))

/-- What a rule marks before it matches counts where the next one fails. -/
theorem bind_missed {f : Cursor} (hx : r.Matches c x e) (hmiss : r.missAt c = some f)
    (hlt : f.left < n) (hnext : (next x).Fails e) : (r >>= next).Reaches limit c d n := by
  obtain ⟨f', hlater, hleft⟩ := Marks.exists_laterMiss_left f ((next x).missAt e)
  rw [← hmiss, ← missAt_bind_of_matches hx] at hlater
  refine .missed (fails_bind.mpr (Or.inr ⟨x, e, hx, hnext⟩)) hlater ?_
  exact lt_of_le_of_lt hleft hlt

/-- Whatever is tried behind the place does not fall back behind it. -/
theorem bind_later (hr : r.Reaches limit c d n) (hn : d.left < n)
    (hnext : ∀ x e, (next x).OrderlyAt limit e) : (r >>= next).Reaches limit c d n :=
  hr.bind fun x e hle =>
    later (hnext x e) hle (lt_of_le_of_lt (Cursor.left_le_of_le hle) hn)

theorem bind_pure (hr : r.Reaches limit c d n) (f : α → β) :
    (r >>= fun x => pure (f x)).Reaches limit c d n :=
  hr.bind fun _ _ hle => .matched (matches_pure.mpr ⟨rfl, rfl⟩) hle

theorem map (hr : r.Reaches limit c d n) (f : α → β) : (f <$> r).Reaches limit c d n :=
  hr.bind_pure f

theorem deeper (hr : r.Reaches limit c d n) : r.deeper.Reaches (limit + 1) c d n := by
  cases hr with
  | matched h hle => exact .matched (matches_deeper.mpr h) hle
  | missed h hmiss hlt => exact .missed h hmiss hlt
  | refused h => exact .refused (Nat.succ_lt_succ h)

theorem orElse_of_fails (hr : r.Fails c) (hs : s.Reaches limit c d n) :
    (r <|> s).Reaches limit c d n := by
  cases hs with
  | matched h hle => exact .matched (matches_orElse.mpr (Or.inr ⟨hr, h⟩)) hle
  | @missed f h hmiss hlt =>
      obtain ⟨f', hlater, hleft⟩ := Marks.exists_laterMiss_right (r.missAt c) f
      rw [← hmiss, ← missAt_orElse_of_fails hr] at hlater
      exact .missed (fails_orElse.mpr ⟨hr, h⟩) hlater (lt_of_le_of_lt hleft hlt)
  | refused h =>
      apply refused
      rw [levelsAt_orElse_of_fails hr]
      exact lt_of_lt_of_le h (Nat.le_max_right _ _)

/-- Where nothing else can be read, the first alternative decides. -/
theorem orElse (hr : r.Reaches limit c d n) (hs : s.Fails c) :
    (r <|> s).Reaches limit c d n := by
  cases hr with
  | matched h hle => exact .matched (matches_orElse.mpr (Or.inl h)) hle
  | @missed e h hmiss hlt =>
      obtain ⟨e', hlater, hleft⟩ := Marks.exists_laterMiss_left e (s.missAt c)
      rw [← hmiss, ← missAt_orElse_of_fails h] at hlater
      exact .missed (fails_orElse.mpr ⟨h, hs⟩) hlater (lt_of_le_of_lt hleft hlt)
  | refused h =>
      apply refused
      rcases r.matches_or_fails c with ⟨x, e, hm⟩ | hf
      · rw [levelsAt_orElse_of_matches hm]
        exact h
      · rw [levelsAt_orElse_of_fails hf]
        exact lt_of_lt_of_le h (Nat.le_max_left _ _)

theorem of_yields {depth : Nat} (h : r.Yields limit depth c x e) (hle : d ≤ e) :
    r.Reaches limit c d n := by
  by_cases hdepth : depth ≤ limit
  · exact .matched (h.matched hdepth) hle
  · exact .refused (h.refused (Nat.lt_of_not_le hdepth))

theorem bind_of_yields {depth : Nat} (h : r.Yields limit depth c x e)
    (hnext : (next x).Reaches limit e d n) : (r >>= next).Reaches limit c d n := by
  by_cases hdepth : depth ≤ limit
  · exact bind_of_matches (h.matched hdepth) hnext
  · have hlevels := h.refused (Nat.lt_of_not_le hdepth)
    exact .refused (lt_of_lt_of_le hlevels (levelsAt_le_bind r next c))

end Reaches

end Rule

namespace Grammar

open Rule

variable {limit n : Nat} {c d e : Cursor} {s : Symbol} {t : Token}

/-! ## Symbols -/

theorem reaches_if_eat {r r' : Rule α}
    (hr : ∀ e, Next c s.token e → r.Reaches limit e d n)
    (hr' : s.take? c = none → r'.Reaches limit c d n) :
    (eat s >>= fun found => if found = true then r else r').Reaches limit c d n := by
  cases htake : s.take? c with
  | none => exact .bind_of_matches (matches_eat.mpr (Or.inr ⟨rfl, rfl, htake⟩)) (hr' htake)
  | some e =>
      have hnext := Symbol.take?_eq_some_iff.mp htake
      exact .bind_of_matches (matches_eat.mpr (Or.inl ⟨rfl, hnext⟩)) (hr e hnext)

theorem reaches_if_eat_of_next {r r' : Rule α} (hnext : Next c s.token e)
    (hr : r.Reaches limit e d n) :
    (eat s >>= fun found => if found = true then r else r').Reaches limit c d n :=
  .bind_of_matches (matches_eat.mpr (Or.inl ⟨rfl, hnext⟩)) hr

theorem reaches_if_eat_of_other {r r' : Rule α} (hnext : Next c t e) (hne : t ≠ s.token)
    (hr' : r'.Reaches limit c d n) :
    (eat s >>= fun found => if found = true then r else r').Reaches limit c d n := by
  have hnone := Symbol.take?_eq_none_of_next hnext hne
  exact .bind_of_matches (matches_eat.mpr (Or.inr ⟨rfl, rfl, hnone⟩)) hr'

theorem reaches_expect {next : Unit → Rule α} (hnext : Next c s.token e)
    (hr : (next ()).Reaches limit e d n) : (expect s >>= next).Reaches limit c d n :=
  .bind_of_matches (matches_expect.mpr hnext) hr

end Grammar

end PredicateLanguage
