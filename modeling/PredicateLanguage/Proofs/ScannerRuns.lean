import PredicateLanguage.Proofs.Calls
import PredicateLanguage.Proofs.Scanner

/-!
# Readers that scan

A reader that reads tokens does what a scanner does that goes over the bytes of the text: skipping
spaces, looking for a symbol, a name or a literal, and going back to some place.  As a cursor never
stands inside a character, a scanner never does so either, whatever is done with it.
-/

namespace PredicateLanguage

open Grammar Rule

theorem Cursor.split (q : Char → Bool) (c : Cursor) :
    c.rest = c.rest.takeWhile q ++ (c.dropWhile q).rest := by
  rw [rest_dropWhile, List.takeWhile_append_dropWhile]

namespace Reader

variable {r : Reader} {c d : Cursor}

/-- What is scanned where a reader reads. -/
def scanner (r : Reader) : Scanner where
  input := r.text
  position := r.position
  furthest := r.furthestOffset

/-- The place of a cursor behind some more text. -/
theorem offsetOf_of_append (hc : r.source ≤ c) {mid : List Char} (h : c.rest = mid ++ d.rest) :
    r.offsetOf d = r.offsetOf c + (bytesOf mid).length := by
  have hle := Cursor.left_le_of_le hc
  rw [offsetOf, offsetOf, length_bytesOf]
  rw [c.left_eq, h, utf8Length_append, ← d.left_eq] at *
  omega

theorem offsetOf_of_front {front : List Char} (h : front ++ c.rest = r.source.rest) :
    r.offsetOf c = (bytesOf front).length := by
  rw [offsetOf_of_append (Cursor.le_refl r.source) h.symm, offsetOf, Nat.sub_self, Nat.zero_add]

theorem drop_offsetOf (hc : r.source ≤ c) :
    (utf8Bytes r.text).drop (r.offsetOf c) = bytesOf c.rest := by
  obtain ⟨front, hfront⟩ := hc
  rw [text, utf8Bytes_ofList, ← hfront, bytesOf_append, offsetOf_of_front hfront, List.drop_left]

theorem length_scanner (r : Reader) : r.scanner.length = r.offsetOf ⟨[], 0, rfl⟩ := by
  rw [Scanner.length, scanner, text, utf8Bytes_ofList, length_bytesOf, ← r.source.left_eq]
  rfl

theorem between_offsetOf (hc : r.source ≤ c) : r.scanner.Between (r.offsetOf c) := by
  obtain ⟨front, hfront⟩ := hc
  refine String.Pos.Raw.isValid_iff_exists_append.mpr ⟨.ofList front, .ofList c.rest, ?_, ?_⟩
  · rw [← String.ofList_append, hfront]
    rfl
  · rw [offsetOf_of_front hfront, ← utf8Bytes_ofList]
    rfl

theorem slice_offsetOf (hc : r.source ≤ c) {mid : List Char} (h : c.rest = mid ++ d.rest) :
    r.scanner.slice? (r.offsetOf c) (r.offsetOf d) = some (.ofList mid) := by
  have hle : r.offsetOf c ≤ r.offsetOf d := by
    rw [offsetOf_of_append hc h]
    exact Nat.le_add_right _ _
  have hd : r.source ≤ d := Cursor.le_trans hc ⟨mid, h.symm⟩
  have hslice : r.scanner.slice? (r.offsetOf c) (r.offsetOf d) = some _ :=
    dif_pos ⟨hle, between_offsetOf hc, between_offsetOf hd⟩
  rw [hslice]
  refine congrArg some (utf8Bytes_injective ?_)
  rw [Scanner.utf8Bytes_of_slice hslice]
  change ((utf8Bytes r.text).drop _).take _ = _
  rw [drop_offsetOf hc, h, bytesOf_append, offsetOf_of_append hc h, Nat.add_sub_cancel_left,
    List.take_left, utf8Bytes_ofList]

theorem slice_rest (hc : r.source ≤ c) :
    r.scanner.slice? (r.offsetOf c) r.scanner.length = some (.ofList c.rest) := by
  rw [length_scanner]
  exact slice_offsetOf hc (List.append_nil c.rest).symm

theorem byteAt?_offsetOf (hc : r.source ≤ c) (size : Nat) :
    r.scanner.byteAt? (r.offsetOf c + size) = (bytesOf c.rest)[size]? := by
  rw [← drop_offsetOf hc, List.getElem?_drop]
  rfl

theorem head_offsetOf (hc : r.source ≤ c) :
    r.scanner.byteAt? (r.offsetOf c) = (bytesOf c.rest).head? := by
  rw [List.head?_eq_getElem?]
  exact byteAt?_offsetOf hc 0

/-- Passing over bytes of a class is passing over characters of the class. -/
theorem skipWhile_scanner {p : UInt8 → Bool} {q : Char → Bool} (h : TellsBytes p q)
    (hc : r.source ≤ c) :
    (r.scanner.moveTo (r.offsetOf c)).skipWhile p =
      r.scanner.moveTo (r.offsetOf (c.dropWhile q)) := by
  rw [Scanner.skipWhile_eq, offsetOf_of_append hc (c.split q), ← h.takeWhile_bytesOf,
    ← drop_offsetOf hc]
  rfl

theorem offsetOf_dropWhile_eq_iff (hc : r.source ≤ c) (q : Char → Bool) :
    r.offsetOf (c.dropWhile q) = r.offsetOf c ↔ c.rest.head?.any q = false := by
  rw [offsetOf_of_append hc (c.split q), Nat.add_eq_left, length_bytesOf]
  cases c.rest with
  | nil => exact iff_of_true rfl rfl
  | cons x rest =>
      have hpos := x.utf8Size_pos
      cases hx : q x with
      | true => simp [hx, Nat.ne_of_gt hpos]
      | false => simp [hx]

theorem skipSpaces_scanner (r : Reader) :
    r.scanner.skipSpaces = r.scanner.moveTo (r.offsetOf r.cursor.skipSpaces) :=
  skipWhile_scanner tellsBytes_space r.source_le_cursor

/-! ## Rules for tokens -/

theorem offsetOf_later (r : Reader) (c d : Cursor) :
    r.offsetOf (c.later d) = max (r.offsetOf c) (r.offsetOf d) := by
  rw [offsetOf, offsetOf, offsetOf, Cursor.left_later]
  omega

theorem scanner_read {α : Type} (r : Reader) (rule : Rule α) :
    (r.read rule).2.scanner =
      ⟨r.text, r.offsetOf ((rule.run r.cursor).cursorFrom r.cursor),
        r.offsetOf ((rule.run r.cursor).marks.furthestFrom r.furthest)⟩ := rfl

theorem scanner_read_of_found {α : Type} (rule : Rule α) {x : α}
    (h : rule.run r.cursor = .found x d) :
    (r.read rule).1 = some x ∧ (r.read rule).2.scanner = r.scanner.moveTo (r.offsetOf d) := by
  have hscanner := scanner_read r rule
  rw [h] at hscanner
  exact ⟨congrArg (fun a => a.outcome.map Prod.fst) h, hscanner⟩

/-- A rule that misses something and does not go on. -/
theorem scanner_read_of_missed {α : Type} (rule : Rule α) {outcome : Option (α × Cursor)}
    (h : rule.run r.cursor = ⟨outcome, ⟨some d, 0⟩⟩)
    (hstays : ∀ x e, outcome = some (x, e) → e = r.cursor) :
    (r.read rule).1 = outcome.map Prod.fst ∧
      (r.read rule).2.scanner = (r.scanner.moveTo (r.offsetOf d)).missFrom r.position := by
  have hcursor : (rule.run r.cursor).cursorFrom r.cursor = r.cursor := by
    rw [h, Attempt.cursorFrom]
    split
    · rfl
    · rename_i x e houtcome
      exact hstays x e houtcome
  have hscanner := scanner_read r rule
  rw [hcursor, h] at hscanner
  refine ⟨congrArg (fun a => a.outcome.map Prod.fst) h, hscanner.trans ?_⟩
  exact congrArg (Scanner.mk r.text r.position) (r.offsetOf_later r.furthest d)

theorem scanner_read_of_missing {α : Type} (rule : Rule α)
    (h : rule.run r.cursor = .missing d) :
    (r.read rule).1 = none ∧
      (r.read rule).2.scanner = (r.scanner.moveTo (r.offsetOf d)).missFrom r.position :=
  scanner_read_of_missed rule h (by intro x e; exact nofun)

theorem source_le_skipSpaces (r : Reader) : r.source ≤ r.cursor.skipSpaces :=
  Cursor.le_trans r.source_le_cursor (Cursor.le_skipSpaces r.cursor)

theorem eat_scanner (r : Reader) (symbol : Symbol) :
    r.scanner.eat symbol =
      some ((r.read (eat symbol)).1.getD false, (r.read (eat symbol)).2.scanner) := by
  have hd := r.source_le_skipSpaces
  rw [Scanner.eat, skipSpaces_scanner]
  simp only [Scanner.position_moveTo, Scanner.length_moveTo, Scanner.slice?_moveTo,
    Scanner.byteAt?_moveTo, Scanner.moveTo_moveTo, slice_rest hd, byteAt?_offsetOf hd,
    Option.bind_eq_bind, Option.bind_some, utf8Bytes_ofList, symbol.opens_bytes]
  cases hopens : symbol.opens r.cursor.skipSpaces.rest with
  | false =>
      have hrun := run_eat_of_none (s := symbol) (if_neg (ne_true_of_eq_false hopens))
      obtain ⟨hfound, hscanner⟩ := scanner_read_of_missed (Grammar.eat symbol) hrun fun x e h =>
        (Prod.mk.inj (Option.some.inj h)).2.symm
      rw [if_neg Bool.false_ne_true, hfound, hscanner]
      rfl
  | true =>
      have hrun := run_eat_of_some (s := symbol) (if_pos hopens)
      obtain ⟨hfound, hscanner⟩ := scanner_read_of_found (Grammar.eat symbol) hrun
      have hsplit : r.cursor.skipSpaces.rest =
          symbol.text.toList ++ (r.cursor.skipSpaces.advance symbol.text.toList.length).rest := by
        obtain ⟨tail, htail⟩ :=
          List.isPrefixOf_iff_prefix.mp (Bool.and_eq_true_iff.mp hopens).1
        rw [Cursor.rest_advance, ← htail, List.drop_left]
      rw [if_pos rfl, hfound, hscanner, offsetOf_of_append hd hsplit, utf8Bytes_eq, bytesOf]
      rfl

theorem identifier_scanner (r : Reader) :
    r.scanner.identifier = some ((r.read identifier).1, (r.read identifier).2.scanner) := by
  have hd := r.source_le_skipSpaces
  rw [Scanner.identifier, skipSpaces_scanner]
  simp only [Scanner.position_moveTo, Scanner.byteAt?_moveTo, Scanner.slice?_moveTo,
    head_offsetOf hd, tellsBytes_letter.head_bytesOf, skipWhile_scanner tellsBytes_word hd]
  cases hletter : r.cursor.skipSpaces.rest.head?.any Char.isAlpha with
  | false =>
      obtain ⟨hname, hscanner⟩ := scanner_read_of_missing identifier
        (if_neg (ne_true_of_eq_false hletter))
      rw [if_neg Bool.false_ne_true, hname, hscanner]
      rfl
  | true =>
      obtain ⟨hname, hscanner⟩ := scanner_read_of_found identifier (if_pos hletter)
      rw [if_pos rfl, hname, hscanner, slice_offsetOf hd (Cursor.split isWord _)]
      rfl

/-- Behind an opening quote a literal is read up to the closing one, if there is one. -/
theorem literal_scanner_of_quote (h : r.cursor.skipSpaces.rest.head? = some quote) :
    r.scanner.literal = some ((r.read literal).1, (r.read literal).2.scanner) := by
  have hd := r.source_le_skipSpaces
  set inside := r.cursor.skipSpaces.advance 1 with hinside
  have hrest : r.cursor.skipSpaces.rest = [quote] ++ inside.rest := by
    obtain ⟨rest, hrest⟩ := List.head?_eq_some_iff.mp h
    rw [hinside, Cursor.rest_advance, hrest]
    rfl
  have hopening : r.offsetOf inside = r.offsetOf r.cursor.skipSpaces + 1 :=
    offsetOf_of_append hd hrest
  have hsource : r.source ≤ inside := Cursor.le_trans hd (Cursor.le_advance 1 _)
  set closing := inside.dropWhile (· ≠ quote) with hclosing
  rw [Scanner.literal, skipSpaces_scanner]
  simp only [Scanner.position_moveTo, Scanner.length_moveTo, Scanner.byteAt?_moveTo,
    Scanner.slice?_moveTo, Scanner.moveTo_moveTo, head_offsetOf hd, head?_bytesOf_eq_quote]
  rw [if_pos h, ← hopening, slice_rest hsource, Option.bind_eq_bind, Option.bind_some,
    utf8Bytes_ofList, findIdx?_quoteByte]
  rcases dropWhile_quote_cases inside.rest with hnil | ⟨rest, hcons⟩
  · -- without a closing quote the scan has come to the end of the text
    have hend : closing = ⟨[], 0, rfl⟩ := Cursor.ext ((Cursor.rest_dropWhile _ _).trans hnil)
    obtain ⟨hvalue, hscanner⟩ := scanner_read_of_missing literal (d := closing)
      ((if_pos h).trans (if_pos (by rw [← hclosing, hend]; rfl)))
    rw [if_pos hnil, hvalue, hscanner, hend, length_scanner]
    rfl
  · have hend : closing.rest = quote :: rest := (Cursor.rest_dropWhile _ _).trans hcons
    obtain ⟨hvalue, hscanner⟩ := scanner_read_of_found literal
      (x := .ofList (inside.rest.takeWhile (· ≠ quote))) (d := closing.advance 1)
      ((if_pos h).trans (if_neg (by rw [← hclosing, Cursor.atEnd, hend]; exact Bool.false_ne_true)))
    have hsplit := inside.split (· ≠ quote)
    have hstop : r.offsetOf closing =
        r.offsetOf inside + utf8Length (inside.rest.takeWhile (· ≠ quote)) := by
      rw [offsetOf_of_append hsource hsplit, length_bytesOf]
    have hbehind : closing.rest = [quote] ++ (closing.advance 1).rest := by
      rw [Cursor.rest_advance, hend]
      rfl
    have hplace : r.offsetOf (closing.advance 1) = r.offsetOf closing + 1 :=
      offsetOf_of_append (Cursor.le_trans hsource (Cursor.le_dropWhile _ _)) hbehind
    rw [if_neg (by rw [hcons]; exact List.cons_ne_nil _ _)]
    dsimp only
    rw [← hstop, slice_offsetOf hsource hsplit, hvalue, hscanner, hplace]
    rfl

theorem literal_scanner_of_not_quote (h : r.cursor.skipSpaces.rest.head? ≠ some quote) :
    r.scanner.literal = some ((r.read literal).1, (r.read literal).2.scanner) := by
  have hd := r.source_le_skipSpaces
  rw [Scanner.literal, skipSpaces_scanner]
  simp only [Scanner.position_moveTo, Scanner.byteAt?_moveTo, Scanner.slice?_moveTo,
    head_offsetOf hd, head?_bytesOf_eq_quote, skipWhile_scanner tellsBytes_word hd,
    offsetOf_dropWhile_eq_iff hd]
  rw [if_neg h]
  cases hword : r.cursor.skipSpaces.rest.head?.any isWord with
  | false =>
      have hstays := (offsetOf_dropWhile_eq_iff hd isWord).mpr hword
      obtain ⟨hvalue, hscanner⟩ := scanner_read_of_missing literal
        ((if_neg h).trans (if_neg (ne_true_of_eq_false hword)))
      rw [if_pos rfl, hstays, hvalue, hscanner]
      rfl
  | true =>
      obtain ⟨hvalue, hscanner⟩ := scanner_read_of_found literal
        ((if_neg h).trans (if_pos hword))
      rw [if_neg Bool.false_ne_true.symm, slice_offsetOf hd (Cursor.split isWord _), hvalue,
        hscanner]
      rfl

theorem literal_scanner (r : Reader) :
    r.scanner.literal = some ((r.read literal).1, (r.read literal).2.scanner) := by
  by_cases h : r.cursor.skipSpaces.rest.head? = some quote
  · exact literal_scanner_of_quote h
  · exact literal_scanner_of_not_quote h

/-! ## Steps -/

/-- Every place between two characters can be gone to. -/
theorem exists_moveToOffset? {offset : Nat} (h : String.Pos.Raw.IsValid r.text ⟨offset⟩) :
    ∃ c, ∃ hc : r.source ≤ c, r.moveToOffset? offset = some (r.moveTo c hc) ∧
      r.offsetOf c = offset := by
  obtain ⟨front, rest, htext, hoffset⟩ := String.Pos.Raw.isValid_iff_exists_append.mp h
  have hsource : r.source.rest = front.toList ++ rest.toList := by
    rw [← String.toList_append, ← htext, text, String.toList_ofList]
  have hbytes : offset = utf8Length front.toList := by
    have hlength : offset = (utf8Bytes front).length := congrArg String.Pos.Raw.byteIdx hoffset
    rw [hlength, utf8Bytes_eq, ← length_bytesOf, bytesOf]
  have hforward : r.source.forward? offset = some (.start rest.toList) := by
    rw [Cursor.forward?, hsource, hbytes, Cursor.dropBytes?_utf8Length]
    rfl
  refine ⟨.start rest.toList, Cursor.le_of_forward? hforward, ?_, ?_⟩
  · rw [moveToOffset?]
    split
    · rename_i c hc
      obtain rfl := Option.some.inj (hc.symm.trans hforward)
      rfl
    · rename_i hnone
      cases hnone.symm.trans hforward
  · rw [offsetOf_of_front hsource.symm, length_bytesOf, hbytes]

theorem inBounds_scanner (r : Reader) : r.scanner.InBounds := by
  have hle : ∀ c, r.offsetOf c ≤ r.scanner.length := by
    intro c
    rw [length_scanner]
    exact Nat.sub_le_sub_left (Nat.zero_le _) _
  exact ⟨hle _, hle _, between_offsetOf r.source_le_cursor, between_offsetOf r.source_le_furthest⟩

/-- What a reader does in a step. -/
def scan {input : String} (r : Reader) : Scanner.Step input → Option (Scanner.Answer × Reader)
  | .skipSpaces => some (.done, r.skipSpaces)
  | .eat symbol =>
    let (found, r') := r.read (Grammar.eat symbol)
    some (.ate (found.getD false), r')
  | .identifier =>
    let (name, r') := r.read Grammar.identifier
    some (.read name, r')
  | .literal =>
    let (value, r') := r.read Grammar.literal
    some (.read value, r')
  | .reset place => do
    let r' ← r.moveToOffset? place.offset.byteIdx
    return (.done, r')

/-- The reader behind some steps. -/
def afterScans {input : String} (r : Reader) : List (Scanner.Step input) → Option Reader
  | [] => some r
  | x :: steps =>
    match r.scan x with
    | none => none
    | some (_, r') => r'.afterScans steps

/-- A step of a reader is a step over bytes. -/
theorem step_scanner {input : String} (htext : r.text = input) (x : Scanner.Step input) :
    ∃ answer r', r.scan x = some (answer, r') ∧ r'.text = input ∧
      r.scanner.step x = some (answer, r'.scanner) := by
  cases x with
  | skipSpaces =>
      exact ⟨_, _, rfl, htext, congrArg (fun s => some (_, s)) r.skipSpaces_scanner⟩
  | eat symbol =>
      refine ⟨_, _, rfl, htext, ?_⟩
      rw [Scanner.step, eat_scanner]
      rfl
  | identifier =>
      refine ⟨_, _, rfl, htext, ?_⟩
      rw [Scanner.step, identifier_scanner]
      rfl
  | literal =>
      refine ⟨_, _, rfl, htext, ?_⟩
      rw [Scanner.step, literal_scanner]
      rfl
  | reset place =>
      subst htext
      obtain ⟨c, hc, hmove, hplace⟩ := exists_moveToOffset? place.isValid
      refine ⟨.done, r.moveTo c hc, ?_, rfl, ?_⟩
      · rw [scan, hmove]
        rfl
      · rw [Scanner.step, ← hplace]
        rfl

theorem after_scanner {input : String} {r : Reader} (htext : r.text = input)
    (steps : List (Scanner.Step input)) :
    ∃ r', r.afterScans steps = some r' ∧ r'.text = input ∧
      r.scanner.after steps = some r'.scanner := by
  induction steps generalizing r with
  | nil => exact ⟨r, rfl, htext, rfl⟩
  | cons x steps ih =>
      obtain ⟨answer, next, hscan, hnext, hstep⟩ := step_scanner htext x
      obtain ⟨r', hafter, htext', hsteps⟩ := ih hnext
      refine ⟨r', ?_, htext', ?_⟩
      · rw [afterScans, hscan]
        exact hafter
      · rw [Scanner.after, hstep]
        exact hsteps

/-- However a text is scanned, the scanner stands between two characters of it and remembers such a
place: the largest of those at which a step failed.  The text can be taken out from both up to its
end, and no step is ever about to take out anything else. -/
theorem scans_between_characters (input : String) (limit : Nat)
    (steps : List (Scanner.Step input)) :
    ∃ r, (ofText input limit).afterScans steps = some r ∧
      (Scanner.ofText input).after steps = some r.scanner ∧
      r.scanner.input = input ∧ r.scanner.InBounds ∧
      r.scanner.slice? r.position r.scanner.length = some r.remaining ∧
      r.scanner.slice? r.furthestOffset r.scanner.length = some (.ofList r.furthest.rest) ∧
      r.furthestOffset = ((Scanner.ofText input).failures steps).max?.getD 0 ∧
      ∀ x : Scanner.Step input, ∃ answer r', r.scan x = some (answer, r') ∧
        r.scanner.step x = some (answer, r'.scanner) ∧
        r.scanner.Outcome x answer r'.scanner := by
  have htext : (ofText input limit).text = input := String.ofList_toList
  have hzero : (ofText input limit).offsetOf (.start input.toList) = 0 := Nat.sub_self _
  have hstart : (ofText input limit).scanner = .ofText input := by
    rw [scanner, htext]
    exact congrArg₂ (Scanner.mk input) hzero hzero
  obtain ⟨r, hafter, hr, hsteps⟩ := after_scanner htext steps
  rw [hstart] at hsteps
  refine ⟨r, hafter, hsteps, hr, r.inBounds_scanner, slice_rest r.source_le_cursor,
    slice_rest r.source_le_furthest, ?_, ?_⟩
  · have hfurthest := Scanner.furthest_after hsteps
    rw [List.foldl_max] at hfurthest
    exact hfurthest.trans (Nat.zero_max _)
  · intro x
    obtain ⟨answer, r', hscan, -, hstep⟩ := step_scanner hr x
    exact ⟨answer, r', hscan, hstep, Scanner.outcome_step hstep⟩

end Reader

end PredicateLanguage
