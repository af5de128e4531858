import PredicateLanguage.Json.Number
import PredicateLanguage.Json.Strings

/-!
# Reading JSON texts

A decoder reads a value of the form that is wanted and leaves the text behind it.
The first fault ends the reading.  Containers that are open at the same time are
limited: a decoder knows how many more may be opened, its room.
-/

namespace PredicateLanguage.Json

/-- Reads a value from the start of a text. -/
structure Decoder (α : Type) where
  run : List Char → Except Fault (α × List Char)
  run_suffix : ∀ {s : List Char} {x : α} {rest : List Char}, run s = .ok (x, rest) → rest <:+ s

namespace Decoder

protected def pure (x : α) : Decoder α where
  run s := .ok (x, s)
  run_suffix h := by
    obtain ⟨-, rfl⟩ := Prod.mk.inj (Except.ok.inj h)
    exact List.suffix_refl _

/-- Reads with one decoder and then with the one that its value asks for. -/
protected def bind (d : Decoder α) (next : α → Decoder β) : Decoder β where
  run s :=
    match d.run s with
    | .error fault => .error fault
    | .ok (x, rest) => (next x).run rest
  run_suffix h := by
    split at h
    · contradiction
    · rename_i hd
      exact ((next _).run_suffix h).trans (d.run_suffix hd)

instance : Monad Decoder where
  pure := Decoder.pure
  bind := Decoder.bind

theorem run_pure (x : α) (s : List Char) : (pure x : Decoder α).run s = .ok (x, s) := rfl

theorem run_bind (d : Decoder α) (next : α → Decoder β) (s : List Char) :
    (d >>= next).run s =
      match d.run s with
      | .error fault => .error fault
      | .ok (x, rest) => (next x).run rest := rfl

def fail (fault : Fault) : Decoder α where
  run _ := .error fault
  run_suffix h := by contradiction

/-- The same decoder, built only when it is needed. -/
def delay (d : Unit → Decoder α) : Decoder α where
  run s := (d ()).run s
  run_suffix h := (d ()).run_suffix h

@[simp]
theorem delay_eq (d : Unit → Decoder α) : delay d = d () := rfl

end Decoder

/-- The characters that may stand between tokens. -/
def isBlank (c : Char) : Bool :=
  c = ' ' || c = '\t' || c = '\n' || c = '\r'

/-- Moves over blanks and tells which character follows, without reading it. -/
def ahead (part : Part) : Decoder Char where
  run s :=
    match s.dropWhile isBlank with
    | [] => .error (.endOfText part)
    | c :: rest => .ok (c, c :: rest)
  run_suffix h := by
    split at h
    · contradiction
    · rename_i hs
      obtain ⟨-, rfl⟩ := Prod.mk.inj (Except.ok.inj h)
      exact hs ▸ List.dropWhile_suffix isBlank

def skip : Decoder Unit where
  run s := .ok ((), s.tail)
  run_suffix h := by
    obtain ⟨-, rfl⟩ := Prod.mk.inj (Except.ok.inj h)
    exact List.tail_suffix _

/-- Reads a string behind the quote that opens it. -/
def stringBody : Decoder String where
  run := readString
  run_suffix := readString_suffix

/-! ## Values of another form than the wanted one -/

/-- Reads a word letter by letter. -/
def readWord (shape : Shape) : List Char → List Char → Except Fault Shape
  | [], _ => .ok shape
  | _ :: _, [] => .error (.endOfText .value)
  | c :: cs, d :: ds => if c = d then readWord shape cs ds else .error .wordExpected

/-- Which value a text starts with.  Lists and objects are not looked into. -/
def readShape : List Char → Except Fault Shape
  | [] => .error (.endOfText .value)
  | c :: rest =>
    if c = 'n' then readWord .null ['u', 'l', 'l'] rest
    else if c = 't' then readWord (.boolean true) ['r', 'u', 'e'] rest
    else if c = 'f' then readWord (.boolean false) ['a', 'l', 's', 'e'] rest
    else if c = '-' ∨ c.isDigit then readNumber (c :: rest)
    else if c = '"' then (fun (x, _) => .string x) <$> readString rest
    else if c = '[' then .ok .list
    else if c = '\x7b' then .ok .object
    else .error .valueExpected

/-- Ends the reading because the value ahead is not of the wanted form. -/
def refuse (wanted : Wanted) : Decoder α where
  run s :=
    match readShape s with
    | .error fault => .error fault
    | .ok found => .error (.wrongType found wanted)
  run_suffix h := by
    split at h <;> contradiction

/-! ## Building blocks -/

def string : Decoder String := do
  if (← ahead .value) = '"' then
    skip
    stringBody
  else
    refuse .string

def colon : Decoder Unit := do
  if (← ahead .object) = ':' then
    skip
  else
    .fail .colonExpected

/-- The two containers, each with any number of items. -/
inductive Container where
  | list
  | object

namespace Container

def close : Container → Char
  | list => ']'
  | object => '\x7d'

/-- The part of a text that breaks off inside a container. -/
def part : Container → Part
  | list => .list
  | object => .object

/-- The fault of an item with neither a comma nor the closing bracket behind it. -/
def goesOn : Container → Fault
  | list => .listGoesOn
  | object => .objectGoesOn

end Container

/-- Reads what follows an item of a container: a comma before another item, or the
closing bracket. -/
def readMore (container : Container) (s : List Char) : Except Fault (Bool × List Char) :=
  match s.dropWhile isBlank with
  | [] => .error (.endOfText container.part)
  | c :: rest =>
    if c = container.close then
      .ok (false, rest)
    else if c = ',' then
      match rest.dropWhile isBlank with
      | [] => .error (.endOfText .value)
      | d :: rest => if d = container.close then .error .trailingComma else .ok (true, d :: rest)
    else
      .error container.goesOn

theorem readMore_suffix {container : Container} {s rest : List Char} {b : Bool}
    (h : readMore container s = .ok (b, rest)) : ∃ c t, c :: t <:+ s ∧ rest <:+ t := by
  unfold readMore at h
  split at h
  · contradiction
  · rename_i c t hs
    refine ⟨c, t, hs ▸ List.dropWhile_suffix isBlank, ?_⟩
    split at h
    · obtain ⟨-, rfl⟩ := Prod.mk.inj (Except.ok.inj h)
      exact List.suffix_refl _
    · split at h
      · split at h
        · contradiction
        · rename_i d r hd
          split at h
          · contradiction
          · obtain ⟨-, rfl⟩ := Prod.mk.inj (Except.ok.inj h)
            exact hd ▸ List.dropWhile_suffix isBlank
      · contradiction

theorem length_lt_of_readMore {container : Container} {s rest : List Char} {b : Bool}
    (h : readMore container s = .ok (b, rest)) : rest.length < s.length := by
  obtain ⟨c, t, hs, ht⟩ := readMore_suffix h
  exact Nat.lt_of_lt_of_le (Nat.lt_succ_of_le ht.length_le) hs.length_le

/-- Goes on reading items up to the closing bracket, given those before in reverse. -/
def readItems (container : Container) (item : Decoder α) (earlier : List α)
    (s : List Char) : Except Fault (List α × List Char) :=
  match _hx : item.run s with
  | .error fault => .error fault
  | .ok (x, rest) =>
    match _hm : readMore container rest with
    | .error fault => .error fault
    | .ok (false, rest) => .ok ((x :: earlier).reverse, rest)
    | .ok (true, rest) => readItems container item (x :: earlier) rest
termination_by s.length
decreasing_by
  exact Nat.lt_of_lt_of_le (length_lt_of_readMore _hm) (item.run_suffix _hx).length_le

theorem readItems_eq (container : Container) (item : Decoder α) (earlier : List α)
    (s : List Char) :
    readItems container item earlier s =
      match item.run s with
      | .error fault => .error fault
      | .ok (x, rest) =>
        match readMore container rest with
        | .error fault => .error fault
        | .ok (false, rest) => .ok ((x :: earlier).reverse, rest)
        | .ok (true, rest) => readItems container item (x :: earlier) rest := by
  fun_cases readItems container item earlier s <;> simp [*]

theorem readItems_suffix {container : Container} {item : Decoder α} {earlier xs : List α}
    {s rest : List Char} (h : readItems container item earlier s = .ok (xs, rest)) :
    rest <:+ s := by
  fun_induction readItems container item earlier s with
  | case1 => contradiction
  | case2 => contradiction
  | case3 earlier s x r hx r' hm =>
    obtain ⟨-, rfl⟩ := Prod.mk.inj (Except.ok.inj h)
    obtain ⟨c, t, hs, ht⟩ := readMore_suffix hm
    exact (ht.trans (List.suffix_cons c t)).trans (hs.trans (item.run_suffix hx))
  | case4 earlier s x r hx r' hm ih =>
    obtain ⟨c, t, hs, ht⟩ := readMore_suffix hm
    exact (ih h).trans ((ht.trans (List.suffix_cons c t)).trans (hs.trans (item.run_suffix hx)))

/-- Reads one or more items of a container up to the closing bracket. -/
def items (container : Container) (item : Decoder α) : Decoder (List α) where
  run := readItems container item []
  run_suffix := readItems_suffix

/-- Reads the items of a container behind the bracket that opens it. -/
def content (container : Container) (item : Decoder α) : Decoder (List α) := do
  if (← ahead container.part) = container.close then
    skip
    return []
  else
    items container item

/-- Reads the bracket ahead that opens a container, if there is room for one. -/
def openBracket (room : Nat) : Decoder Unit :=
  if room = 0 then .fail .tooDeep else skip

def strings (room : Nat) : Decoder (List String) := do
  if (← ahead .value) = '[' then
    openBracket room
    content .list string
  else
    refuse .strings

/-- Reads what follows an item of a container, and tells whether it is another item. -/
def more (container : Container) : Decoder Bool where
  run := readMore container
  run_suffix h := by
    obtain ⟨c, t, hs, ht⟩ := readMore_suffix h
    exact (ht.trans (List.suffix_cons c t)).trans hs

/-- Reads the bracket that closes a list in which nothing more is wanted. -/
def closeList : Decoder Unit where
  run s :=
    match s.dropWhile isBlank with
    | [] => .error (.endOfText .list)
    | c :: rest =>
      if c = ']' then .ok ((), rest)
      else if c = ',' ∧ (rest.dropWhile isBlank).head? = some ']' then .error .trailingComma
      else .error .trailingText
  run_suffix {s x rest} h := by
    split at h
    · contradiction
    · rename_i c r hs
      split at h
      · obtain ⟨-, rfl⟩ := Prod.mk.inj (Except.ok.inj h)
        exact (List.suffix_cons c r).trans (hs ▸ List.dropWhile_suffix isBlank)
      · split at h <;> contradiction

/-- Reads a list of the two parts of a node. -/
def pair (kind : NodeKind) (room : Nat) (first : Decoder α) (second : Decoder β) :
    Decoder (α × β) := do
  if (← ahead .value) = '[' then
    openBracket room
    if (← ahead .list) = ']' then
      .fail (.tooShort 0 kind)
    else
      let x ← first
      if ← more .list then
        let y ← second
        closeList
        return (x, y)
      else
        .fail (.tooShort 1 kind)
  else
    refuse (.pair kind)

/-- Tags and what they stand for. -/
structure Tags (κ : Type) where
  /-- All tags, in the order in which messages list them. -/
  known : List String
  ofTag? : String → Option κ
  /-- What is wanted where a tag stands without content. -/
  wanted : κ → Wanted

/-- Reads a tag behind the quote that opens it. -/
def tag (tags : Tags κ) : Decoder κ := do
  let text ← stringBody
  match tags.ofTag? text with
  | some k => return k
  | none => .fail (.unknownTag text tags.known)

/-- Reads an object whose only key is a tag and whose only value is the content that the
tag asks for. -/
def tagged (tags : Tags κ) (room : Nat) (body : κ → Decoder α) : Decoder α := do
  let c ← ahead .value
  if c = '\x7b' then
    openBracket room
    let c ← ahead .object
    if c = '"' then
      skip
      let k ← tag tags
      colon
      let x ← body k
      if (← ahead .object) = '\x7d' then
        skip
        return x
      else
        .fail .valueExpected
    else if c = '\x7d' then
      .fail .valueExpected
    else
      .fail .keyNotString
  else if c = '"' then
    skip
    let k ← tag tags
    .fail (.wrongType .bareTag (tags.wanted k))
  else
    .fail .valueExpected

/-- The number of containers that may be open at the same time. -/
def openLimit : Nat := 127

/-- Reads a text that holds one value and nothing more than blanks around it. -/
def decode (d : Decoder α) (text : List Char) : Except Fault α :=
  match d.run text with
  | .error fault => .error fault
  | .ok (x, rest) => if rest.all isBlank then .ok x else .error .trailingText

end PredicateLanguage.Json
