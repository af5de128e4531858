/-!
# Writers

A writer puts a text in front of the text that follows it.  To write one text after
another copies neither of them, and what is written can be read off as a list of
characters.
-/

namespace PredicateLanguage

/-- Puts a text in front of the text that follows. -/
structure Writer where
  put : List Char → List Char
  put_eq : ∀ rest, put rest = put [] ++ rest

namespace Writer

/-- What is written where nothing follows. -/
def chars (w : Writer) : List Char :=
  w.put []

/-- Writers of the same text are equal. -/
@[ext]
theorem ext {v w : Writer} (h : v.chars = w.chars) : v = w := by
  obtain ⟨put, put_eq⟩ := v
  obtain ⟨put', put_eq'⟩ := w
  obtain rfl : put = put' := by
    funext rest
    rw [put_eq, put_eq', show put [] = put' [] from h]
  rfl

def string (w : Writer) : String :=
  String.ofList w.chars

def nothing : Writer where
  put rest := rest
  put_eq _ := rfl

def ofChars (cs : List Char) : Writer where
  put rest := cs ++ rest
  put_eq rest := by rw [List.append_nil]

@[simp]
theorem chars_ofChars (cs : List Char) : (ofChars cs).chars = cs :=
  List.append_nil cs

def text (s : String) : Writer :=
  ofChars s.toList

@[simp]
theorem chars_text (s : String) : (text s).chars = s.toList :=
  chars_ofChars _

/-- Writes with the first writer, then with the second. -/
def andThen (v w : Writer) : Writer where
  put rest := v.put (w.put rest)
  put_eq rest := by
    rw [v.put_eq, w.put_eq rest, v.put_eq (w.put []), List.append_assoc]

instance : Append Writer := ⟨andThen⟩

@[simp]
theorem chars_append (v w : Writer) : (v ++ w).chars = v.chars ++ w.chars :=
  v.put_eq (w.put [])

/-- Writes something between two characters. -/
def between (first last : Char) (w : Writer) : Writer where
  put rest := first :: w.put (last :: rest)
  put_eq rest := by
    rw [w.put_eq, w.put_eq [last]]
    simp

@[simp]
theorem chars_between (first last : Char) (w : Writer) :
    (between first last w).chars = first :: w.chars ++ [last] :=
  congrArg (first :: ·) (w.put_eq [last])

/-- Writes some things with a text between every two of them. -/
def joined (separator : String) : List Writer → Writer
  | [] => nothing
  | [w] => w
  | w :: ws => w ++ text separator ++ joined separator ws

@[simp]
theorem chars_joined (separator : String) (ws : List Writer) :
    (joined separator ws).chars = separator.toList.intercalate (ws.map chars) := by
  induction ws with
  | nil => rfl
  | cons w ws ih =>
    cases ws with
    | nil => simp [joined]
    | cons v ws => simp [joined, ih]

/-! ## Written strings -/

theorem string_text (s : String) : (text s).string = s := by
  rw [string, chars_text, String.ofList_toList]

theorem string_append (v w : Writer) : (v ++ w).string = v.string ++ w.string := by
  rw [string, chars_append, String.ofList_append]
  rfl

theorem string_between (first last : Char) (w : Writer) :
    (between first last w).string =
      String.singleton first ++ w.string ++ String.singleton last := by
  apply String.toList_inj.mp
  simp [string]

theorem string_joined (separator : String) (ws : List Writer) :
    (joined separator ws).string = separator.intercalate (ws.map string) := by
  apply String.toList_inj.mp
  rw [string, String.toList_ofList, chars_joined, String.toList_intercalate, List.map_map]
  exact congrArg _ (List.map_congr_left fun w _ => String.toList_ofList.symm)

end Writer

end PredicateLanguage
