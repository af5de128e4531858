/-!
# Finite sets of strings

A set is held as the strictly increasing list of its members, ordered by code
point.  So it has one form only: two sets are equal exactly when they have the same
members, and whatever lists the members lists them in order and once.
-/

namespace PredicateLanguage

/-- Puts a string into an increasing list, unless it is there already. -/
def insertSorted (s : String) : List String → List String
  | [] => [s]
  | t :: ts =>
    if s < t then
      s :: t :: ts
    else if t < s then
      t :: insertSorted s ts
    else
      t :: ts

theorem eq_of_not_lt {s t : String} (h : ¬s < t) (h' : ¬t < s) : s = t :=
  String.le_antisymm (String.not_lt.1 h') (String.not_lt.1 h)

@[simp]
theorem mem_insertSorted {x s : String} {ts : List String} :
    x ∈ insertSorted s ts ↔ x = s ∨ x ∈ ts := by
  induction ts with
  | nil => simp [insertSorted]
  | cons t ts ih =>
    unfold insertSorted
    split
    · simp
    · split
      · simp only [List.mem_cons, ih]
        grind
      · obtain rfl := eq_of_not_lt ‹_› ‹_›
        simp

theorem pairwise_insertSorted {s : String} {ts : List String} (h : ts.Pairwise (· < ·)) :
    (insertSorted s ts).Pairwise (· < ·) := by
  induction ts with
  | nil => simp [insertSorted]
  | cons t ts ih =>
    obtain ⟨ht, hts⟩ := List.pairwise_cons.1 h
    unfold insertSorted
    split
    · rename_i hst
      refine List.pairwise_cons.2 ⟨fun x hx => ?_, h⟩
      obtain rfl | hx := List.mem_cons.1 hx
      · exact hst
      · exact String.lt_trans hst (ht x hx)
    · split
      · refine List.pairwise_cons.2 ⟨fun x hx => ?_, ih hts⟩
        obtain rfl | hx := mem_insertSorted.1 hx
        · assumption
        · exact ht x hx
      · exact h

/-- A finite set of strings, listed in strictly increasing order. -/
structure StringSet where
  members : List String
  increasing : members.Pairwise (· < ·)
  deriving DecidableEq

namespace StringSet

instance : Membership String StringSet :=
  ⟨fun set s => s ∈ set.members⟩

theorem mem_def {s : String} {set : StringSet} : s ∈ set ↔ s ∈ set.members := Iff.rfl

instance (s : String) (set : StringSet) : Decidable (s ∈ set) :=
  decidable_of_iff _ mem_def.symm

def empty : StringSet :=
  ⟨[], List.Pairwise.nil⟩

instance : EmptyCollection StringSet := ⟨empty⟩

@[simp]
theorem not_mem_empty (s : String) : s ∉ (∅ : StringSet) :=
  List.not_mem_nil

/-- The set with one more member, or the same if it is a member. -/
def insert (s : String) (set : StringSet) : StringSet :=
  ⟨insertSorted s set.members, pairwise_insertSorted set.increasing⟩

@[simp]
theorem mem_insert {x s : String} {set : StringSet} : x ∈ set.insert s ↔ x = s ∨ x ∈ set :=
  mem_insertSorted

/-- The set of the strings of a list. -/
def ofList (strings : List String) : StringSet :=
  strings.foldr insert ∅

@[simp]
theorem mem_ofList {x : String} {strings : List String} :
    x ∈ ofList strings ↔ x ∈ strings := by
  induction strings with
  | nil => simp [ofList]
  | cons s strings ih =>
    have h : ofList (s :: strings) = (ofList strings).insert s := rfl
    rw [h, mem_insert, ih, List.mem_cons]

/-- Two increasing lists with the same members are equal. -/
theorem eq_of_increasing {xs ys : List String} (hx : xs.Pairwise (· < ·))
    (hy : ys.Pairwise (· < ·)) (h : ∀ s, s ∈ xs ↔ s ∈ ys) : xs = ys := by
  induction xs generalizing ys with
  | nil =>
    cases ys with
    | nil => rfl
    | cons y ys => simpa using h y
  | cons x xs ih =>
    cases ys with
    | nil => simpa using h x
    | cons y ys =>
      obtain ⟨hxs, hxs'⟩ := List.pairwise_cons.1 hx
      obtain ⟨hys, hys'⟩ := List.pairwise_cons.1 hy
      have hxy : x = y := by
        obtain rfl | hmem := List.mem_cons.1 ((h x).1 List.mem_cons_self)
        · rfl
        obtain rfl | hmem' := List.mem_cons.1 ((h y).2 List.mem_cons_self)
        · rfl
        exact absurd (hys x hmem) (String.lt_asymm (hxs y hmem'))
      subst hxy
      congr 1
      refine ih hxs' hys' fun s => ⟨fun hs => ?_, fun hs => ?_⟩
      · obtain rfl | hs' := List.mem_cons.1 ((h s).1 (List.mem_cons_of_mem x hs))
        · exact absurd (hxs s hs) (String.lt_irrefl s)
        · exact hs'
      · obtain rfl | hs' := List.mem_cons.1 ((h s).2 (List.mem_cons_of_mem x hs))
        · exact absurd (hys s hs) (String.lt_irrefl s)
        · exact hs'

/-- Sets with the same members are equal. -/
@[ext]
theorem ext {set other : StringSet} (h : ∀ s, s ∈ set ↔ s ∈ other) : set = other := by
  obtain ⟨xs, hx⟩ := set
  obtain ⟨ys, hy⟩ := other
  obtain rfl : xs = ys := eq_of_increasing hx hy h
  rfl

end StringSet

end PredicateLanguage
