import PredicateLanguage.Predicate.Traversal

/-!
# Traversals compared

Two traversals of a tree visit the same parts in the same order and differ only in what they
add.  So what one of them collects can often be told from what another one collects.  The
traversal that tells of everything is compared here with those that tell of less: of terms and
sets, of names, or of the nodes that are not below a negation.
-/

namespace PredicateLanguage

/-! ## Kinds of events -/

namespace Event

/-- A term or a set is told of. -/
def isLeaf : Event → Bool
  | term _ | set _ => true
  | enter _ _ | leave _ => false

/-- A node is entered. -/
def isEnter : Event → Bool
  | enter _ _ => true
  | leave _ | term _ | set _ => false

/-- The name of the variable that is told of. -/
def name? : Event → Option String
  | term (.var name) => some name
  | term (.literal _) | enter _ _ | leave _ | set _ => none

end Event

namespace Traversal

variable {ε δ : Type}

/-! ## What is told from another traversal -/

/-- Whatever `u` adds at a part of a tree is told by `f` from what `t` adds there. -/
structure ToldBy (f : List ε → List δ) (t : Traversal ε) (u : Traversal δ) : Prop where
  append : ∀ events others, f (events ++ others) = f events ++ f others
  node : ∀ p below, f (t.node p below) = u.node p (f below)
  term : ∀ x, f (t.term x) = u.term x
  set : ∀ s, f (t.set s) = u.set s

namespace ToldBy

variable {f : List ε → List δ} {t : Traversal ε} {u : Traversal δ}

theorem walk (h : ToldBy f t u) (p : Predicate) : f (t.walk p) = u.walk p := by
  induction p with
  | equal left right | notEqual left right =>
      rw [Traversal.walk, Traversal.walk, h.append, h.term, h.term]
  | oneOf term set | noneOf term set =>
      rw [Traversal.walk, Traversal.walk, h.append, h.term, h.set]
  | present term => exact h.term term
  | not operand ih =>
      rw [Traversal.walk, Traversal.walk, h.node, ih]
  | and left right ihl ihr | or left right ihl ihr =>
      rw [Traversal.walk, Traversal.walk, h.append, h.node, h.node, ihl, ihr]

theorem visit (h : ToldBy f t u) (p : Predicate) : f (t.visit p) = u.visit p := by
  rw [Traversal.visit, Traversal.visit, h.node, h.walk]

end ToldBy

theorem visit_full (p : Predicate) :
    full.visit p = .enter p.kind p.isComparison :: (full.walk p ++ [.leave p.kind]) := rfl

/-- Terms and sets are told of in the same order whether or not nodes are told of. -/
theorem toldBy_leaves : ToldBy (List.filter Event.isLeaf) full leaves where
  append := List.filter_append
  node p below := by simp [full, leaves, Event.isLeaf]
  term _ := rfl
  set _ := rfl

theorem toldBy_names : ToldBy (List.filterMap Event.name?) full names where
  append events others := List.filterMap_append
  node p below := by simp [full, names, Event.name?, List.filterMap_cons]
  term x := by
    cases x with
    | literal value => rfl
    | var name => rfl
  set _ := rfl

end Traversal

/-! ## Nodes and what is above them -/

/-- A node of a tree with the nodes above it, the nearest first. -/
structure NodePlace where
  above : List Predicate
  node : Predicate

namespace NodePlace

/-- No node above is a negation. -/
def outsideNegations (place : NodePlace) : Bool :=
  place.above.all fun p => p.kind ≠ .not

def enter (place : NodePlace) : Event :=
  .enter place.node.kind place.node.isComparison

end NodePlace

namespace Predicate

/-- The nodes of a predicate that stands below some nodes, from the root down and from left to
right. -/
def nodesBelow (above : List Predicate) (p : Predicate) : List NodePlace :=
  ⟨above, p⟩ ::
    match p with
    | not operand => operand.nodesBelow (p :: above)
    | and left right | or left right =>
      left.nodesBelow (p :: above) ++ right.nodesBelow (p :: above)
    | equal _ _ | notEqual _ _ | oneOf _ _ | noneOf _ _ | present _ => []

/-- The nodes of a predicate, each with its proper ancestors. -/
def nodes (p : Predicate) : List NodePlace :=
  p.nodesBelow []

/-- The nodes of a predicate are entered in their order. -/
theorem filter_isEnter_visit_full (p : Predicate) (above : List Predicate) :
    (Traversal.full.visit p).filter Event.isEnter = (p.nodesBelow above).map NodePlace.enter := by
  induction p generalizing above with
  | equal | notEqual | oneOf | noneOf | present => rfl
  | not operand ih =>
      rw [Traversal.visit_full, Traversal.walk_not, nodesBelow]
      simp [Event.isEnter, NodePlace.enter, List.filter_cons, ← ih]
  | and left right ihl ihr =>
      rw [Traversal.visit_full, Traversal.walk_and, nodesBelow]
      simp [Event.isEnter, NodePlace.enter, List.filter_cons, ← ihl, ← ihr]
  | or left right ihl ihr =>
      rw [Traversal.visit_full, Traversal.walk_or, nodesBelow]
      simp [Event.isEnter, NodePlace.enter, List.filter_cons, ← ihl, ← ihr]

/-- What stands below some nodes has all of them above it. -/
theorem above_suffix_of_mem_nodesBelow {p : Predicate} {above : List Predicate}
    {place : NodePlace} (h : place ∈ p.nodesBelow above) : above <:+ place.above := by
  induction p generalizing above with
  | equal | notEqual | oneOf | noneOf | present =>
      obtain rfl := List.mem_singleton.mp h
      exact List.suffix_refl above
  | not operand ih =>
      rw [nodesBelow, List.mem_cons] at h
      rcases h with rfl | h
      · exact List.suffix_refl above
      · exact (List.suffix_cons _ above).trans (ih h)
  | and left right ihl ihr | or left right ihl ihr =>
      rw [nodesBelow, List.mem_cons, List.mem_append] at h
      rcases h with rfl | h | h
      · exact List.suffix_refl above
      · exact (List.suffix_cons _ above).trans (ihl h)
      · exact (List.suffix_cons _ above).trans (ihr h)

/-- Below a negation no node is outside of negations. -/
theorem filter_outsideNegations_below_not (p operand : Predicate) (above : List Predicate) :
    (p.nodesBelow (not operand :: above)).filter NodePlace.outsideNegations = [] := by
  apply List.filter_eq_nil_iff.mpr
  intro place hplace hall
  have hmem : not operand ∈ place.above :=
    (above_suffix_of_mem_nodesBelow hplace).subset List.mem_cons_self
  have hkind := List.all_eq_true.mp hall _ hmem
  simp [kind] at hkind

/-- From a place outside of negations on, the traversal that leaves out what is below a negation
tells of the nodes outside of negations. -/
theorem visit_outsideNegations {p : Predicate} {above : List Predicate}
    (h : NodePlace.outsideNegations ⟨above, p⟩ = true) :
    Traversal.outsideNegations.visit p =
      ((p.nodesBelow above).filter NodePlace.outsideNegations).map NodePlace.enter := by
  induction p generalizing above with
  | equal | notEqual | oneOf | noneOf | present =>
      rw [nodesBelow, List.filter_cons_of_pos h]
      rfl
  | not operand ih =>
      rw [nodesBelow, List.filter_cons_of_pos h, filter_outsideNegations_below_not]
      rfl
  | and left right ihl ihr =>
      have hbelow : ∀ q, NodePlace.outsideNegations ⟨and left right :: above, q⟩ = true :=
        fun _ => h
      rw [nodesBelow, List.filter_cons_of_pos h, List.filter_append, List.map_cons,
        List.map_append, ← ihl (hbelow left), ← ihr (hbelow right)]
      rfl
  | or left right ihl ihr =>
      have hbelow : ∀ q, NodePlace.outsideNegations ⟨or left right :: above, q⟩ = true :=
        fun _ => h
      rw [nodesBelow, List.filter_cons_of_pos h, List.filter_append, List.map_cons,
        List.map_append, ← ihl (hbelow left), ← ihr (hbelow right)]
      rfl

end Predicate

end PredicateLanguage
