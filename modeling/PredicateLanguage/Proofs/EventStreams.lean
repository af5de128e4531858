import PredicateLanguage.Grammar.Token
import PredicateLanguage.Predicate.Canonical
import PredicateLanguage.Proofs.Occurrences

/-!
# Event streams

A full traversal of a tree tells of its nodes, terms and sets in one flat stream, in which terms
are texts and sets are lists of members.  Every node is closed by an event of its own, so the
stream of a tree can be cut off from whatever follows it.  The tree can be told from its stream,
unless a variable has a name that looks like a quoted literal.
-/

namespace PredicateLanguage

/-! ## Events as they are shown -/

/-- A node is shown by its kind, a term by its canonical text and a set by its members. -/
inductive ShownEvent where
  | enter (kind : NodeKind)
  | leave (kind : NodeKind)
  | term (text : String)
  | set (members : List String)
  deriving DecidableEq

def Event.shown : Event → ShownEvent
  | enter kind _ => .enter kind
  | leave kind => .leave kind
  | term t => .term t.canonical
  | set s => .set s.members

/-- The name starts with a quote, as quoted literals do. -/
def LooksQuoted (name : String) : Prop :=
  name.toList.head? = some Grammar.quote

instance (name : String) : Decidable (LooksQuoted name) :=
  inferInstanceAs (Decidable (name.toList.head? = some Grammar.quote))

theorem Term.toList_canonical_literal (value : String) :
    (literal value).canonical.toList = Grammar.quote :: (value.toList ++ [Grammar.quote]) := by
  simp [canonical, write, writeQuoted, Writer.string, Grammar.quote]

theorem Term.canonical_var (name : String) : (var name).canonical = name := by
  simp [canonical, write, Writer.string]

theorem Term.looksQuoted_canonical_literal (value : String) :
    LooksQuoted (literal value).canonical := by
  rw [LooksQuoted, toList_canonical_literal, List.head?_cons]

/-- Terms with the same text are the same, unless one of them is a variable that looks quoted. -/
theorem Term.eq_of_canonical_eq {t u : Term}
    (ht : ∀ name ∈ Traversal.names.term t, ¬LooksQuoted name)
    (hu : ∀ name ∈ Traversal.names.term u, ¬LooksQuoted name)
    (h : t.canonical = u.canonical) : t = u := by
  cases t with
  | literal value =>
      have hquoted := looksQuoted_canonical_literal value
      cases u with
      | literal other =>
          have hchars := congrArg String.toList h
          rw [toList_canonical_literal, toList_canonical_literal] at hchars
          have hvalue := List.append_cancel_right (List.cons.inj hchars).2
          rw [String.toList_inj.mp hvalue]
      | var name =>
          rw [h, canonical_var] at hquoted
          exact absurd hquoted (hu name List.mem_cons_self)
  | var name =>
      rw [canonical_var] at h
      cases u with
      | literal value =>
          have hquoted := looksQuoted_canonical_literal value
          rw [← h] at hquoted
          exact absurd hquoted (ht name List.mem_cons_self)
      | var other =>
          rw [canonical_var] at h
          rw [h]

theorem StringSet.eq_of_members {set other : StringSet} (h : set.members = other.members) :
    set = other := by
  ext s
  rw [mem_def, mem_def, h]

/-! ## Streams of trees -/

namespace Predicate

/-- What a full traversal of a predicate shows. -/
def stream (p : Predicate) : List ShownEvent :=
  (Traversal.full.visit p).map Event.shown

/-- What is shown between entering and leaving the root. -/
def inner (p : Predicate) : List ShownEvent :=
  (Traversal.full.walk p).map Event.shown

theorem stream_append (p : Predicate) (rest : List ShownEvent) :
    p.stream ++ rest = .enter p.kind :: (p.inner ++ .leave p.kind :: rest) := by
  rw [stream, inner, Traversal.visit_full]
  simp [Event.shown]

theorem inner_not (p : Predicate) : (not p).inner = p.stream := rfl

theorem inner_and (p q : Predicate) : (and p q).inner = p.stream ++ q.stream :=
  List.map_append

theorem inner_or (p q : Predicate) : (or p q).inner = p.stream ++ q.stream :=
  List.map_append

variable {p q : Predicate} {rest rest' : List ShownEvent}

/-- Streams that start alike are of trees with roots of the same kind. -/
theorem inner_append_eq (h : p.stream ++ rest = q.stream ++ rest') :
    p.kind = q.kind ∧
      p.inner ++ .leave p.kind :: rest = q.inner ++ .leave q.kind :: rest' := by
  rw [stream_append, stream_append] at h
  obtain ⟨hkind, hinner⟩ := List.cons.inj h
  exact ⟨ShownEvent.enter.inj hkind, hinner⟩

/-! ## Trees from streams -/

/-- No variable has a name that looks quoted. -/
def Unquoted (p : Predicate) : Prop :=
  ∀ name ∈ p.variables, ¬LooksQuoted name

instance (p : Predicate) : Decidable p.Unquoted :=
  List.decidableBAll (fun name => ¬LooksQuoted name) p.variables.members

theorem unquoted_iff :
    p.Unquoted ↔ ∀ name ∈ Traversal.names.visit p, ¬LooksQuoted name := by
  simp only [Unquoted, Predicate.variables, StringSet.mem_ofList]

/-- A tree can be told from any stream that starts with its own, and so can what follows it. -/
theorem eq_of_stream_append_eq (hp : ∀ name ∈ Traversal.names.visit p, ¬LooksQuoted name)
    (hq : ∀ name ∈ Traversal.names.visit q, ¬LooksQuoted name)
    (h : p.stream ++ rest = q.stream ++ rest') : p = q ∧ rest = rest' := by
  induction p generalizing q rest rest' with
  | equal left right | notEqual left right =>
      obtain ⟨hkind, hinner⟩ := inner_append_eq h
      cases q <;> cases hkind
      rename_i left' right'
      obtain ⟨hleft, hright⟩ := List.forall_mem_append.mp hp
      obtain ⟨hleft', hright'⟩ := List.forall_mem_append.mp hq
      obtain ⟨hl, hinner⟩ := List.cons.inj hinner
      obtain ⟨hr, hinner⟩ := List.cons.inj hinner
      obtain rfl := Term.eq_of_canonical_eq hleft hleft' (ShownEvent.term.inj hl)
      obtain rfl := Term.eq_of_canonical_eq hright hright' (ShownEvent.term.inj hr)
      exact ⟨rfl, (List.cons.inj hinner).2⟩
  | oneOf term set | noneOf term set =>
      obtain ⟨hkind, hinner⟩ := inner_append_eq h
      cases q <;> cases hkind
      rename_i term' set'
      obtain ⟨ht, hinner⟩ := List.cons.inj hinner
      obtain ⟨hs, hinner⟩ := List.cons.inj hinner
      obtain ⟨hterm, -⟩ := List.forall_mem_append.mp hp
      obtain ⟨hterm', -⟩ := List.forall_mem_append.mp hq
      obtain rfl := Term.eq_of_canonical_eq hterm hterm' (ShownEvent.term.inj ht)
      obtain rfl := StringSet.eq_of_members (ShownEvent.set.inj hs)
      exact ⟨rfl, (List.cons.inj hinner).2⟩
  | present term =>
      obtain ⟨hkind, hinner⟩ := inner_append_eq h
      cases q <;> cases hkind
      obtain ⟨ht, hinner⟩ := List.cons.inj hinner
      obtain rfl := Term.eq_of_canonical_eq hp hq (ShownEvent.term.inj ht)
      exact ⟨rfl, (List.cons.inj hinner).2⟩
  | not operand ih =>
      obtain ⟨hkind, hinner⟩ := inner_append_eq h
      cases q <;> cases hkind
      rename_i operand'
      have hoperand' : ∀ name ∈ Traversal.names.visit operand', ¬LooksQuoted name := hq
      rw [inner_not, inner_not] at hinner
      obtain ⟨rfl, hrest⟩ := ih hp hoperand' hinner
      exact ⟨rfl, (List.cons.inj hrest).2⟩
  | and left right ihl ihr | or left right ihl ihr =>
      obtain ⟨hkind, hinner⟩ := inner_append_eq h
      cases q <;> cases hkind
      obtain ⟨hleft, hright⟩ := List.forall_mem_append.mp hp
      obtain ⟨hleft', hright'⟩ := List.forall_mem_append.mp hq
      simp only [inner_and, inner_or, List.append_assoc] at hinner
      obtain ⟨rfl, hinner⟩ := ihl hleft hleft' hinner
      obtain ⟨rfl, hrest⟩ := ihr hright hright' hinner
      exact ⟨rfl, (List.cons.inj hrest).2⟩

theorem eq_of_stream_eq (hp : p.Unquoted) (hq : q.Unquoted) (h : p.stream = q.stream) : p = q := by
  have happend : p.stream ++ [] = q.stream ++ [] := by rw [h]
  exact (eq_of_stream_append_eq (unquoted_iff.mp hp) (unquoted_iff.mp hq) happend).1

/-- Of what a full traversal tells, a traversal that tells of terms and sets keeps these, and one
that leaves out what is below a negation keeps the nodes without a negation above them.  What the
full traversal shows determines the tree if no variable has a name that looks quoted. -/
theorem traversals_agree (p : Predicate) :
    Traversal.leaves.visit p = (Traversal.full.visit p).filter Event.isLeaf ∧
      (Traversal.full.visit p).filter Event.isEnter = p.nodes.map NodePlace.enter ∧
      Traversal.outsideNegations.visit p =
        (p.nodes.filter NodePlace.outsideNegations).map NodePlace.enter ∧
      ∀ q : Predicate, p.Unquoted → q.Unquoted → p.stream = q.stream → p = q := by
  refine ⟨(Traversal.toldBy_leaves.visit p).symm, filter_isEnter_visit_full p [],
    visit_outsideNegations rfl, ?_⟩
  intro q hp hq h
  exact eq_of_stream_eq hp hq h

/-- Sets show their members in order and once, however they are built. -/
theorem traversals_agree_sets :
    let p := and (not (oneOf (.var "kind") (.ofList ["b", "a", "b"]))) (present (.literal "x"))
    let q := and (not (oneOf (.var "kind") (.ofList ["a", "b"]))) (present (.literal "x"))
    p.Unquoted ∧ q.Unquoted ∧ p.stream = q.stream ∧ p = q := by
  intro p q
  have hp : p.Unquoted := by decide
  have hq : q.Unquoted := by decide
  have hstream : p.stream = q.stream := by decide
  exact ⟨hp, hq, hstream, (traversals_agree p).2.2.2 q hp hq hstream⟩

/-- A variable whose name looks quoted is shown as a literal is. -/
example :
    (present (.var "'a'")).stream = (present (.literal "a")).stream ∧
      ¬(present (.var "'a'")).Unquoted := by
  decide

end Predicate

end PredicateLanguage
