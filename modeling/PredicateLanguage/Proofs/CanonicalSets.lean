import PredicateLanguage.Proofs.ByteOrder
import PredicateLanguage.Proofs.EventStreams
import PredicateLanguage.Proofs.JsonForms
import PredicateLanguage.Proofs.Recognition

/-!
# Canonical sets

The strings of a set may be given in any order and each as often as one likes: in a list, in
braces behind a term, or in a list in JSON.  The set is the same whichever way it is given, and
whatever shows it lists its members in order and once.  So tests against two sets are the same
tree exactly if the sets are of the same strings, and such a test asks for one of these strings.
-/

namespace PredicateLanguage

theorem StringSet.ofList_eq_ofList_iff {strings others : List String} :
    ofList strings = ofList others ↔ ∀ s, s ∈ strings ↔ s ∈ others := by
  simp only [StringSet.ext_iff, mem_ofList]

/-- The strings that a set is built from are a form of it as they stand. -/
theorem StringSet.isForm_ofList (strings : List String) :
    (ofList strings).IsForm (.list (strings.map .string)) :=
  ⟨strings, fun _ => mem_ofList, rfl⟩

/-! ## Tests of membership -/

/-- The two tests of a term against a set. -/
inductive MembershipTest where
  | oneOf
  | noneOf
  deriving DecidableEq

namespace MembershipTest

def node : MembershipTest → Term → StringSet → Predicate
  | oneOf => .oneOf
  | noneOf => .noneOf

def kind : MembershipTest → NodeKind
  | oneOf => .oneOf
  | noneOf => .noneOf

/-- The keywords between the term and the set. -/
def symbols : MembershipTest → List Symbol
  | oneOf => [.member]
  | noneOf => [.not, .member]

/-- The keywords as canonical texts have them. -/
def spelling : MembershipTest → String
  | oneOf => " in "
  | noneOf => " not in "

/-- What the test asks of a string. -/
def Holds : MembershipTest → String → List String → Prop
  | oneOf, s, strings => s ∈ strings
  | noneOf, s, strings => s ∉ strings

variable {test : MembershipTest} {x : Term} {set : StringSet} {strings : List String}

theorem node_inj {other : StringSet} (h : test.node x set = test.node x other) : set = other := by
  cases test with
  | oneOf => exact (Predicate.oneOf.inj h).2
  | noneOf => exact (Predicate.noneOf.inj h).2

theorem value_evaluate_iff (env : Environment) :
    ((test.node x (.ofList strings)).evaluate env).value = true ↔
      test.Holds (x.resolve env) strings := by
  cases test with
  | oneOf => simp [node, Holds, Predicate.evaluate, Predicate.evaluateUnder]
  | noneOf => simp [node, Holds, Predicate.evaluate, Predicate.evaluateUnder]

/-! ## Ways to give a set -/

/-- The tokens of a test, with any tokens as the elements of its set. -/
def tokens (test : MembershipTest) (t : Token) (elements : List Token) : List Token :=
  t :: (test.symbols.map Symbol.token ++ setTokens elements)

theorem derivesComparison {t : Token} {elements : List Token} (ht : t.term? = some x)
    (h : elements.map Token.element? = strings.map some) :
    DerivesComparison (test.node x (.ofList strings)) (test.tokens t elements) := by
  cases test with
  | oneOf => exact .oneOf ht (derivesSet_setTokens h)
  | noneOf => exact .noneOf ht (derivesSet_setTokens h)

/-- The form of a test, with a list of strings as the form of its set. -/
def form (test : MembershipTest) (x : Term) (strings : List String) : Json.Value :=
  .tagged test.kind.tag (.list [x.form, .list (strings.map .string)])

theorem isForm_node :
    (test.node x (.ofList strings)).IsForm (test.form x strings) := by
  have hset := StringSet.isForm_ofList strings
  cases test with
  | oneOf => exact .oneOf x hset
  | noneOf => exact .noneOf x hset

theorem depth_form : (test.form x strings).depth = 3 := by
  have hterm : x.form.depth = 1 := by
    cases x with
    | literal value => rfl
    | var name => rfl
  rw [form, Json.Value.depth_tagged, Json.Value.depth_pair, Json.Value.depth_strings, hterm]
  rfl

end MembershipTest

/-- Wherever the strings are given for a set, it is this one. -/
structure StringSet.GivenBy (set : StringSet) (strings : List String) : Prop where
  built : StringSet.ofList strings = set
  /-- The set is read from any braces with tokens for the strings between them, bare or quoted. -/
  parsed : ∀ (elements : List Token) (c d : Cursor),
    elements.map Token.element? = strings.map some →
    Reads c.rest (setTokens elements) d.rest → Grammar.set.Matches c set d
  /-- In JSON the set is read from any spelling of the list of the strings. -/
  decoded : ∀ (room : Nat) (text rest : List Char), 0 < room →
    (Json.Value.list (strings.map .string)).Leads text rest →
    (Json.set room).run text = .ok (set, rest)

/-- Wherever the strings are given in a test of the term, it is this tree. -/
structure MembershipTest.GivenBy (test : MembershipTest) (x : Term) (strings : List String)
    (p : Predicate) : Prop where
  built : test.node x (.ofList strings) = p
  /-- The word `not` in front of a test would be a negation. -/
  parsed : ∀ (text : String) (limit : Nat) (t : Token) (elements : List Token),
    t.term? = some x → t ≠ Symbol.not.token → elements.map Token.element? = strings.map some →
    Tokenizes text.toList (test.tokens t elements) → Predicate.parse text limit = .ok p
  decoded : ∀ text : String,
    text.toList ∈ Json.blanks * (test.form x strings).texts * Json.blanks →
    Predicate.ofJson text = .ok p

theorem StringSet.givenBy_ofList (strings : List String) : (ofList strings).GivenBy strings where
  built := rfl
  parsed _ _ _ h hreads := Grammar.matches_set.mpr ⟨_, derivesSet_setTokens h, hreads⟩
  decoded room text rest hroom hleads := by
    have hdepth : (Json.Value.list (strings.map .string)).depth ≤ room := by
      rwa [Json.Value.depth_strings]
    apply (Json.decodesForm_set room text _ rest).mpr
    exact ⟨_, isForm_ofList strings, hdepth, hleads⟩

theorem MembershipTest.givenBy_node (test : MembershipTest) (x : Term) (strings : List String) :
    test.GivenBy x strings (test.node x (.ofList strings)) where
  built := rfl
  parsed text limit t elements ht hnot h htokens := by
    have hcomparison := test.derivesComparison ht h
    have hfirst : (test.tokens t elements).head? ≠ some Symbol.not.token := by
      intro hhead
      exact hnot (Option.some.inj hhead)
    have hderives := (Derives.comparison 0 hcomparison hfirst).lift .disjunction
    apply parse_of_derives htokens hderives
    rw [hcomparison.nests.nesting_eq]
    exact Nat.zero_le limit
  decoded text htext := by
    have hdepth : (test.form x strings).depth ≤ Json.openLimit := by
      rw [depth_form]
      decide
    apply (Json.decodesForm_predicate Json.openLimit).decode_eq_ok_iff.mpr
    exact ⟨_, isForm_node, hdepth, htext⟩

/-! ## Ways to list a set -/

/-- The members of the set are the strings of a list, in order and once. -/
structure StringSet.Lists (set : StringSet) (strings : List String) : Prop where
  increasing : set.members.Pairwise (· < ·)
  increasing_bytes : set.members.Pairwise fun s t => utf8Bytes s < utf8Bytes t
  nodup : set.members.Nodup
  mem_iff : ∀ s, s ∈ set.members ↔ s ∈ strings

theorem StringSet.lists_ofList (strings : List String) : (ofList strings).Lists strings where
  increasing := (ofList strings).increasing
  increasing_bytes := (ofList strings).increasing.imp utf8Bytes_lt_iff.mpr
  nodup := (ofList strings).increasing.imp String.ne_of_lt
  mem_iff _ := mem_ofList

/-- The members of the set are listed as they are held. -/
structure MembershipTest.Shows (test : MembershipTest) (x : Term) (set : StringSet) : Prop where
  canonical : (test.node x set).canonical = x.canonical ++ test.spelling ++ "\x7b" ++
    ", ".intercalate (set.members.map fun s => (Term.literal s).canonical) ++ "\x7d"
  toJson : (test.node x set).toJson = "\x7b\"" ++ test.kind.tag ++ "\":[" ++ x.toJson ++ ",[" ++
    ",".intercalate (set.members.map fun s => (Json.writeString s).string) ++ "]]\x7d"
  stream : (test.node x set).stream =
    [.enter test.kind, .term x.canonical, .set set.members, .leave test.kind]

section Written

open Writer

theorem StringSet.string_write (set : StringSet) :
    set.write.string = "\x7b" ++
      ", ".intercalate (set.members.map fun s => (Term.literal s).canonical) ++ "\x7d" := by
  rw [write, string_between, string_joined, List.map_map]
  rfl

theorem Json.string_writeSet (set : StringSet) :
    (writeSet set).string =
      "[" ++ ",".intercalate (set.members.map fun s => (writeString s).string) ++ "]" := by
  rw [writeSet, writeList, string_between, string_joined, List.map_map]
  rfl

/-- The tags of tests are written as they are. -/
theorem MembershipTest.string_writeTag (test : MembershipTest) :
    (Json.writeString test.kind.tag).string = "\"" ++ test.kind.tag ++ "\"" := by
  cases test with
  | oneOf => decide
  | noneOf => decide

theorem MembershipTest.write_node (test : MembershipTest) (x : Term) (set : StringSet) :
    (test.node x set).write = x.write ++ .text test.spelling ++ set.write := by
  cases test with
  | oneOf => rfl
  | noneOf => rfl

theorem MembershipTest.writePredicate_node (test : MembershipTest) (x : Term) (set : StringSet) :
    Json.writePredicate (test.node x set) =
      Json.writeTagged test.kind.tag (Json.writeList [Json.writeTerm x, Json.writeSet set]) := by
  cases test with
  | oneOf => rfl
  | noneOf => rfl

theorem MembershipTest.shows (test : MembershipTest) (x : Term) (set : StringSet) :
    test.Shows x set where
  canonical := by
    rw [Predicate.canonical, write_node, string_append, string_append, string_text,
      set.string_write]
    simp only [String.append_assoc]
    rfl
  toJson := by
    have hparts : ",".intercalate ([Json.writeTerm x, Json.writeSet set].map string) =
        x.toJson ++ "," ++ (Json.writeSet set).string := by
      rw [List.map_cons, List.map_singleton, String.intercalate_cons_cons,
        String.intercalate_singleton]
      rfl
    rw [Predicate.toJson, writePredicate_node, Json.writeTagged, Json.writeList, string_between,
      string_append, string_append, string_text, string_between, string_joined,
      test.string_writeTag, hparts, Json.string_writeSet]
    -- The two sides only differ in how the same characters are cut into texts.
    apply String.toList_inj.mp
    simp
  stream := by
    cases test with
    | oneOf => rfl
    | noneOf => rfl

end Written

/-! ## Every way gives the same set -/

/-- Lists with the same strings give the same set and the same test, as they stand or written in
any way.  The set lists these strings in order and once, the test is equal to no test against
other strings, and it asks for one of these strings or for none of them. -/
theorem MembershipTest.sets_canonical (test : MembershipTest) (x : Term)
    {strings others : List String} (h : ∀ s, s ∈ others ↔ s ∈ strings) :
    let set := StringSet.ofList strings
    set.GivenBy others ∧ test.GivenBy x others (test.node x set) ∧
      set.Lists strings ∧ test.Shows x set ∧
      (∀ zs : List String,
        test.node x set = test.node x (.ofList zs) ↔ ∀ s, s ∈ strings ↔ s ∈ zs) ∧
      ∀ env : Environment,
        ((test.node x set).evaluate env).value = true ↔ test.Holds (x.resolve env) strings := by
  intro set
  have hset : StringSet.ofList others = set := StringSet.ofList_eq_ofList_iff.mpr h
  refine ⟨?_, ?_, StringSet.lists_ofList strings, test.shows x set, ?_, value_evaluate_iff⟩
  · rw [← hset]
    exact StringSet.givenBy_ofList others
  · rw [← hset]
    exact test.givenBy_node x others
  · intro zs
    rw [← StringSet.ofList_eq_ofList_iff]
    constructor
    · exact node_inj
    · intro hzs
      exact congrArg (test.node x) hzs

/-- A repeated string and another order are gone in the canonical text. -/
theorem MembershipTest.sets_canonical_repeated :
    let p := Predicate.noneOf (.var "kind") (.ofList ["a", "b"])
    Predicate.parse "kind not in \x7b'b', a,b\x7d" 0 = .ok p ∧
      p.canonical = "kind not in \x7b'a', 'b'\x7d" := by
  intro p
  have hmem : ∀ s, s ∈ ["b", "a", "b"] ↔ s ∈ ["a", "b"] := by
    intro s
    simp only [List.mem_cons]
    tauto
  obtain ⟨-, hgiven, -, hshows, -⟩ := sets_canonical .noneOf (.var "kind") hmem
  have htokens : Tokenizes "kind not in \x7b'b', a,b\x7d".toList
      (noneOf.tokens (.word "kind") [.quoted "b", .word "a", .word "b"]) := by
    refine ⟨[], ?_, by simp⟩
    refine .cons ⟨rfl, by decide, rfl⟩ ?_
    refine .cons ⟨rfl, by decide, rfl⟩ ?_
    refine .cons ⟨rfl, by decide, rfl⟩ ?_
    refine .cons ⟨rfl, by decide, trivial⟩ ?_
    refine .cons ⟨rfl, by decide, trivial⟩ ?_
    refine .cons ⟨rfl, by decide, trivial⟩ ?_
    refine .cons ⟨rfl, by decide, rfl⟩ ?_
    refine .cons ⟨rfl, by decide, trivial⟩ ?_
    refine .cons ⟨rfl, by decide, rfl⟩ ?_
    refine .cons ⟨rfl, by decide, trivial⟩ ?_
    exact .nil _
  constructor
  · exact hgiven.parsed _ 0 _ _ rfl (by decide) rfl htokens
  · exact hshows.canonical.trans (by decide)

end PredicateLanguage
