import Mathlib.Algebra.GroupWithZero.Nat
import Mathlib.Data.List.DropRight
import PredicateLanguage.Evaluation.Probe
import PredicateLanguage.Grammar.Reader
import PredicateLanguage.Proofs.Semantics

/-!
# Runs of a probe

A probe is asked for names, set back and handed to evaluations in any order.  It gives the answers
of its environment, and its count is the number of lookups since it was last set back: one for each
name that it was asked for directly, and for each predicate that was evaluated as many as decide the
predicate.  A text that is no predicate adds nothing.
-/

namespace PredicateLanguage

namespace Probe

/-- The probe after some more lookups. -/
def counting (probe : Probe) (lookups : Nat) : Probe :=
  { probe with count := probe.count + lookups }

@[simp]
theorem env_counting (probe : Probe) (lookups : Nat) :
    (probe.counting lookups).env = probe.env := rfl

theorem counting_counting (probe : Probe) (m n : Nat) :
    (probe.counting m).counting n = probe.counting (m + n) :=
  congrArg (Probe.mk probe.env) (Nat.add_assoc probe.count m n)

/-! ## Evaluations -/

/-- What comes behind a lookup or an evaluation goes on with the probe that was left. -/
theorem run_bind_of_run {α β : Type} {first : StateM Probe α} {next : α → StateM Probe β}
    {probe probe' : Probe} {x : α} (h : first.run probe = (x, probe')) :
    (first >>= next).run probe = (next x).run probe' := by
  rw [StateT.run_bind, h]
  rfl

theorem run_resolve (term : Term) (probe : Probe) :
    (resolve term).run probe = (term.meaning probe.env, probe.counting term.asked.length) := by
  cases term with
  | literal value => rfl
  | var name => rfl

/-- At every node and under either flag, the walk gives the value that the node has in the
environment, and every name that decides the node is counted once. -/
theorem run_evaluateUnder (p : Predicate) (negated : Bool) (probe : Probe) :
    (evaluateUnder p negated).run probe =
      (p.holds probe.env != negated, probe.counting (p.consulted probe.env).length) := by
  induction p generalizing negated probe with
  | equal left right | notEqual left right =>
      rw [evaluateUnder, run_bind_of_run (run_resolve left probe),
        run_bind_of_run (run_resolve right _), counting_counting, env_counting,
        Predicate.consulted, List.length_append]
      rfl
  | oneOf term set | noneOf term set =>
      rw [evaluateUnder, run_bind_of_run (run_resolve term probe)]
      rfl
  | present term =>
      rw [evaluateUnder, run_bind_of_run (run_resolve term probe), Predicate.holds,
        term.meaning_bne_empty, Bool.not_bne]
      rfl
  | not operand ih =>
      rw [evaluateUnder, ih, Predicate.holds, Predicate.consulted, Bool.bne_not, Bool.not_bne]
  | and left right ihl ihr =>
      rw [evaluateUnder, run_bind_of_run (ihl false probe), Predicate.holds, Predicate.consulted]
      -- The right operand is walked with the probe that the left one leaves behind.
      cases hleft : left.holds probe.env with
      | false =>
          rw [if_neg Bool.false_ne_true, List.append_nil]
          rfl
      | true =>
          rw [List.length_append, ← counting_counting]
          exact ihr negated (probe.counting _)
  | or left right ihl ihr =>
      rw [evaluateUnder, run_bind_of_run (ihl false probe), Predicate.holds, Predicate.consulted]
      cases hleft : left.holds probe.env with
      | false =>
          rw [List.length_append, ← counting_counting]
          exact ihr negated (probe.counting _)
      | true =>
          rw [if_pos (rfl : true = true), List.append_nil]
          rfl

theorem evaluate_eq (probe : Probe) (p : Predicate) :
    probe.evaluate p =
      ((p.evaluate probe.env).value, probe.counting (p.consulted probe.env).length) := by
  rw [evaluate, run_evaluateUnder, p.evaluate_eq_holds_consulted, Bool.bne_false]

/-! ## Steps -/

/-- What is done with a probe. -/
inductive Step where
  | lookup (name : String)
  | reset
  /-- A text is read as a predicate, which is evaluated if there is one. -/
  | evaluate (source : String) (limit : Nat := defaultLimit)
  deriving DecidableEq

/-- What a step gives back. -/
inductive Answer where
  | found (value : Option String)
  | done
  | evaluated (result : Except SyntaxError Bool)
  deriving DecidableEq

def step (probe : Probe) : Step → Answer × Probe
  | .lookup name =>
    let (value, probe) := probe.lookup name
    (.found value, probe)
  | .reset => (.done, probe.reset)
  | .evaluate source limit =>
    match Predicate.parse source limit with
    | .error e => (.evaluated (.error e), probe)
    | .ok p =>
      let (value, probe) := probe.evaluate p
      (.evaluated (.ok value), probe)

/-- Does some steps; for each of them the answer and the count behind it. -/
def run (probe : Probe) : List Step → List (Answer × Nat)
  | [] => []
  | s :: steps => ((probe.step s).1, (probe.step s).2.count) :: (probe.step s).2.run steps

/-- The probe behind some steps. -/
def after (probe : Probe) (steps : List Step) : Probe :=
  steps.foldl (fun probe s => (probe.step s).2) probe

namespace Step

/-- What a step gives back where the environment itself is asked. -/
def answer (env : Environment) : Step → Answer
  | lookup name => .found (env name)
  | reset => .done
  | evaluate source limit =>
    .evaluated ((Predicate.parse source limit).map fun p => (p.evaluate env).value)

def isLookup : Step → Bool
  | lookup _ => true
  | _ => false

/-- The predicate that a step evaluates. -/
def evaluated? : Step → Option Predicate
  | evaluate source limit => (Predicate.parse source limit).toOption
  | _ => none

end Step

/-- The number of lookups of some steps: one for each that is a direct lookup, and for each
predicate that is evaluated as many as there are names that decide it. -/
def lookupsOf (env : Environment) (steps : List Step) : Nat :=
  steps.countP Step.isLookup +
    ((steps.filterMap Step.evaluated?).map fun p => (p.consulted env).length).sum

/-- The steps behind the last reset. -/
def sinceReset (steps : List Step) : List Step :=
  steps.rtakeWhile (· ≠ .reset)

theorem sinceReset_concat (steps : List Step) (s : Step) :
    sinceReset (steps ++ [s]) = if s = .reset then [] else sinceReset steps ++ [s] := by
  rw [sinceReset, List.rtakeWhile_concat]
  simp [ite_not, sinceReset]

theorem lookupsOf_append (env : Environment) (steps others : List Step) :
    lookupsOf env (steps ++ others) = lookupsOf env steps + lookupsOf env others := by
  rw [lookupsOf, lookupsOf, lookupsOf, List.countP_append, List.filterMap_append, List.map_append,
    List.sum_append]
  omega

/-- A step gives the answer of the environment.  It adds its lookups to the count, or sets the
count back. -/
theorem step_eq (probe : Probe) (s : Step) :
    probe.step s =
      (s.answer probe.env,
        if s = .reset then probe.reset else probe.counting (lookupsOf probe.env [s])) := by
  cases s with
  | lookup name => rfl
  | reset => rfl
  | evaluate source limit =>
      rw [step, Step.answer, if_neg Step.noConfusion, lookupsOf, List.filterMap_cons,
        Step.evaluated?]
      cases Predicate.parse source limit with
      | error e => rfl
      | ok p =>
          have hsum : 0 + ((p.consulted probe.env).length + 0) = (p.consulted probe.env).length := by
            omega
          change (let (value, probe) := probe.evaluate p; (Answer.evaluated (.ok value), probe)) =
            (_, probe.counting (0 + ((p.consulted probe.env).length + 0)))
          rw [evaluate_eq, hsum]
          rfl

theorem after_concat (probe : Probe) (steps : List Step) (s : Step) :
    probe.after (steps ++ [s]) = ((probe.after steps).step s).2 := by
  rw [after, after, List.foldl_append]
  rfl

/-! ## Runs -/

/-- Behind any steps the environment is the one that the probe was made for, and the count is the
number of lookups since the last reset. -/
theorem after_new (env : Environment) (steps : List Step) :
    (new env).after steps = ⟨env, lookupsOf env (sinceReset steps)⟩ := by
  induction steps using List.reverseRecOn with
  | nil => rfl
  | append_singleton steps s ih =>
      rw [after_concat, ih, step_eq, sinceReset_concat]
      by_cases hreset : s = .reset
      · rw [if_pos hreset, if_pos hreset]
        rfl
      · rw [if_neg hreset, if_neg hreset, lookupsOf_append]
        rfl

theorem run_getElem? (probe : Probe) (steps : List Step) (k : Nat) :
    (probe.run steps)[k]? = steps[k]?.map fun s =>
      (((probe.after (steps.take k)).step s).1, (probe.after (steps.take (k + 1))).count) := by
  induction steps generalizing probe k with
  | nil => rfl
  | cons s steps ih =>
      cases k with
      | zero => rfl
      | succ k => exact ih (probe.step s).2 k

/-- Every step that is done with a new probe gives the answer of its environment.  The count behind
it is the number of direct lookups since the last reset and of the names that decide the predicates
which were evaluated since then. -/
theorem run_transparent_exact (env : Environment) (steps : List Step) (k : Nat) :
    ((new env).run steps)[k]? = steps[k]?.map fun s =>
      (s.answer env, lookupsOf env (sinceReset (steps.take (k + 1)))) := by
  rw [run_getElem?]
  congr 1
  funext s
  rw [after_new, after_new, step_eq]

/-- The second operand of `or` is not looked up, and neither is anything of a text that is no
predicate. -/
example :
    (new (Bindings.ofList [("a", "x")]).lookup).run
        [.lookup "b", .evaluate "a == b", .evaluate "a ==", .reset, .evaluate "a or b"] =
      [(.found none, 1), (.evaluated (.ok false), 3),
        (.evaluated (.error (.unexpected 4 .endOfInput)), 3), (.done, 0),
        (.evaluated (.ok true), 1)] := by
  decide +kernel

end Probe

end PredicateLanguage
