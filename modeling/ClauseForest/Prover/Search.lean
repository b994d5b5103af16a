/-
**Depth first search**

The open branches of a proof form a stack.  Each step takes the branch on top and puts the branches
that it turns into on top instead, so one alternative is followed to its end before the next is looked
at.  The search succeeds with the first branch that is proved and fails when no branch is left.

Cyclic rules can keep the search busy forever.  A limit turns long searches into an error; it counts
the branches taken from the stack.  Without a limit the steps are repeated for as long as it takes, and
a missing answer stands for a search that does not end.

Main definitions:

* `Session.searchFor` — the search with a bound on the number of steps;
* `Session.next`, `Session.search` — one step of the search, and the search without a bound;
* `Session.prove` — whether a query is provable in a session;
* `prove` — the same for texts.

Main results:

* `Session.searchFor_mono` — **an answer found within a bound is kept under any larger bound**;
* `Session.search_eq_some_iff` — the search without a bound answers exactly what some bounded search
  answers.
-/

import ClauseForest.Prover.Branch
import ClauseForest.Prover.Repetition

set_option relaxedAutoImplicit false
set_option autoImplicit false

namespace ClauseForest

/-! ### Failures -/

/-- Why a proof gave no answer. -/
inductive ProofError where
  /-- A fact, a clause or a query is malformed. -/
  | malformed (error : SyntaxError)
  /-- The step limit was reached. -/
  | exhausted (steps : Nat)
  /-- The search without a limit has no end.  It stands for the answer that never comes. -/
  | endless
deriving DecidableEq, Repr

/-- The message for a proof without an answer. -/
def ProofError.message : ProofError → String
  | .malformed error => error.message
  | .exhausted steps => "search gave up after " ++ toString steps ++ " steps"
  | .endless => "search has no end"

/-- Makes a malformed text a failure of the proof. -/
def ProofError.ofSyntax {α : Type} (result : Except SyntaxError α) : Except ProofError α :=
  result.mapError .malformed

namespace Session

/-! ### The search -/

/-- The answer of a search of at most so many steps, if it comes by then. -/
def searchFor (s : Session) : Nat → List Branch → Option Bool
  | _, [] => some false
  | 0, _ :: _ => none
  | n + 1, branch :: rest =>
    match s.advance branch with
    | .proved => some true
    | .branches next => s.searchFor n (next ++ rest)

/-- The stack after one step, or the answer. -/
def next (s : Session) : List Branch → List Branch ⊕ Bool
  | [] => .inr false
  | branch :: rest =>
    match s.advance branch with
    | .proved => .inr true
    | .branches next => .inl (next ++ rest)

/-- The answer of a search, if it ever comes. -/
def search (s : Session) (stack : List Branch) : Option Bool := Repetition.run? s.next stack

/-- Whether a query is provable. -/
def prove (s : Session) (query : Term) : Except ProofError Bool :=
  match s.limit with
  | some n =>
    match s.searchFor n [.ofQuery query] with
    | some answer => .ok answer
    | none => .error (.exhausted n)
  | none =>
    match s.search [.ofQuery query] with
    | some answer => .ok answer
    | none => .error .endless

/-! ### Bounds -/

theorem searchFor_succ {s : Session} {n : Nat} {stack : List Branch} {answer : Bool}
    (h : s.searchFor n stack = some answer) : s.searchFor (n + 1) stack = some answer := by
  induction n generalizing stack with
  | zero =>
    cases stack with
    | nil => exact h
    | cons branch rest => exact absurd h (by simp [searchFor])
  | succ n ih =>
    cases stack with
    | nil => exact h
    | cons branch rest =>
      rw [searchFor] at h ⊢
      split <;> rename_i hb <;> rw [hb] at h
      · exact h
      · exact ih h

/-- An answer found within a bound is kept under any larger bound. -/
theorem searchFor_mono {s : Session} {n m : Nat} {stack : List Branch} {answer : Bool}
    (hnm : n ≤ m) (h : s.searchFor n stack = some answer) :
    s.searchFor m stack = some answer := by
  induction hnm with
  | refl => exact h
  | step _ ih => exact searchFor_succ ih

/-- The last look at the stack, which finds it empty, is a step of the repetition but takes no branch. -/
theorem within_of_searchFor {s : Session} {n : Nat} {stack : List Branch} {answer : Bool}
    (h : s.searchFor n stack = some answer) :
    Repetition.within s.next (n + 1) stack = some answer := by
  induction n generalizing stack with
  | zero =>
    cases stack with
    | nil => simpa [Repetition.within, next, searchFor] using h
    | cons branch rest => exact absurd h (by simp [searchFor])
  | succ n ih =>
    cases stack with
    | nil => simpa [Repetition.within, next, searchFor] using h
    | cons branch rest =>
      rw [searchFor] at h
      rw [Repetition.within, next]
      split at h
      · exact h
      · exact ih h

theorem searchFor_of_within {s : Session} {n : Nat} {stack : List Branch} {answer : Bool}
    (h : Repetition.within s.next n stack = some answer) : s.searchFor n stack = some answer := by
  induction n generalizing stack with
  | zero => exact absurd h (by simp [Repetition.within])
  | succ n ih =>
    cases stack with
    | nil => simpa [Repetition.within, next, searchFor] using h
    | cons branch rest =>
      rw [Repetition.within, next] at h
      rw [searchFor]
      split <;> rename_i hb <;> simp only [hb] at h
      · exact h
      · exact ih h

/-- The search without a bound answers exactly what some bounded search answers. -/
theorem search_eq_some_iff {s : Session} {stack : List Branch} {answer : Bool} :
    s.search stack = some answer ↔ ∃ n, s.searchFor n stack = some answer :=
  Repetition.run?_eq_some_iff.trans
    ⟨fun ⟨n, h⟩ => ⟨n, searchFor_of_within h⟩, fun ⟨n, h⟩ => ⟨n + 1, within_of_searchFor h⟩⟩

end Session

/-! ### Texts -/

/-- Whether an example satisfies a clause, given facts: all as texts, read in the order facts, clause,
example. -/
def prove (facts : List String) (clause example_ : String) : Except ProofError Bool := do
  let facts ← ProofError.ofSyntax (RuleBase.parse facts)
  let clause ← ProofError.ofSyntax (Rule.parse clause)
  let query ← ProofError.ofSyntax (Term.parse example_)
  Session.prove ⟨facts, some clause, none⟩ query

end ClauseForest
