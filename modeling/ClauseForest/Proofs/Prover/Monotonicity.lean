/-
**More rules prove more**

A rule that is added opens branches and closes none.  So a branch that can be led to a proof stays
one, wherever the new rule stands and however often: the order of the rules, and their repetitions,
decide which branch is followed first and after how many steps an answer comes, but not which answer.

Nothing is asked of the rules.  What one program proves, a larger one may still miss by going on
forever or by running into its limit; it only cannot deny it.

Main definitions:

* `Session.Within` — a session has all rules of another.

Main results:

* `Session.Succeeds.mono` — a branch that can be led to a proof stays one;
* `Session.prove_ne_false_of_subset` — **what is proved from some rules is not denied from more**, and
  programs with the same rules never disagree.
-/

import ClauseForest.Proofs.Prover.LeastModel
import ClauseForest.Proofs.Prover.Success
import Mathlib.Control.Monad.Basic

set_option relaxedAutoImplicit false
set_option autoImplicit false

namespace ClauseForest.Session

/-- Every rule that a literal may match in a session, it may match in another. -/
def Within (s s' : Session) : Prop :=
  ∀ literal rule, rule ∈ s.candidates literal → rule ∈ s'.candidates literal

theorem within_of_subset {rules rules' : List Rule} (h : rules ⊆ rules') (clause : Option Rule)
    (limit limit' : Option Nat) :
    Within ⟨.ofList rules, clause, limit⟩ ⟨.ofList rules', clause, limit'⟩ := by
  intro literal rule hrule
  obtain ⟨hmem, hkey⟩ := (uses_ofList rules clause limit literal rule).1 hrule
  refine (uses_ofList rules' clause limit' literal rule).2 ⟨?_, hkey⟩
  rcases List.mem_append.1 hmem with hmem | hmem
  · exact List.mem_append_left _ (h hmem)
  · exact List.mem_append_right _ hmem

/-- A branch that can be led to a proof stays one when there are more rules. -/
theorem Succeeds.mono {s s' : Session} (h : s.Within s') {b : Branch} (hb : s.Succeeds b) :
    s'.Succeeds b := by
  -- only the entry into a rule depends on the session
  induction hb with
  | proved head bindings => exact .proved head bindings
  | resume _ ih => exact .resume ih
  | enter hrule hframe _ ih => exact .enter (h _ _ hrule) hframe ih

/-- What is proved in a session is not denied in a session with more rules. -/
theorem prove_ne_false_of_within {s s' : Session} (h : s.Within s') {query : Term}
    (hprove : s.prove query = .ok true) : s'.prove query ≠ .ok false := by
  intro hdenied
  exact not_succeeds_of_prove hdenied ((succeeds_of_prove hprove).mono h)

/-- **Monotonicity.**  What is proved from some rules, under any limit, is not denied from more rules,
under any limit.  If both programs have the same rules, in any order and with any repetitions, then
they agree wherever both give an answer. -/
theorem prove_ne_false_of_subset (rules rules' : List Rule) (clause : Option Rule) (query : Term)
    (h : rules ⊆ rules') :
    (∀ limit limit', prove ⟨.ofList rules, clause, limit⟩ query = .ok true →
      prove ⟨.ofList rules', clause, limit'⟩ query ≠ .ok false) ∧
    (rules' ⊆ rules → ∀ limit limit' answer answer',
      prove ⟨.ofList rules, clause, limit⟩ query = .ok answer →
      prove ⟨.ofList rules', clause, limit'⟩ query = .ok answer' → answer = answer') := by
  have hmore : ∀ limit limit', prove ⟨.ofList rules, clause, limit⟩ query = .ok true →
      prove ⟨.ofList rules', clause, limit'⟩ query ≠ .ok false :=
    fun limit limit' => prove_ne_false_of_within (within_of_subset h clause limit limit')
  refine ⟨hmore, fun h' limit limit' answer answer' hanswer hanswer' => ?_⟩
  -- two answers differ in one of two ways, and each is excluded by one of the inclusions
  cases answer with
  | true =>
      cases answer' with
      | true => rfl
      | false => exact absurd hanswer' (hmore limit limit' hanswer)
  | false =>
      cases answer' with
      | true =>
          have hless := prove_ne_false_of_within (within_of_subset h' clause limit' limit) hanswer'
          exact absurd hanswer hless
      | false => rfl

/-- The theorem at a chain of edges, written backwards and then once more: the clause calls itself, and
the search takes another way. -/
theorem prove_ne_false_of_subset_chain :
    (chainRules ⊆ chainRules.reverse ++ chainRules ∧
      chainRules.reverse ++ chainRules ⊆ chainRules) ∧
    prove ⟨.ofList chainRules, some chainClause, some 50⟩ ⟨"reach", ["a", "c"]⟩ = .ok true ∧
    (∀ limit', prove ⟨.ofList (chainRules.reverse ++ chainRules), some chainClause, limit'⟩
      ⟨"reach", ["a", "c"]⟩ ≠ .ok false) ∧
    ∀ limit' answer', prove ⟨.ofList (chainRules.reverse ++ chainRules), some chainClause, limit'⟩
      ⟨"reach", ["a", "c"]⟩ = .ok answer' → true = answer' := by
  have hproved : prove ⟨.ofList chainRules, some chainClause, some 50⟩ ⟨"reach", ["a", "c"]⟩ =
      .ok true := by decide +kernel
  have hmore : chainRules ⊆ chainRules.reverse ++ chainRules := List.subset_append_right _ _
  have hless : chainRules.reverse ++ chainRules ⊆ chainRules := by decide
  obtain ⟨hnot, hagree⟩ := prove_ne_false_of_subset chainRules (chainRules.reverse ++ chainRules)
    (some chainClause) ⟨"reach", ["a", "c"]⟩ hmore
  exact ⟨⟨hmore, hless⟩, hproved, fun limit' => hnot _ limit' hproved,
    fun limit' answer' => hagree hless _ limit' _ answer' hproved⟩

end ClauseForest.Session
