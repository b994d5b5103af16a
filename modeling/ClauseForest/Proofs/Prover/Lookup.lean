/-
**Looking rules up**

A search asks for the rules of a literal at every step.  It never sees how they are found: two sessions
that find the same rules for every literal, in the same order, go through the same stacks, and so give
the same answers, run out of steps after as many and go on forever together.

A look-up by the key of a head finds what a look through all rules finds, and the clause of a session
comes after the rules of the rule base, if it has the key of the literal.  So a clause is nothing but
the rule that was added last.

Main results:

* `Session.prove_congr` — **a search depends on the candidates only**;
* `matching_eq_filter_and_prove_insert` — **looking up by heads is looking through all rules, and a
  clause is a last rule**.
-/

import ClauseForest.Proofs.Logic.HeadIndex
import ClauseForest.Proofs.Prover.Success
import ClauseForest.Prover.Counting

set_option relaxedAutoImplicit false
set_option autoImplicit false

namespace ClauseForest

namespace Session

variable {s s' : Session}

/-! ### Candidates -/

theorem advance_congr (h : ∀ literal, s.candidates literal = s'.candidates literal) (b : Branch) :
    s.advance b = s'.advance b := by
  unfold advance
  simp only [h]

theorem searchFor_congr (h : ∀ literal, s.candidates literal = s'.candidates literal) (n : Nat)
    (stack : List Branch) : s.searchFor n stack = s'.searchFor n stack := by
  induction n generalizing stack with
  | zero => cases stack <;> rfl
  | succ n ih =>
      cases stack with
      | nil => rfl
      | cons branch rest =>
          rw [searchFor, searchFor, advance_congr h]
          split
          · rfl
          · exact ih _

theorem search_congr (h : ∀ literal, s.candidates literal = s'.candidates literal)
    (stack : List Branch) : s.search stack = s'.search stack := by
  refine Option.ext fun answer => ?_
  rw [search_eq_some_iff, search_eq_some_iff]
  simp only [searchFor_congr h]

/-- A search depends on the candidates only. -/
theorem prove_congr (h : ∀ literal, s.candidates literal = s'.candidates literal)
    (hlimit : s.limit = s'.limit) (query : Term) : s.prove query = s'.prove query := by
  unfold prove
  rw [hlimit]
  simp only [searchFor_congr h, search_congr h]

/-- A clause has the candidates of a rule that is added last. -/
theorem candidates_insert (facts : RuleBase) (clause : Rule) (limit limit' : Option Nat)
    (literal : Term) : candidates ⟨facts, some clause, limit⟩ literal =
      candidates ⟨facts.insert clause, none, limit'⟩ literal := by
  unfold candidates
  rw [RuleBase.matching_insert]
  by_cases hkey : literal.key = clause.head.key
  · simp [hkey]
  · simp [hkey, Ne.symm hkey]

end Session

/-- **Looking rules up by their heads is looking through all of them, and a clause is a last rule.**
Whatever rules are added, an index of places finds for every goal exactly the rules whose head has its
predicate and its number of arguments, as often as they were added and in that order; and so do the
groups of a rule base.  Therefore a proof from any rule base and a clause is the proof from the rule base
to which the clause is added: under every limit both give the same answer, or the same error after the
same number of steps. -/
theorem matching_eq_filter_and_prove_insert :
    (∀ (rules : List Rule) (goal : Term),
      (HeadIndex.ofList rules).matching goal = rules.filter (fun rule =>
        rule.head.predicate = goal.predicate ∧ rule.head.arity = goal.arity) ∧
      (RuleBase.ofList rules).matching goal = rules.filter fun rule =>
        rule.head.predicate = goal.predicate ∧ rule.head.arity = goal.arity) ∧
    ∀ (facts : RuleBase) (clause : Rule) (limit : Option Nat) (query : Term),
      Session.prove ⟨facts, some clause, limit⟩ query =
          Session.prove ⟨facts.insert clause, none, limit⟩ query ∧
        Session.proveCounting ⟨facts, some clause, limit⟩ query =
          Session.proveCounting ⟨facts.insert clause, none, limit⟩ query := by
  constructor
  · intro rules goal
    have hgroups : (RuleBase.ofList rules).matching goal = rules.filter fun rule =>
        rule.head.predicate = goal.predicate ∧ rule.head.arity = goal.arity := by
      rw [RuleBase.matching_ofList]
      simp only [Term.key, Prod.mk.injEq]
    exact ⟨(HeadIndex.matching_ofList rules goal).trans hgroups, hgroups⟩
  · intro facts clause limit query
    have hprove := Session.prove_congr (Session.candidates_insert facts clause limit limit) rfl query
    rw [Session.proveCounting_eq, Session.proveCounting_eq]
    exact ⟨hprove, hprove⟩

end ClauseForest
