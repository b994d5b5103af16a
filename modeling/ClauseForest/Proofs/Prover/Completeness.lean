/-
**Completeness of the prover**

When the prover gives up, nothing was to be found: no instance of the query follows from the rules.
No condition is put on the rules, on the clause or on the query.

A derivation of an instance shows the search its way.  Take a branch whose first open literal has a
derivable instance, under a grounding that has all values of the branch.  The last rule of the
derivation can be entered, with bindings on the way to the instance that the derivation uses; its
literals have derivable instances in turn; and when it is finished, the values that are handed back
are on the way to the grounding of the branch again.

Main results:

* `Session.succeeds_of_derivable` — **a literal with a derivable instance can be proved**, whatever
  is still open behind it;
* `Session.not_derivable_of_prove` — **when the prover gives up, no instance of the query is
  derivable**.
-/

import ClauseForest.Proofs.Logic.Matching
import ClauseForest.Proofs.Prover.LeastModel
import ClauseForest.Proofs.Prover.Success
import Mathlib.Control.Monad.Basic

set_option relaxedAutoImplicit false
set_option autoImplicit false

namespace ClauseForest.Session

variable {s : Session}

/-- A literal with a derivable instance can be proved, whatever is still open behind it. -/
theorem succeeds_of_derivable {program : List Rule} (hs : s.Uses program) {t : Term}
    (h : Derivable program t) {θ : Grounding} {head literal : Term} {rest : List Term}
    {b : Bindings} {callers : List Frame} (ht : θ.term literal = t) (hb : θ.Respects b)
    (hrest : ∀ b', θ.Respects b' → s.Succeeds ⟨⟨head, rest, b'⟩, callers⟩) :
    s.Succeeds ⟨⟨head, literal :: rest, b⟩, callers⟩ := by
  induction h generalizing θ head literal rest b callers with
  | @of_rule rule hrule θ' _ ih =>
      obtain ⟨hagrees, hentered⟩ := respects_unify hb θ'.respects_empty ht
      refine (succeeds_cons_iff hs).2 ⟨rule, hrule, hagrees, ?_⟩
      refine Branch.forall_body ?_ ?_ _ hentered
      · intro other hother rest' b' hb' hrest'
        exact ih other hother rfl hb' hrest'
      · intro b' hb'
        -- the values of the finished rule are handed back to the literal
        exact .resume (hrest _ (respects_unify hb' hb ht.symm).2)

/-- When the prover gives up, no instance of the query is derivable. -/
theorem not_derivable_of_prove (rules : List Rule) (clause : Option Rule) (limit : Option Nat)
    (query : Term) (h : Session.prove ⟨.ofList rules, clause, limit⟩ query = .ok false) :
    ∀ θ : Grounding, ¬ Derivable (rules ++ clause.toList) (θ.term query) := by
  intro θ hderivable
  refine not_succeeds_of_prove h ?_
  exact succeeds_of_derivable (uses_ofList rules clause limit) hderivable rfl θ.respects_empty
    fun b _ => .proved _ b

/-- The theorem at a chain of edges: no way leads away from its end. -/
theorem not_derivable_of_prove_chain :
    Session.prove ⟨.ofList chainRules, some chainClause, some 50⟩ ⟨"reach", ["c", "X"]⟩ =
        .ok false ∧
      ∀ θ : Grounding, ¬ Derivable (chainRules ++ [chainClause]) (θ.term ⟨"reach", ["c", "X"]⟩) := by
  have hproved : Session.prove ⟨.ofList chainRules, some chainClause, some 50⟩
      ⟨"reach", ["c", "X"]⟩ = .ok false := by decide +kernel
  exact ⟨hproved, not_derivable_of_prove chainRules (some chainClause) (some 50)
    ⟨"reach", ["c", "X"]⟩ hproved⟩

end ClauseForest.Session
