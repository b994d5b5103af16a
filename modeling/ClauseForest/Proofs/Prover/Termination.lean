/-
**Searches that end**

A search can go on forever only by calling rules in a circle.  When the heads of rules can be ranked
so that every rule calls heads of lower rank only, each call is settled after finitely many calls of
lower rank, and the search ends whatever the query.

Main results:

* `Session.ends_of_ranked` — the search gets past a literal if it gets past what is open behind it;
* `Session.exists_searchFor_of_ranked` — **a search with ranked rules ends**.
-/

import ClauseForest.Proofs.Prover.Success

set_option relaxedAutoImplicit false
set_option autoImplicit false

namespace ClauseForest.Session

variable {s : Session} {program : List Rule} {rank : HeadKey → Nat}

/-- The search gets past a literal if it gets past what is open behind it. -/
theorem ends_of_ranked (hs : s.Uses program)
    (hrank : ∀ rule ∈ program, ∀ literal ∈ rule.body, rank literal.key < rank rule.head.key)
    (k : Nat) {head literal : Term} {rest : List Term} {b : Bindings} {callers : List Frame}
    (hk : rank literal.key < k) (hrest : ∀ b', s.Ends ⟨⟨head, rest, b'⟩, callers⟩) :
    s.Ends ⟨⟨head, literal :: rest, b⟩, callers⟩ := by
  -- the induction is on a bound of the rank: inside a rule only lower ranks are called
  induction k generalizing head literal rest b callers with
  | zero => omega
  | succ k ih =>
      refine ends_of_advance fun nexts hnexts next hnext => ?_
      obtain ⟨rule, hrule, frame, hframe, rfl⟩ := mem_advance_iff.1 ⟨nexts, hnexts, hnext⟩
      obtain ⟨hmem, hkey⟩ := (hs literal rule).1 hrule
      obtain ⟨-, rfl⟩ := Frame.enter?_eq_some_iff.1 hframe
      refine Branch.forall_body (Q := fun _ => True) ?_ ?_ _ trivial
      · intro other hother rest' b' _ hrest'
        have hlt := hrank rule hmem other hother
        rw [hkey] at hlt
        exact ih (by omega) fun b'' => hrest' b'' trivial
      · -- the finished rule hands its values back, and the literals behind the call come next
        intro b' _
        refine ends_of_advance fun nexts' hnexts' next' hnext' => ?_
        cases hnexts'
        rw [List.mem_singleton.1 hnext']
        exact hrest _

/-- A search with ranked rules ends. -/
theorem exists_searchFor_of_ranked (rank : HeadKey → Nat) (hs : s.Uses program)
    (hrank : ∀ rule ∈ program, ∀ literal ∈ rule.body, rank literal.key < rank rule.head.key)
    (query : Term) : ∃ n answer, s.searchFor n [.ofQuery query] = some answer := by
  have hends : s.Ends (.ofQuery query) := by
    refine ends_of_ranked hs hrank _ (Nat.lt_succ_self _) fun b => ends_of_advance ?_
    intro nexts hnexts
    cases hnexts
  exact hends [] ⟨0, false, rfl⟩

end ClauseForest.Session
