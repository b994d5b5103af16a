/-
**Programs without circles**

The rules of a program call each other: a rule for one predicate has conditions on others.  If no
predicate calls itself, however many calls lie between, then the calls below a predicate are fewer
than those below every predicate that calls it.  This ranks the predicates, and a search with ranked
rules ends.  Conversely nothing that is ranked can call itself.

Facts call nothing, so facts and a clause that does not call itself are the least example.

Main definitions:

* `Calls` — a rule for a head has a literal in its body;
* `IsAcyclic` — no head calls itself, directly or through others.

Main results:

* `isAcyclic_iff_exists_rank` — a program has no circle if and only if its heads can be ranked;
* `Session.exists_prove_of_isAcyclic` — **a search without circles ends**, and its answer does not
  depend on the limit once this is large enough;
* `isAcyclic_of_bare` — facts and a clause that does not call itself.
-/

import ClauseForest.Proofs.Prover.StepLimit
import ClauseForest.Proofs.Prover.Termination
import Mathlib.Data.Finset.Card
import Mathlib.Logic.Relation

set_option relaxedAutoImplicit false
set_option autoImplicit false

namespace ClauseForest

/-- Some rule for a head has a literal in its body. -/
def Calls (program : List Rule) (key key' : HeadKey) : Prop :=
  ∃ rule ∈ program, rule.head.key = key ∧ ∃ literal ∈ rule.body, literal.key = key'

/-- No head calls itself, directly or through others. -/
def IsAcyclic (program : List Rule) : Prop :=
  ∀ key, ¬ Relation.TransGen (Calls program) key key

/-! ### Ranks -/

section

variable {program : List Rule}

/-- The heads below a head are more than those below any head that it calls. -/
theorem IsAcyclic.exists_rank (h : IsAcyclic program) :
    ∃ rank : HeadKey → Nat, ∀ key key', Calls program key key' → rank key' < rank key := by
  classical
  let called : Finset HeadKey := (program.flatMap fun rule => rule.body.map Term.key).toFinset
  let below (key : HeadKey) : Finset HeadKey :=
    called.filter fun other => Relation.TransGen (Calls program) key other
  refine ⟨fun key => (below key).card, fun key key' hcalls => Finset.card_lt_card ?_⟩
  have hsubset : below key' ⊆ below key := by
    intro other hother
    obtain ⟨hmem, hbelow⟩ := Finset.mem_filter.1 hother
    exact Finset.mem_filter.2 ⟨hmem, .head hcalls hbelow⟩
  -- the called head is below the calling one, and not below itself
  refine (Finset.ssubset_iff_of_subset hsubset).2 ⟨key', ?_, ?_⟩
  · have hmem : key' ∈ called := by
      obtain ⟨rule, hrule, -, literal, hliteral, rfl⟩ := hcalls
      exact List.mem_toFinset.2 (List.mem_flatMap.2 ⟨rule, hrule, List.mem_map_of_mem hliteral⟩)
    exact Finset.mem_filter.2 ⟨hmem, .single hcalls⟩
  · intro hself
    exact h key' (Finset.mem_filter.1 hself).2

theorem lt_of_transGen {rank : HeadKey → Nat}
    (hrank : ∀ key key', Calls program key key' → rank key' < rank key) {key key' : HeadKey}
    (h : Relation.TransGen (Calls program) key key') : rank key' < rank key := by
  induction h with
  | single hcalls => exact hrank _ _ hcalls
  | tail _ hcalls ih => exact Nat.lt_trans (hrank _ _ hcalls) ih

/-- A program has no circle if and only if its heads can be ranked. -/
theorem isAcyclic_iff_exists_rank : IsAcyclic program ↔
    ∃ rank : HeadKey → Nat, ∀ rule ∈ program, ∀ literal ∈ rule.body,
      rank literal.key < rank rule.head.key := by
  constructor
  · intro h
    obtain ⟨rank, hrank⟩ := h.exists_rank
    exact ⟨rank, fun rule hrule literal hliteral =>
      hrank _ _ ⟨rule, hrule, rfl, literal, hliteral, rfl⟩⟩
  · rintro ⟨rank, hrank⟩ key hself
    have hlt : ∀ key key', Calls program key key' → rank key' < rank key := by
      rintro _ _ ⟨rule, hrule, rfl, literal, hliteral, rfl⟩
      exact hrank rule hrule literal hliteral
    exact Nat.lt_irrefl _ (lt_of_transGen hlt hself)

end

/-- Facts call nothing, and a clause that does not call itself calls facts only. -/
theorem isAcyclic_of_bare {rules : List Rule} {clause : Rule}
    (hrules : ∀ rule ∈ rules, rule.body = [])
    (hclause : ∀ literal ∈ clause.body, literal.key ≠ clause.head.key) :
    IsAcyclic (rules ++ [clause]) := by
  refine isAcyclic_iff_exists_rank.2 ⟨fun key => if key = clause.head.key then 1 else 0, ?_⟩
  intro rule hmem literal hliteral
  rcases List.mem_append.1 hmem with hmem | hmem
  · rw [hrules rule hmem] at hliteral
    cases hliteral
  · rw [List.mem_singleton.1 hmem] at hliteral ⊢
    simp [hclause literal hliteral]

/-! ### Searches -/

/-- A search without circles ends.  There is one answer under every limit that is large enough, and
without a limit. -/
theorem Session.exists_prove_of_isAcyclic (rules : List Rule) (clause : Option Rule)
    (h : IsAcyclic (rules ++ clause.toList)) (query : Term) :
    ∃ bound answer, (∀ n, bound ≤ n → prove ⟨.ofList rules, clause, some n⟩ query = .ok answer) ∧
      prove ⟨.ofList rules, clause, none⟩ query = .ok answer := by
  obtain ⟨rank, hrank⟩ := isAcyclic_iff_exists_rank.1 h
  obtain ⟨bound, answer, hfound⟩ :=
    exists_searchFor_of_ranked rank (uses_ofList rules clause none) hrank query
  exact ⟨bound, answer, fun n hn => prove_of_limitLE hfound hn, prove_of_limitLE hfound trivial⟩

end ClauseForest
