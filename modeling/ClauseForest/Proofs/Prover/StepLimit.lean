/-
**Step limits of a proof**

A limit on the steps of a proof can only keep an answer back.  An answer that comes within some number
of steps is the answer under every limit that allows so many steps, and without a limit.

Main definitions:

* `LimitLE` — the order of limits, with no limit at the top.

Main results:

* `Session.prove_mono` — **an answer under a limit is the answer under every larger limit**;
* `Session.prove_of_limitLE` — an answer that a bounded search finds is the answer under every limit
  that allows so many steps;
* `Session.prove_eq_ok_iff` — there are no other answers.
-/

import ClauseForest.Prover.Search

set_option relaxedAutoImplicit false
set_option autoImplicit false

namespace ClauseForest

/-- A limit is at most another.  Every limit is at most none. -/
def LimitLE : Option Nat → Option Nat → Prop
  | _, none => True
  | some n, some m => n ≤ m
  | none, some _ => False

theorem limitLE_of_le {n m : Nat} {limit : Option Nat} (hle : n ≤ m) (h : LimitLE (some m) limit) :
    LimitLE (some n) limit := by
  cases limit with
  | none => trivial
  | some k => exact Nat.le_trans hle h

namespace Session

variable {facts : RuleBase} {clause : Option Rule} {limit limit' : Option Nat}

/-- The limit plays no part in a search with a bound of its own. -/
theorem searchFor_eq (limit limit' : Option Nat) (n : Nat) (stack : List Branch) :
    searchFor ⟨facts, clause, limit⟩ n stack = searchFor ⟨facts, clause, limit'⟩ n stack := by
  induction n generalizing stack with
  | zero => cases stack <;> rfl
  | succ n ih =>
      cases stack with
      | nil => rfl
      | cons branch rest =>
          have hadvance : advance ⟨facts, clause, limit⟩ branch =
              advance ⟨facts, clause, limit'⟩ branch := rfl
          rw [searchFor, searchFor, hadvance]
          split
          · rfl
          · exact ih _

/-- An answer under a limit is the answer under every larger limit. -/
theorem prove_mono (h : LimitLE limit limit') {query : Term} {answer : Bool}
    (hprove : prove ⟨facts, clause, limit⟩ query = .ok answer) :
    prove ⟨facts, clause, limit'⟩ query = .ok answer := by
  cases limit' with
  | none =>
      cases limit with
      | none => exact hprove
      | some n =>
          unfold prove at hprove ⊢
          simp only at hprove ⊢
          split at hprove
          · rename_i found hfound
            rw [searchFor_eq _ none] at hfound
            rw [search_eq_some_iff.2 ⟨n, hfound⟩]
            exact hprove
          · cases hprove
  | some m =>
      cases limit with
      | none => exact absurd h id
      | some n =>
          unfold prove at hprove ⊢
          simp only at hprove ⊢
          split at hprove
          · rename_i found hfound
            rw [searchFor_eq _ (some m)] at hfound
            rw [searchFor_mono h hfound]
            exact hprove
          · cases hprove

/-- An answer that a bounded search finds is the answer under every limit that allows so many
steps. -/
theorem prove_of_limitLE {n : Nat} {query : Term} {answer : Bool}
    (hfound : searchFor ⟨facts, clause, limit⟩ n [.ofQuery query] = some answer)
    (h : LimitLE (some n) limit') : prove ⟨facts, clause, limit'⟩ query = .ok answer := by
  refine prove_mono h ?_
  unfold prove
  simp only [searchFor_eq (some n) limit, hfound]

/-- The answers of a proof are those of the bounded searches that its limit allows. -/
theorem prove_eq_ok_iff {query : Term} {answer : Bool} :
    prove ⟨facts, clause, limit⟩ query = .ok answer ↔
      ∃ n, LimitLE (some n) limit ∧
        searchFor ⟨facts, clause, none⟩ n [.ofQuery query] = some answer := by
  constructor
  · intro h
    cases limit with
    | none =>
        unfold prove at h
        simp only at h
        split at h
        · rename_i found hfound
          cases h
          obtain ⟨n, hn⟩ := search_eq_some_iff.1 hfound
          exact ⟨n, trivial, hn⟩
        · cases h
    | some n =>
        unfold prove at h
        simp only at h
        split at h
        · rename_i found hfound
          cases h
          rw [searchFor_eq _ none] at hfound
          exact ⟨n, Nat.le_refl n, hfound⟩
        · cases h
  · rintro ⟨n, hle, hfound⟩
    exact prove_of_limitLE hfound hle

end Session

end ClauseForest
