/-
**Counting steps**

A proof under a limit counts the branches that it takes from the stack.  The count goes up first and is
compared with the limit then, so the branch that exceeds the limit is counted, but nothing is done with
it; the error reports the branches that were worked on.  An empty stack is noticed before anything is
counted.

`Session.searchFor` counts down instead, from the number of steps that are left.  Both give the same
answers, and the same errors.

Main definitions:

* `Session.turn` — one turn of the loop that counts;
* `Session.proveCounting` — whether a query is provable, by this loop.

Main results:

* `Session.proveCounting_eq` — **counting up to a limit is counting down from it**.
-/

import ClauseForest.Prover.Search

set_option relaxedAutoImplicit false
set_option autoImplicit false

namespace ClauseForest.Session

/-- One turn of the loop that counts: a stack with the number of branches taken so far turns into
another, or the loop is left. -/
def turn (s : Session) : List Branch × Nat → (List Branch × Nat) ⊕ Except ProofError Bool
  | ([], _) => .inr (.ok false)
  | (branch :: rest, taken) =>
    let steps := taken + 1
    if s.limit.any (steps > ·) then .inr (.error (.exhausted (steps - 1)))
    else
      match s.advance branch with
      | .proved => .inr (.ok true)
      | .branches next => .inl (next ++ rest, steps)

/-- Whether a query is provable, by the loop that counts. -/
def proveCounting (s : Session) (query : Term) : Except ProofError Bool :=
  (Repetition.run? s.turn ([.ofQuery query], 0)).getD (.error .endless)

variable {s : Session} {query : Term}

/-- Without a limit the count is of no consequence. -/
theorem within_turn_of_none (hlimit : s.limit = none) (n : Nat) (stack : List Branch)
    (taken : Nat) : Repetition.within s.turn n (stack, taken) =
      (Repetition.within s.next n stack).map .ok := by
  induction n generalizing stack taken with
  | zero => rfl
  | succ n ih =>
      rw [Repetition.within, Repetition.within]
      cases stack with
      | nil => rfl
      | cons branch rest =>
          rw [turn, next, hlimit]
          cases s.advance branch with
          | proved => rfl
          | branches next => exact ih _ _

/-- Under a limit the loop is left by the time that no step remains. -/
theorem within_turn_of_some {n taken : Nat} (hlimit : s.limit = some (taken + n))
    (stack : List Branch) : Repetition.within s.turn (n + 1) (stack, taken) =
      some (match s.searchFor n stack with
        | some answer => .ok answer
        | none => .error (.exhausted (taken + n))) := by
  induction n generalizing stack taken with
  | zero =>
      rw [Repetition.within]
      cases stack with
      | nil => rfl
      | cons branch rest => simp [turn, searchFor, hlimit]
  | succ n ih =>
      have hnext : s.limit = some (taken + 1 + n) := by rw [hlimit, Nat.add_right_comm, Nat.add_assoc]
      rw [Repetition.within]
      cases stack with
      | nil => rfl
      | cons branch rest =>
          have hwithin : ¬ taken + 1 > taken + (n + 1) := by omega
          simp only [turn, searchFor, hlimit, Option.any_some, decide_eq_true_eq, if_neg hwithin]
          cases s.advance branch with
          | proved => rfl
          | branches next =>
              have hrest := ih hnext (next ++ rest)
              rwa [Nat.add_right_comm, Nat.add_assoc] at hrest

/-- Counting up to a limit is counting down from it. -/
theorem proveCounting_eq (s : Session) (query : Term) : s.proveCounting query = s.prove query := by
  unfold proveCounting prove
  cases hlimit : s.limit with
  | none =>
      cases hsearch : s.search [.ofQuery query] with
      | some answer =>
          obtain ⟨n, hn⟩ := Repetition.run?_eq_some_iff.1 hsearch
          have hturn : Repetition.run? s.turn ([.ofQuery query], 0) = some (.ok answer) :=
            Repetition.run?_eq_some_iff.2 ⟨n, by rw [within_turn_of_none hlimit, hn]; rfl⟩
          rw [hturn]
          rfl
      | none =>
          have hturn : Repetition.run? s.turn ([.ofQuery query], 0) = none := by
            refine Option.eq_none_iff_forall_ne_some.2 fun result hresult => ?_
            obtain ⟨n, hn⟩ := Repetition.run?_eq_some_iff.1 hresult
            rw [within_turn_of_none hlimit] at hn
            obtain ⟨answer, hanswer, -⟩ := Option.map_eq_some_iff.1 hn
            have hfound := Repetition.run?_eq_some_iff.2 ⟨n, hanswer⟩
            cases hsearch.symm.trans hfound
          rw [hturn]
          rfl
  | some n =>
      have hstart : s.limit = some (0 + n) := by rw [hlimit, Nat.zero_add]
      have hturn := within_turn_of_some hstart [.ofQuery query]
      rw [Repetition.run?_eq_some_iff.2 ⟨n + 1, hturn⟩, Nat.zero_add]
      rfl

end ClauseForest.Session
