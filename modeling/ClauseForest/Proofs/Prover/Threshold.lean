/-
**The step limit as a threshold**

A search takes branches from its stack, one after another.  Either it goes on forever, and then every
limit ends it; or it takes a certain number of branches and has its answer then.  This number is the
least limit that lets the answer through.  Below it the limit ends the search, and from it on the limit
plays no part.

Taking the last branch may leave the stack empty.  This is noticed without taking another one, so a
search that fails and a search that succeeds count their branches in the same way.

Main definitions:

* `Session.Takes` — the number of branches that a search takes, and its answer.

Main results:

* `Session.exists_takes_of_searchFor`, `Session.Takes.searchFor_of_lt` — a bound lets an answer through
  only if it allows the branches that the search takes;
* `Session.prove_threshold` — **the limit is an exact threshold**.
-/

import ClauseForest.Proofs.Prover.StepLimit
import ClauseForest.Prover.Counting
import Mathlib.Logic.Basic

set_option relaxedAutoImplicit false
set_option autoImplicit false

namespace ClauseForest.Session

/-! ### The branches that a search takes -/

/-- A search takes just so many branches from its stack, and then has an answer. -/
inductive Takes (s : Session) : Nat → List Branch → Bool → Prop
  /-- No branch is left. -/
  | failed : Takes s 0 [] false
  /-- The branch on top is proved. -/
  | proved {branch : Branch} {rest : List Branch} (h : s.advance branch = .proved) :
      Takes s 1 (branch :: rest) true
  /-- The branch on top turns into others. -/
  | step {branch : Branch} {rest next : List Branch} {n : Nat} {answer : Bool}
      (h : s.advance branch = .branches next) (hnext : Takes s n (next ++ rest) answer) :
      Takes s (n + 1) (branch :: rest) answer

variable {s : Session} {n m : Nat} {stack : List Branch} {answer answer' : Bool}

/-- The number of branches and the answer are determined. -/
theorem Takes.unique (h : s.Takes n stack answer) (h' : s.Takes m stack answer') :
    n = m ∧ answer = answer' := by
  induction h generalizing m with
  | failed => cases h' with | failed => exact ⟨rfl, rfl⟩
  | proved hproved =>
      cases h' with
      | proved _ => exact ⟨rfl, rfl⟩
      | step hbranches _ => cases hproved.symm.trans hbranches
  | step hbranches _ ih =>
      cases h' with
      | proved hproved => cases hbranches.symm.trans hproved
      | step hbranches' hnext =>
          cases hbranches.symm.trans hbranches'
          exact (ih hnext).imp_left (congrArg (· + 1))

theorem Takes.searchFor (h : s.Takes n stack answer) : s.searchFor n stack = some answer := by
  induction h with
  | failed => rfl
  | proved hproved => simp [Session.searchFor, hproved]
  | step hbranches _ ih => simpa only [Session.searchFor, hbranches] using ih

theorem exists_takes_of_searchFor (h : s.searchFor n stack = some answer) :
    ∃ k ≤ n, s.Takes k stack answer := by
  induction n generalizing stack with
  | zero =>
      cases stack with
      | nil => cases h; exact ⟨0, Nat.le_refl 0, .failed⟩
      | cons branch rest => cases h
  | succ n ih =>
      cases stack with
      | nil => cases h; exact ⟨0, Nat.zero_le _, .failed⟩
      | cons branch rest =>
          rw [Session.searchFor] at h
          cases hbranch : s.advance branch with
          | proved =>
              rw [hbranch] at h
              cases h
              exact ⟨1, Nat.le_add_left 1 n, .proved hbranch⟩
          | branches next =>
              rw [hbranch] at h
              obtain ⟨k, hk, htakes⟩ := ih h
              exact ⟨k + 1, Nat.succ_le_succ hk, .step hbranch htakes⟩

/-- A bound below the number of branches keeps the answer back. -/
theorem Takes.searchFor_of_lt (h : s.Takes n stack answer) (hlt : m < n) :
    s.searchFor m stack = none := by
  refine Option.eq_none_iff_forall_ne_some.2 fun found hfound => ?_
  obtain ⟨k, hk, htakes⟩ := exists_takes_of_searchFor hfound
  have heq := (h.unique htakes).1
  omega

/-- At least one branch is taken from a stack that holds one. -/
theorem Takes.pos {branch : Branch} {rest : List Branch}
    (h : s.Takes n (branch :: rest) answer) : 1 ≤ n := by
  cases h with
  | proved _ => exact Nat.le_refl 1
  | step _ _ => exact Nat.le_add_left 1 _

/-! ### The threshold -/

section

variable {facts : RuleBase} {clause : Option Rule} {query : Term}

/-- A bound that keeps the answer back is reported. -/
theorem prove_eq_exhausted_of_searchFor
    (h : searchFor ⟨facts, clause, none⟩ n [.ofQuery query] = none) :
    prove ⟨facts, clause, some n⟩ query = .error (.exhausted n) := by
  unfold prove
  simp only [searchFor_eq (some n) none, h]

/-- Without any branches that the search takes, no limit lets an answer through. -/
theorem prove_of_forall_not_takes
    (h : ∀ n answer, ¬ Takes ⟨facts, clause, none⟩ n [.ofQuery query] answer) :
    (∀ n, prove ⟨facts, clause, some n⟩ query = .error (.exhausted n)) ∧
      prove ⟨facts, clause, none⟩ query = .error .endless := by
  have hnone : ∀ n, searchFor ⟨facts, clause, none⟩ n [.ofQuery query] = none := by
    refine fun n => Option.eq_none_iff_forall_ne_some.2 fun found hfound => ?_
    obtain ⟨k, -, htakes⟩ := exists_takes_of_searchFor hfound
    exact h k found htakes
  refine ⟨fun n => prove_eq_exhausted_of_searchFor (hnone n), ?_⟩
  have hsearch : search ⟨facts, clause, none⟩ [.ofQuery query] = none := by
    refine Option.eq_none_iff_forall_ne_some.2 fun found hfound => ?_
    obtain ⟨n, hn⟩ := search_eq_some_iff.1 hfound
    cases (hnone n).symm.trans hn
  unfold prove
  simp only [hsearch]

/-- The branches that the search takes are the least limit that lets the answer through. -/
theorem Takes.prove (h : Takes ⟨facts, clause, none⟩ n [.ofQuery query] answer) :
    (∀ m < n, Session.prove ⟨facts, clause, some m⟩ query = .error (.exhausted m)) ∧
      ∀ limit, LimitLE (some n) limit → Session.prove ⟨facts, clause, limit⟩ query = .ok answer :=
  ⟨fun _ hlt => prove_eq_exhausted_of_searchFor (h.searchFor_of_lt hlt),
    fun _ hlimit => prove_of_limitLE h.searchFor hlimit⟩

end

/-- The limit is an exact threshold.  For every session and query exactly one of two cases holds.
Either every limit ends the search and is reported; or there is a number of branches, at least one,
such that every smaller limit ends the search and is reported, while all others, and no limit at all,
let one and the same answer through.  The first case is that of a search without an end.  The loop that
counts up to the limit behaves in the same way. -/
theorem prove_threshold (facts : RuleBase) (clause : Option Rule) (query : Term) :
    Xor (∀ n, prove ⟨facts, clause, some n⟩ query = .error (.exhausted n))
      (∃ n answer, 1 ≤ n ∧
        (∀ m < n, prove ⟨facts, clause, some m⟩ query = .error (.exhausted m)) ∧
        (∀ m, n ≤ m → prove ⟨facts, clause, some m⟩ query = .ok answer) ∧
        prove ⟨facts, clause, none⟩ query = .ok answer) ∧
    ((∀ n, prove ⟨facts, clause, some n⟩ query = .error (.exhausted n)) ↔
      prove ⟨facts, clause, none⟩ query = .error .endless) ∧
    ∀ limit, proveCounting ⟨facts, clause, limit⟩ query = prove ⟨facts, clause, limit⟩ query := by
  by_cases hends : ∃ n answer, Takes ⟨facts, clause, none⟩ n [.ofQuery query] answer
  · obtain ⟨n, answer, htakes⟩ := hends
    obtain ⟨hbelow, hfrom⟩ := htakes.prove
    have hat : prove ⟨facts, clause, some n⟩ query = .ok answer := hfrom (some n) (Nat.le_refl n)
    have hwithout : prove ⟨facts, clause, none⟩ query = .ok answer := hfrom none trivial
    have hnot : ¬ ∀ n, prove ⟨facts, clause, some n⟩ query = .error (.exhausted n) := by
      intro hall
      cases hat.symm.trans (hall n)
    refine ⟨.inr ⟨⟨n, answer, htakes.pos, hbelow, fun m => hfrom (some m), hwithout⟩, hnot⟩,
      ⟨fun hall => absurd hall hnot, fun hendless => ?_⟩, fun limit => proveCounting_eq _ query⟩
    cases hwithout.symm.trans hendless
  · obtain ⟨hall, hendless⟩ := prove_of_forall_not_takes fun n answer h => hends ⟨n, answer, h⟩
    refine ⟨.inl ⟨hall, ?_⟩, ⟨fun _ => hendless, fun _ => hall⟩, fun limit => proveCounting_eq _ query⟩
    rintro ⟨n, answer, -, -, -, hwithout⟩
    cases hendless.symm.trans hwithout

/-- A fact is found, entered and handed back: three branches. -/
example : prove ⟨.ofList [⟨⟨"likes", ["ann"]⟩, []⟩], none, some 2⟩ ⟨"likes", ["ann"]⟩ =
      .error (.exhausted 2) ∧
    prove ⟨.ofList [⟨⟨"likes", ["ann"]⟩, []⟩], none, some 3⟩ ⟨"likes", ["ann"]⟩ = .ok true :=
  ⟨rfl, rfl⟩

end ClauseForest.Session
