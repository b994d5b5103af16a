/-
**Ways to fail**

Whatever is computed from proofs can fail for three reasons: a text on the way is malformed, a proof
reaches its limit, or a proof without a limit goes on forever.  A computation passes on the failures of
its parts and has none of its own.  So if all its parts fail for certain reasons only, it does so as
well; this is said once for each way to put parts together, and for any reasons.

Two choices of reasons matter.  Where every proof ends, only texts are left; where every text was
checked before, only the steps of proofs.

Main definitions:

* `FailsOnly` — a computation that fails for certain reasons only;
* `ProofError.IsMalformed` — the failure of a text that is read;
* `ProofError.outOf`, `OnlyRunsOut` — a computation that fails only where a proof runs out of steps.

Main results:

* `FailsOnly.bind`, `failsOnly_mapM` — computations in several steps;
* `Session.onlyRunsOut_prove` — a proof only runs out of steps.
-/

import ClauseForest.Prover.Search

set_option relaxedAutoImplicit false
set_option autoImplicit false

namespace ClauseForest

/-- A computation gives a result, or fails for certain reasons. -/
def FailsOnly {α : Type} (reasons : ProofError → Prop) (x : Except ProofError α) : Prop :=
  ∀ e, x = .error e → reasons e

section

variable {α β : Type} {reasons : ProofError → Prop}

theorem failsOnly_ok (a : α) : FailsOnly reasons (.ok a) := nofun

theorem FailsOnly.bind {x : Except ProofError α} {f : α → Except ProofError β}
    (h : FailsOnly reasons x) (hf : ∀ a, x = .ok a → FailsOnly reasons (f a)) :
    FailsOnly reasons (x >>= f) := by
  cases x with
  | error e => exact fun e' he' => Except.error.inj he' ▸ h e rfl
  | ok a => exact hf a rfl

/-- What is done with a result at the end does not fail. -/
theorem FailsOnly.map {x : Except ProofError α} (h : FailsOnly reasons x) (f : α → β) :
    FailsOnly reasons (x >>= fun a => .ok (f a)) :=
  h.bind fun a _ => failsOnly_ok (f a)

theorem failsOnly_mapM {f : α → Except ProofError β} {as : List α}
    (h : ∀ a ∈ as, FailsOnly reasons (f a)) : FailsOnly reasons (as.mapM f) := by
  induction as with
  | nil => exact failsOnly_ok []
  | cons a as ih =>
      rw [List.mapM_cons]
      refine (h a (by simp)).bind fun b _ => ?_
      exact (ih fun a' ha' => h a' (List.mem_cons_of_mem _ ha')).map _

/-- A text that is read does not fail. -/
theorem failsOnly_ofSyntax {x : Except SyntaxError α} (h : ∃ a, x = .ok a) :
    FailsOnly reasons (ProofError.ofSyntax x) := by
  obtain ⟨a, rfl⟩ := h
  exact failsOnly_ok a

end

/-! ### Malformed texts -/

/-- The failure of a text that is malformed. -/
def ProofError.IsMalformed (e : ProofError) : Prop := ∃ fault, e = .malformed fault

/-- Reading a text fails only if it is malformed. -/
theorem failsOnly_isMalformed_ofSyntax {α : Type} (x : Except SyntaxError α) :
    FailsOnly ProofError.IsMalformed (ProofError.ofSyntax x) := by
  cases x with
  | error fault => exact fun e he => ⟨fault, (Except.error.inj he).symm⟩
  | ok a => exact nofun

/-! ### Running out of steps -/

/-- The failure of a proof that runs out of the steps it may take. -/
def ProofError.outOf : Option Nat → ProofError
  | some steps => .exhausted steps
  | none => .endless

/-- A computation gives a result, unless a proof on the way runs out of steps. -/
abbrev OnlyRunsOut {α : Type} (limit : Option Nat) (x : Except ProofError α) : Prop :=
  FailsOnly (· = .outOf limit) x

/-- A proof only runs out of steps. -/
theorem Session.onlyRunsOut_prove (s : Session) (query : Term) :
    OnlyRunsOut s.limit (s.prove query) := by
  unfold prove
  intro e he
  split at he
  · rename_i n hlimit
    split at he <;> cases he
    exact (congrArg ProofError.outOf hlimit).symm
  · rename_i hlimit
    split at he <;> cases he
    exact (congrArg ProofError.outOf hlimit).symm

end ClauseForest
