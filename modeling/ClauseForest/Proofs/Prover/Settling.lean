/-
**Computations that settle**

Whatever is computed from proofs may fail in three ways: a text on the way is malformed, a proof runs
into its limit, or a proof goes on forever.  A computation *settles* when only the first can happen;
then every proof on the way has an answer.  What is known of the result is said along with it.

Proofs from facts without conditions and from one clause that does not call itself always settle.

Main definitions:

* `Settles` — a computation gives a result with a property, or meets a malformed text;
* `RuleBase.IsBare` — rules without conditions;
* `Rule.CallsOthers` — a clause that does not call itself.

Main results:

* `settles_iff` — settling in terms of the reasons to fail;
* `Session.settles_prove` — **proofs from bare facts and a clause that does not call itself settle**.
-/

import ClauseForest.Proofs.Prover.Dependencies
import ClauseForest.Proofs.Prover.Failure
import Mathlib.Logic.Basic

set_option relaxedAutoImplicit false
set_option autoImplicit false

namespace ClauseForest

/-- A computation gives a result with a property, unless a text on the way is malformed. -/
def Settles {α : Type} (x : Except ProofError α) (P : α → Prop) : Prop :=
  match x with
  | .ok a => P a
  | .error e => ∃ fault, e = .malformed fault

section

variable {α : Type} {P : α → Prop}

/-- A property of the result may be replaced by one that the result has as well. -/
theorem Settles.mono {x : Except ProofError α} {P' : α → Prop} (h : Settles x P)
    (himp : ∀ a, x = .ok a → P a → P' a) : Settles x P' := by
  cases x with
  | error e => exact h
  | ok a => exact himp a rfl h

/-- A computation settles if it meets malformed texts at worst, and its results have the property. -/
theorem settles_iff {x : Except ProofError α} : Settles x P ↔
    FailsOnly ProofError.IsMalformed x ∧ ∀ a, x = .ok a → P a := by
  cases x with
  | error e => exact ⟨fun h => ⟨fun e' he' => Except.error.inj he' ▸ h, nofun⟩, fun h => h.1 e rfl⟩
  | ok a => exact ⟨fun h => ⟨nofun, fun a' ha' => Except.ok.inj ha' ▸ h⟩, fun h => h.2 a rfl⟩

theorem settles_true_iff {x : Except ProofError α} :
    Settles x (fun _ => True) ↔ FailsOnly ProofError.IsMalformed x := by
  rw [settles_iff]
  exact and_iff_left fun _ _ => trivial

end

/-! ### Proofs -/

/-- Rules without conditions. -/
def RuleBase.IsBare (base : RuleBase) : Prop :=
  ∃ rules, base = .ofList rules ∧ ∀ rule ∈ rules, rule.body = []

/-- No literal of the body has the key of the head. -/
def Rule.CallsOthers (r : Rule) : Prop := ∀ literal ∈ r.body, literal.key ≠ r.head.key

/-- Proofs from bare facts and a clause that does not call itself settle. -/
theorem Session.settles_prove {facts : RuleBase} (hfacts : facts.IsBare) {clause : Rule}
    (hclause : clause.CallsOthers) (query : Term) :
    Settles (prove ⟨facts, some clause, none⟩ query) fun _ => True := by
  obtain ⟨rules, rfl, hrules⟩ := hfacts
  obtain ⟨-, answer, -, hprove⟩ :=
    exists_prove_of_isAcyclic rules (some clause) (isAcyclic_of_bare hrules hclause) query
  rw [hprove]
  trivial

end ClauseForest
