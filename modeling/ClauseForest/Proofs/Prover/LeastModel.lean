/-
**The least model of a program**

What follows from a list of rules is said without any search.  The variables of a rule stand for all
constants, so a rule speaks for all its instances; a term without variables is derivable when it is
the head of an instance all of whose conditions are derivable.  Derivability is the least set of
terms that the rules keep closed.

Main definitions:

* `Derivable` — the terms that follow from a list of rules;
* `IsModel` — a set of terms that is closed under a list of rules;
* `chainRules`, `chainClause` — a chain of edges and a clause that calls itself, as an example.

Main results:

* `derivable_iff_forall_isModel` — **the derivable terms are the least model**.
-/

import ClauseForest.Logic.Rule
import ClauseForest.Proofs.Logic.Grounding

set_option relaxedAutoImplicit false
set_option autoImplicit false

namespace ClauseForest

/-- A term that follows from a list of rules. -/
inductive Derivable (program : List Rule) : Term → Prop
  /-- The head of an instance of a rule follows from its conditions. -/
  | of_rule {rule : Rule} (hrule : rule ∈ program) (θ : Grounding)
      (hbody : ∀ literal ∈ rule.body, Derivable program (θ.term literal)) :
      Derivable program (θ.term rule.head)

/-- A set of terms that holds the head of an instance of a rule whenever it holds the body. -/
def IsModel (program : List Rule) (model : Term → Prop) : Prop :=
  ∀ rule ∈ program, ∀ θ : Grounding, (∀ literal ∈ rule.body, model (θ.term literal)) →
    model (θ.term rule.head)

/-- The derivable terms are the least model. -/
theorem derivable_iff_forall_isModel {program : List Rule} {t : Term} :
    Derivable program t ↔ ∀ model, IsModel program model → model t := by
  constructor
  · intro h model hmodel
    induction h with
    | of_rule hrule θ _ ih => exact hmodel _ hrule θ ih
  · intro h
    exact h (Derivable program) fun rule hrule θ hbody => .of_rule hrule θ hbody

/-- Only terms without variables are derivable. -/
theorem Derivable.isGround {program : List Rule} {t : Term} (h : Derivable program t) :
    t.IsGround := by
  cases h with
  | of_rule hrule θ hbody => exact θ.isGround_term _

/-! ### A chain of edges -/

/-- Two edges in a row, and the rule that an edge leads from its start to its end. -/
def chainRules : List Rule :=
  [⟨⟨"edge", ["a", "b"]⟩, []⟩, ⟨⟨"edge", ["b", "c"]⟩, []⟩,
    ⟨⟨"reach", ["X", "Y"]⟩, [⟨"edge", ["X", "Y"]⟩]⟩]

/-- The clause that prolongs a way by an edge at its start. -/
def chainClause : Rule :=
  ⟨⟨"reach", ["X", "Z"]⟩, [⟨"edge", ["X", "Y"]⟩, ⟨"reach", ["Y", "Z"]⟩]⟩

end ClauseForest
