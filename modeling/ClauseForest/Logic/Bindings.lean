/-
**Bindings and one-sided unification**

A goal and the head of a rule are matched argument by argument, each under bindings of its own.  The
matching is one-sided: values flow from the goal into the rule head, and only the bindings of the rule
head grow.  An argument of the goal that has no value yet is accepted whatever stands against it, and
binds nothing.

A variable that is bound to the empty token counts as unbound.

Main definitions:

* `Bindings` — values of variables, with `Bindings.get?` and `Bindings.bind`;
* `Bindings.valueOf` — the value of an argument token;
* `unify` — the matching of two terms.

Main results:

* `Bindings.get?_bind_self`, `Bindings.get?_bind_of_ne` — what a binding changes;
* `unify_of_mismatch` — terms of different predicates or arities never match.
-/

import ClauseForest.Logic.Term
import ClauseForest.Logic.Variable

set_option relaxedAutoImplicit false
set_option autoImplicit false

namespace ClauseForest

/-! ### Bindings -/

/-- Values bound to variables, the latest binding first. -/
structure Bindings where
  /-- The bindings that were made, the latest first. -/
  entries : List (String × String)
deriving DecidableEq, Repr, Inhabited

namespace Bindings

/-- No bindings. -/
def empty : Bindings := ⟨[]⟩

/-- Whether nothing was ever bound; a binding to the empty token counts. -/
def isEmpty (b : Bindings) : Bool := b.entries.isEmpty

/-- The value of a variable.  The empty value counts as none. -/
def get? (b : Bindings) (var : String) : Option String :=
  (b.entries.lookup var).filter (· ≠ "")

/-- Binds a variable, whatever it was bound to before. -/
def bind (b : Bindings) (var value : String) : Bindings := ⟨(var, value) :: b.entries⟩

/-- The value of an argument token: a constant stands for itself. -/
def valueOf (b : Bindings) (token : String) : Option String :=
  if isVariable token then b.get? token else some token

@[simp] theorem get?_empty (var : String) : empty.get? var = none := rfl

theorem get?_bind_self (b : Bindings) (var : String) {value : String} (h : value ≠ "") :
    (b.bind var value).get? var = some value := by
  simp [get?, bind, h]

theorem get?_bind_of_ne (b : Bindings) {var other : String} (value : String) (h : other ≠ var) :
    (b.bind var value).get? other = b.get? other := by
  simp [get?, bind, List.lookup_cons, beq_eq_false_iff_ne.2 h]

end Bindings

/-! ### Matching -/

/-- The outcome of matching a term against another. -/
structure Unified where
  /-- Whether the terms agree. -/
  agrees : Bool
  /-- The bindings of the second term afterwards; those made before a disagreement are kept. -/
  bindings : Bindings
deriving DecidableEq, Repr

/-- Matches arguments pairwise, from the first that stand against each other to the last. -/
def unifyArgs (source : Bindings) : List String → List String → Bindings → Unified
  | arg :: args, slot :: slots, target =>
    match source.valueOf arg with
    | none => unifyArgs source args slots target
    | some value =>
      if isVariable slot then
        match target.get? slot with
        | none => unifyArgs source args slots (target.bind slot value)
        | some bound =>
          if bound = value then unifyArgs source args slots target else ⟨false, target⟩
      else if slot = value then unifyArgs source args slots target
      else ⟨false, target⟩
  | _, _, target => ⟨true, target⟩

/-- Matches a term under its bindings against another term, whose bindings may grow. -/
def unify (term : Term) (source : Bindings) (pattern : Term) (target : Bindings) : Unified :=
  if term.predicate = pattern.predicate ∧ term.arity = pattern.arity then
    unifyArgs source term.args pattern.args target
  else ⟨false, target⟩

theorem unify_of_mismatch {term pattern : Term} (source target : Bindings)
    (h : ¬ (term.predicate = pattern.predicate ∧ term.arity = pattern.arity)) :
    unify term source pattern target = ⟨false, target⟩ := if_neg h

end ClauseForest
