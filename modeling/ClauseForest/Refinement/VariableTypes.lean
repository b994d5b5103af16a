/-
**Types of variables**

The first type that is recorded for a variable stands; later ones are ignored.

Main definitions:

* `VariableTypes` — types by variable, with `VariableTypes.insert` and `VariableTypes.get?`;
* `VariableTypes.recordLiteral` — the types that a declaration gives to the variables of a literal.
-/

import ClauseForest.Logic.Term
import ClauseForest.Logic.Variable
import ClauseForest.Mode.Decl

set_option relaxedAutoImplicit false
set_option autoImplicit false

namespace ClauseForest

/-- Types of variables, in the order in which they were recorded. -/
structure VariableTypes where
  /-- The recorded pairs of a variable and a type. -/
  entries : List (String × String)
deriving DecidableEq, Repr, Inhabited

namespace VariableTypes

/-- No types. -/
def empty : VariableTypes := ⟨[]⟩

/-- The type of a variable. -/
def get? (types : VariableTypes) (var : String) : Option String := types.entries.lookup var

/-- Records the type of a variable, unless it has one. -/
def insert (types : VariableTypes) (var type : String) : VariableTypes :=
  if (types.get? var).isSome then types else ⟨types.entries ++ [(var, type)]⟩

/-- Records the type that a specification gives to an argument, if the argument is a variable. -/
def recordArg (types : VariableTypes) (arg : String) (spec : ArgSpec) : VariableTypes :=
  match spec.type? with
  | some type => if isClauseVariable arg then types.insert arg type else types
  | none => types

/-- Records the types of the variables of a literal, as declared. -/
def recordLiteral (types : VariableTypes) (literal : Term) (decl : ModeDecl) : VariableTypes :=
  (literal.args.zip decl.args).foldl (fun types (arg, spec) => types.recordArg arg spec) types

@[simp] theorem get?_empty (var : String) : empty.get? var = none := rfl

theorem get?_insert_self (types : VariableTypes) (var type : String) :
    (types.insert var type).get? var = some ((types.get? var).getD type) := by
  unfold insert
  cases h : types.get? var with
  | some old => simp [h]
  | none =>
    have h' : types.entries.lookup var = none := h
    simp [get?, List.lookup_append, h']

theorem get?_insert_of_ne (types : VariableTypes) {var other : String} (type : String)
    (h : other ≠ var) : (types.insert var type).get? other = types.get? other := by
  unfold insert
  split
  · rfl
  · simp [get?, List.lookup_append, List.lookup_cons, beq_eq_false_iff_ne.2 h]

end VariableTypes

end ClauseForest
