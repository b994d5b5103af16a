/-
**What happens to a data set**

A data set is built up by operations in any order.  Some of them may fail.  An operation that fails may
have done part of its work by then: examples are added up to the line that holds none, and literals are
taken in although their target turns out not to be declared.  Gradients and predictions are stored
together or not at all.

Main definitions:

* `Dataset.Operation` — what can be done to a data set;
* `Dataset.after` — **the data set after a history** of operations.

Main results:

* `Dataset.exists_addExamples` — what lines with examples do;
* `Dataset.sameProblem_addExamples`, `Dataset.exists_setValues_of_updateGradients`,
  `Dataset.eq_setValues_of_infer` — examples, gradients and predictions keep the problem.
-/

import ClauseForest.Boosting.Ensemble
import ClauseForest.Proofs.Dataset.Values

set_option relaxedAutoImplicit false
set_option autoImplicit false

namespace ClauseForest

/-- A table keeps its examples when one of them, or a new one, is given a value. -/
theorem ValueTable.prefix_keys_put (t : ValueTable) (key : String) (value : Float) :
    t.keys <+: (t.put key value).keys := by
  rw [keys_put]
  split
  · exact List.prefix_rfl
  · exact List.prefix_append _ _

namespace Dataset

/-! ### Operations -/

/-- What can be done to a data set. -/
inductive Operation where
  | setFacts (facts : List String)
  | addPositives (target : String) (texts : List String)
  | addNegatives (target : String) (texts : List String)
  | addExamples (target : String) (lines : List String)
  | setBackground (target : String) (background : List ModeDecl)
  | addAdvice (advice : Advice)
  | setValue (text : String) (value : Float)
  | updateGradients (trees : List LearnedTree) (loss : Loss) (limit : Option Nat)
  | infer (trees : List LearnedTree) (limit : Option Nat)

namespace Operation

/-- The data set after an operation, whether the operation failed or not. -/
def apply (d : Dataset) : Operation → Dataset
  | .setFacts facts => d.setFacts facts
  | .addPositives target texts => d.addPositives target texts
  | .addNegatives target texts => d.addNegatives target texts
  | .addExamples target lines => (d.addExamples target lines).1
  | .setBackground target background => (d.setBackground target background).1
  | .addAdvice advice => d.addAdvice advice
  | .setValue text value => d.setValue text value
  | .updateGradients trees loss limit =>
    match d.updateGradients trees loss limit with
    | .ok d' => d'
    | .error _ => d
  | .infer trees limit =>
    match d.infer trees limit with
    | .ok (_, d') => d'
    | .error _ => d

end Operation

/-- The data set after a history, from the first operation to the last. -/
def after (options : DataOptions) (history : List Operation) : Dataset :=
  history.foldl Operation.apply (.empty options)

theorem after_concat (options : DataOptions) (history : List Operation) (op : Operation) :
    after options (history ++ [op]) = op.apply (after options history) := by
  simp [after]

/-! ### What operations change -/

/-- A line with an example gives it a current and a true value, and does nothing else. -/
theorem exists_of_addExample {d d' : Dataset} {target line : String}
    (h : d.addExample target line = .ok d') :
    ∃ estimates trueValues, d' = { d with estimates, trueValues } ∧
      d.estimates.keys <+: estimates.keys ∧
      (d.estimates.keys = d.trueValues.keys → estimates.keys = trueValues.keys) := by
  unfold addExample at h
  split at h
  · cases h
  · split at h <;> cases h
    · refine ⟨_, _, rfl, d.estimates.prefix_keys_put _ _, fun heq => ?_⟩
      rw [ValueTable.keys_put, ValueTable.keys_put, heq]
    · exact ⟨_, _, rfl, List.prefix_rfl, id⟩

/-- Lines with examples give them current and true values, also those that precede a line that holds
none, and do nothing else. -/
theorem exists_addExamples (d : Dataset) (target : String) (lines : List String) :
    ∃ estimates trueValues, (d.addExamples target lines).1 = { d with estimates, trueValues } ∧
      d.estimates.keys <+: estimates.keys ∧
      (d.estimates.keys = d.trueValues.keys → estimates.keys = trueValues.keys) := by
  induction lines generalizing d with
  | nil => exact ⟨_, _, rfl, List.prefix_rfl, id⟩
  | cons line lines ih =>
      rw [addExamples]
      cases hadd : d.addExample target line with
      | error e => exact ⟨_, _, rfl, List.prefix_rfl, id⟩
      | ok between =>
          obtain ⟨first, firstTrue, rfl, hfirst, hfirstTrue⟩ := exists_of_addExample hadd
          obtain ⟨estimates, trueValues, heq, hrest, hrestTrue⟩ :=
            ih { d with estimates := first, trueValues := firstTrue }
          exact ⟨estimates, trueValues, heq, hfirst.trans hrest, hrestTrue ∘ hfirstTrue⟩

/-- Examples change nothing but the examples. -/
theorem sameProblem_addExamples (d : Dataset) (target : String) (lines : List String) :
    d.SameProblem (d.addExamples target lines).1 := by
  obtain ⟨_, _, heq, -⟩ := d.exists_addExamples target lines
  exact heq ▸ ⟨rfl, rfl, rfl, rfl, rfl, rfl⟩

/-- An update of the gradients gives values. -/
theorem exists_setValues_of_updateGradients {d d' : Dataset} {trees : List LearnedTree} {loss : Loss}
    {limit : Option Nat} (h : d.updateGradients trees loss limit = .ok d') :
    ∃ values, d' = d.setValues values := by
  obtain ⟨e, -, hupdates⟩ := bind_eq_ok_iff.1 h
  obtain ⟨updates, -, hset⟩ := bind_eq_ok_iff.1 hupdates
  exact ⟨_, (Except.ok.inj hset).symm⟩

/-- An update of the gradients keeps the problem. -/
theorem sameProblem_of_updateGradients {d d' : Dataset} {trees : List LearnedTree} {loss : Loss}
    {limit : Option Nat} (h : d.updateGradients trees loss limit = .ok d') : d.SameProblem d' := by
  obtain ⟨values, rfl⟩ := exists_setValues_of_updateGradients h
  exact d.sameProblem_setValues values

/-- The values that predictions give are the predictions. -/
theorem eq_setValues_of_infer {d d' : Dataset} {trees : List LearnedTree} {limit : Option Nat}
    {predictions : List (String × Float)} (h : d.infer trees limit = .ok (predictions, d')) :
    d' = d.setValues predictions := by
  obtain ⟨predicted, -, hset⟩ := bind_eq_ok_iff.1 h
  cases hset
  rfl

end Dataset

end ClauseForest
