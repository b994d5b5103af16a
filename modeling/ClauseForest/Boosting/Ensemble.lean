/-
**Ensembles of trees**

An ensemble predicts the sum of the values that its trees give to an example.  A tree that gives no
value adds nothing.  For classification the sum is added to the log odds of the prior probability one
half, which are zero, and advice may add to the gradient.

Main definitions:

* `Ensemble` — trees and the facts that they are evaluated against;
* `Ensemble.sum` — the sum of the values of an example;
* `Ensemble.advice` — the balance of the advice for an example;
* `Ensemble.gradient` — the gradient of an example of a data set;
* `Dataset.updateGradients` — **all or nothing**: every current value becomes a gradient, unless a
  proof fails;
* `Dataset.infer` — the predictions for a data set.
-/

import ClauseForest.Boosting.Loss
import ClauseForest.Tree.Growth

set_option relaxedAutoImplicit false
set_option autoImplicit false

namespace ClauseForest

/-- Trees, and what they are evaluated against. -/
structure Ensemble where
  trees : List LearnedTree
  facts : RuleBase
  /-- How many steps a proof may take. -/
  limit : Option Nat

/-- The log odds of the prior probability one half. -/
def logPrior : Float := 0.0

namespace Ensemble

/-- The ensemble of trees with the facts of a data set. -/
def ofDataset (trees : List LearnedTree) (d : Dataset) (limit : Option Nat) :
    Except ProofError Ensemble := do
  return ⟨trees, ← ProofError.ofSyntax (RuleBase.parse d.facts), limit⟩

/-- The sum of the values that trees give to a query, added to a start from the first to the last. -/
def addValues (e : Ensemble) (query : Term) :
    Float → List LearnedTree → Except ProofError Float
  | sum, [] => .ok sum
  | sum, tree :: trees => do
    match ← tree.valueOf e.facts query e.limit with
    | some value => e.addValues query (sum + value) trees
    | none => e.addValues query sum trees

/-- The sum of the values that the trees give to an example. -/
def sum (e : Ensemble) (text : String) : Except ProofError Float := do
  e.addValues (← ProofError.ofSyntax (Term.parse text)) 0.0 e.trees

/-- What a piece of advice says about a target: for it, against it, both or nothing. -/
def vote (target : String) (advice : Advice) : Int :=
  (if target ∈ advice.preferred then 1 else 0) - if target ∈ advice.nonPreferred then 1 else 0

/-- The sum of the votes of the advice whose clause a query satisfies. -/
def addVotes (e : Ensemble) (query : Term) : Int → List Advice → Except ProofError Int
  | sum, [] => .ok sum
  | sum, advice :: others => do
    let clause ← ProofError.ofSyntax (Rule.parse advice.clause)
    if ← Session.prove ⟨e.facts, some clause, e.limit⟩ query then
      e.addVotes query (sum + vote query.predicate advice) others
    else e.addVotes query sum others

/-- The balance of the advice for an example, as a number. -/
def advice (e : Ensemble) (d : Dataset) (text : String) : Except ProofError Float := do
  return Float.ofInt (← e.addVotes (← ProofError.ofSyntax (Term.parse text)) 0 d.advice)

/-- The gradient of a classification example with an ensemble sum: its label minus the predicted
probability, and the balance of the advice where there is any. -/
def labelGradient (e : Ensemble) (d : Dataset) (text : String) (sum : Float) :
    Except ProofError Float := do
  let label := if d.isPositive text then 1.0 else 0.0
  let gradient := label - sigmoid (logPrior + sum)
  if d.usesAdvice then return gradient + (← e.advice d text) else return gradient

/-- The gradient of an example, if it has one: a regression example without a true value has none. -/
def gradient (e : Ensemble) (d : Dataset) (loss : Loss) (text : String) :
    Except ProofError (Option Float) := do
  let sum ← e.sum text
  if d.isRegression then return (d.trueValue text).map fun actual => loss.gradient actual sum
  else return some (← e.labelGradient d text sum)

/-- The prediction for an example: the sum, or the probability that it is positive. -/
def predict (e : Ensemble) (d : Dataset) (text : String) : Except ProofError Float := do
  let sum ← e.sum text
  return if d.isRegression then sum else sigmoid (logPrior + sum)

end Ensemble

namespace Dataset

/-- The data set with the gradient of every example as its current value. -/
def updateGradients (d : Dataset) (trees : List LearnedTree) (loss : Loss) (limit : Option Nat) :
    Except ProofError Dataset := do
  let e ← Ensemble.ofDataset trees d limit
  let updates ← d.examples.mapM fun text => do
    return (← e.gradient d loss text).map fun value => (text, value)
  return d.setValues (updates.filterMap id)

/-- The predictions for the examples, in order. -/
def predictions (d : Dataset) (trees : List LearnedTree) (limit : Option Nat) :
    Except ProofError (List (String × Float)) := do
  let e ← Ensemble.ofDataset trees d limit
  d.examples.mapM fun text => do return (text, ← e.predict d text)

/-- The predictions for the examples, in order, and the data set with them as current values. -/
def infer (d : Dataset) (trees : List LearnedTree) (limit : Option Nat) :
    Except ProofError (List (String × Float) × Dataset) := do
  let predicted ← d.predictions trees limit
  return (predicted, d.setValues predicted)

/-- The sum of the values that trees give to an example. -/
def sumOfTrees (d : Dataset) (trees : List LearnedTree) (text : String) :
    Except ProofError Float := do
  (← Ensemble.ofDataset trees d none).sum text

/-- The balance of the advice for an example. -/
def adviceFor (d : Dataset) (text : String) : Except ProofError Float := do
  (← Ensemble.ofDataset [] d none).advice d text

end Dataset

end ClauseForest
