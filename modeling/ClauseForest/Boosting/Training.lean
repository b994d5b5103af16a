/-
**Boosting**

Trees are learned one after another.  Each is fitted to the current values of the examples, which are
then replaced by the gradients of the ensemble learned so far.  When a proof fails, learning stops and
the data set keeps the values of the last update.

Main definitions:

* `BoostConfig` — the parameters of a boosting run;
* `Dataset.learn` — the trees of a boosting run, and the data set after it.
-/

import ClauseForest.Boosting.Ensemble

set_option relaxedAutoImplicit false
set_option autoImplicit false

namespace ClauseForest

/-- The parameters of a boosting run. -/
structure BoostConfig where
  /-- The number of trees. -/
  trees : Nat
  loss : Loss
  /-- The parameters of each tree. -/
  tree : TreeConfig
deriving BEq

/-- Ten trees for the least squares loss. -/
def BoostConfig.default : BoostConfig := ⟨10, .leastSquares, .default⟩

namespace Dataset

/-- One round: a tree is learned, and the values are updated with it as the last of the trees. -/
def boost (d : Dataset) (config : BoostConfig) (trees : List LearnedTree) :
    Except ProofError (List LearnedTree × Dataset) := do
  let trees := trees ++ [← d.learnTree config.tree]
  return (trees, ← d.updateGradients trees config.loss config.tree.stepLimit)

/-- So many more rounds after the trees learned so far. -/
def learnMore (config : BoostConfig) :
    Nat → List LearnedTree → Dataset → Except ProofError (List LearnedTree) × Dataset
  | 0, trees, d => (.ok trees, d)
  | rounds + 1, trees, d =>
    match d.boost config trees with
    | .error e => (.error e, d)
    | .ok (trees, d) => learnMore config rounds trees d

/-- The trees of a boosting run, and the data set after it. -/
def learn (d : Dataset) (config : BoostConfig) : Except ProofError (List LearnedTree) × Dataset :=
  learnMore config config.trees [] d

end Dataset

end ClauseForest
