/-
**Models**

A model is what is kept of a boosting run: the parameters that it was learned with, and its trees.

Main definitions:

* `ModelParams`, `Model` — parameters, and parameters with trees;
* `Model.toJson`, `Model.render` — a model as JSON.
-/

import ClauseForest.Boosting.Training
import ClauseForest.Json.Printer

set_option relaxedAutoImplicit false
set_option autoImplicit false

namespace ClauseForest

/-- How a model was learned. -/
structure ModelParams where
  /-- The name of the target predicate. -/
  target : String
  options : DataOptions
  config : BoostConfig
deriving BEq

/-- A learned model. -/
structure Model where
  params : ModelParams
  trees : List LearnedTree
deriving BEq

/-! ### Models as JSON -/

/-- A number as JSON.  There is no JSON number that is not finite. -/
def Json.ofFloat (x : Float) : Json :=
  if x.isFinite then .number (Decimal.Layout.json.render x).toList else .null

/-- The options of a data set as JSON. -/
def DataOptions.toJson (options : DataOptions) : Json :=
  .ofMembers [("regression", .bool options.regression), ("advice", .bool options.advice)]

/-- A loss as JSON. -/
def Loss.toJson : Loss → Json
  | .leastSquares => .ofMembers [("kind", .ofString "least_squares")]
  | .leastAbsoluteDeviation => .ofMembers [("kind", .ofString "least_absolute_deviation")]
  | .huber delta => .ofMembers [("kind", .ofString "huber"), ("delta", .ofFloat delta)]

/-- The parameters of a tree as JSON. -/
def TreeConfig.toJson (config : TreeConfig) : Json :=
  .ofMembers [("max_depth", .ofNat config.maxDepth), ("parallel", .bool config.parallel),
    ("step_limit", (config.stepLimit.map Json.ofNat).getD .null)]

/-- The parameters of a boosting run as JSON. -/
def BoostConfig.toJson (config : BoostConfig) : Json :=
  .ofMembers [("trees", .ofNat config.trees), ("loss", config.loss.toJson),
    ("tree", config.tree.toJson)]

/-- The parameters of a model as JSON. -/
def ModelParams.toJson (params : ModelParams) : Json :=
  .ofMembers [("target", .ofString params.target), ("options", params.options.toJson),
    ("config", params.config.toJson)]

/-- A tree as JSON: its leaf records. -/
def LearnedTree.toJson (tree : LearnedTree) : Json := .array (tree.records.map Json.ofString)

/-- A model as JSON. -/
def Model.toJson (m : Model) : Json :=
  .ofMembers [("params", m.params.toJson), ("trees", .array (m.trees.map LearnedTree.toJson))]

/-- The text of a saved model. -/
def Model.render (m : Model) : String := m.toJson.render

end ClauseForest
