/-
**Losses and gradients**

The gradient of a regression example tells how its prediction should change; it depends on the loss.
A prediction without error has gradient zero whatever the loss.  Classification sums are log odds, which
the logistic function turns into probabilities.

Main definitions:

* `Loss`, `Loss.gradient` — the losses and their gradients;
* `sigmoid` — the logistic function.
-/

set_option relaxedAutoImplicit false
set_option autoImplicit false

namespace ClauseForest

/-- What a regression error costs. -/
inductive Loss where
  /-- The square of the error. -/
  | leastSquares
  /-- The size of the error. -/
  | leastAbsoluteDeviation
  /-- The size of an error above `delta`, the square of any other. -/
  | huber (delta : Float)
deriving BEq

/-- The sign of a number other than zero, as a number. -/
def signOf (x : Float) : Float := if 0.0 < x then 1.0 else if x < 0.0 then -1.0 else x

/-- The gradient of an example with a true value and a predicted one. -/
def Loss.gradient (loss : Loss) (actual predicted : Float) : Float :=
  let residual := actual - predicted
  if residual == 0.0 then 0.0
  else
    match loss with
    | .leastSquares => residual
    | .leastAbsoluteDeviation => signOf residual
    | .huber delta => if residual > delta then signOf residual else residual

/-- The logistic function `e ^ x / (1 + e ^ x)`, computed from a power of `e` that cannot overflow. -/
def sigmoid (x : Float) : Float :=
  if x ≥ 0.0 then 1.0 / (1.0 + (-x).exp)
  else
    let e := x.exp
    e / (1.0 + e)

end ClauseForest
