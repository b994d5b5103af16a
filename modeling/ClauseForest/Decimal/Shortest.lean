/-
**The fewest digits that read back**

Every decimal number that is nearer to a floating point number than to its neighbours reads back as
it.  These decimals form an interval around the number, whose ends belong to it exactly when the
significand is even.  The shortest of them lie on the coarsest decimal grid that meets the interval, and
a grid that meets it does so in one of the two points next to the number.  Of two such points the
nearer is taken.

Distances are compared as natural numbers, with quarters of a unit as the measure.

Main definitions:

* `Decimal.Digits` — a decimal number `coefficient · 10 ^ exponent`;
* `Decimal.Tie` — which of two equally near points is taken;
* `Decimal.onGrid?` — the point of a decimal grid that reads back;
* `Decimal.shortest` — the shortest decimal that reads back.
-/

import ClauseForest.Decimal.Binary

set_option relaxedAutoImplicit false
set_option autoImplicit false

namespace ClauseForest.Decimal

/-- The decimal number `coefficient · 10 ^ exponent`. -/
structure Digits where
  coefficient : Nat
  exponent : Int
deriving DecidableEq, Repr

/-- Which of two equally near decimals is taken. -/
inductive Tie where
  /-- The larger one. -/
  | up
  /-- The one with an even last digit. -/
  | toEven
deriving DecidableEq, Repr

/-- The larger or the even one of a number and its successor. -/
def Tie.choose : Tie → Nat → Nat
  | .up, n => n + 1
  | .toEven, n => if n % 2 = 0 then n else n + 1

/-- The point of the grid of step `10 ^ grid` that reads back as a positive number, if there is one. -/
def onGrid? (tie : Tie) (x : Binary) (grid : Int) : Option Nat :=
  -- Quarters of the last place are counted, so that the ends of the interval are whole numbers; then
  -- both sides are multiplied by what makes `unit` and `step` whole.
  let unit := Nat.pow 2 (x.exponent - 2).toNat * Nat.pow 10 (-grid).toNat
  let step := Nat.pow 2 (2 - x.exponent).toNat * Nat.pow 10 grid.toNat
  let value := 4 * x.significand * unit
  let low := (4 * x.significand - if x.narrowBelow then 1 else 2) * unit
  let high := (4 * x.significand + 2) * unit
  let readsBack (point : Nat) : Bool :=
    if x.significand % 2 = 0 then low ≤ point * step ∧ point * step ≤ high
    else low < point * step ∧ point * step < high
  -- If any point of the grid reads back, one of the two next to the value does.
  let below := value / step
  match readsBack below, readsBack (below + 1) with
  | true, true =>
    let down := value - below * step
    let up := (below + 1) * step - value
    some (if down < up then below else if up < down then below + 1 else tie.choose below)
  | true, false => some below
  | false, true => some (below + 1)
  | false, false => none

/-- The first grid, from a coarse one on, that has a point which reads back. -/
def shortestFrom (tie : Tie) (x : Binary) : Nat → Int → Digits
  | 0, grid => ⟨(onGrid? tie x grid).getD 0, grid⟩
  | finer + 1, grid =>
    match onGrid? tie x grid with
    | some point => ⟨point, grid⟩
    | none => shortestFrom tie x finer (grid - 1)

/-- An exponent of ten above every point that reads back as a positive number.  The factor is a little
more than the logarithm of two. -/
def coarsestGrid (x : Binary) : Int :=
  (x.exponent + (x.significand.log2 + 1 : Nat)) * 30103 / 100000 + 1

/-- The shortest decimal that reads back as a positive number.  Seventeen digits always suffice. -/
def shortest (tie : Tie) (x : Binary) : Digits := shortestFrom tie x 20 (coarsestGrid x)

end ClauseForest.Decimal
