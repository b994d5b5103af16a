/-
**Layouts of decimal numbers**

How a number is written is settled by a few decisions: which of two equally short and equally near
decimals stands for it, for which sizes the digits are written around a point and for which with an
exponent, whether a whole number ends in `.0`, and whether a positive exponent has a sign.

Main definitions:

* `Decimal.Layout` — these decisions;
* `Decimal.Layout.render` — a floating point number written in a layout;
* `Decimal.Layout.record`, `Decimal.Layout.json`, `Decimal.Layout.plain` — the layouts of leaf records,
  of saved models, and of predicted values.
-/

import ClauseForest.Decimal.Shortest

set_option relaxedAutoImplicit false
set_option autoImplicit false

namespace ClauseForest.Decimal

/-- The decisions that settle how a number is written. -/
structure Layout where
  /-- Which of two equally near decimals is taken. -/
  tie : Tie
  /-- Whether a number whose first digit counts `10 ^ e` is written around a point. -/
  isPositional : Int → Bool
  /-- Whether a whole number that is written around a point ends in `.0`. -/
  keepsPoint : Bool
  /-- Whether a positive exponent has a sign. -/
  signsExponent : Bool

namespace Layout

/-- Leaf records: a point from `10 ^ -4` up to `10 ^ 16`. -/
def record : Layout := ⟨.up, fun e => -4 ≤ e ∧ e < 16, true, false⟩

/-- Saved models: a point from `10 ^ -5` up to `10 ^ 16`, and signed exponents beyond. -/
def json : Layout := ⟨.toEven, fun e => -5 ≤ e ∧ e < 16, true, true⟩

/-- Predicted values: never an exponent, and no point in a whole number. -/
def plain : Layout := ⟨.up, fun _ => true, false, false⟩

/-- Digits written around a point: `place` of them stand before it. -/
def positional (layout : Layout) (digits : List Char) (place : Int) : List Char :=
  if place ≤ 0 then '0' :: '.' :: List.replicate (-place).toNat '0' ++ digits
  else if place < digits.length then
    digits.take place.toNat ++ '.' :: digits.drop place.toNat
  else
    digits ++ List.replicate (place.toNat - digits.length) '0' ++
      if layout.keepsPoint then ['.', '0'] else []

/-- Digits written with one of them before the point, and the exponent of the first digit. -/
def scientific (layout : Layout) (digits : List Char) (exponent : Int) : List Char :=
  let fraction := digits.drop 1
  let sign := if exponent < 0 then ['-'] else if layout.signsExponent then ['+'] else []
  digits.take 1 ++ (if fraction.isEmpty then [] else '.' :: fraction) ++
    'e' :: sign ++ Nat.toDigits 10 exponent.natAbs

/-- The digits of a decimal without zeros at the end. -/
def trimZeros (digits : List Char) : List Char :=
  (digits.reverse.dropWhile (· == '0')).reverse

/-- A magnitude written in a layout. -/
def magnitude (layout : Layout) (x : Binary) : List Char :=
  if x.significand = 0 then '0' :: if layout.keepsPoint then ['.', '0'] else []
  else
    let d := shortest layout.tie x
    let all := Nat.toDigits 10 d.coefficient
    let place := d.exponent + (all.length : Nat)
    if layout.isPositional (place - 1) then layout.positional (trimZeros all) place
    else layout.scientific (trimZeros all) (place - 1)

/-- A floating point number written in a layout. -/
def render (layout : Layout) (x : Float) : String :=
  match Shape.ofFloat x with
  | .nan => "NaN"
  | .infinite negative => if negative then "-inf" else "inf"
  | .finite negative m =>
    String.ofList (if negative then '-' :: layout.magnitude m else layout.magnitude m)

end Layout

end ClauseForest.Decimal
