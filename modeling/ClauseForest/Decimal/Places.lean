/-
**A fixed number of places**

A number is rounded, at its exact value, to a fixed number of places after the point; a tie goes to the
even neighbour.

Main definitions:

* `Decimal.roundHalfEven` — a quotient of natural numbers rounded to the nearest one;
* `Decimal.renderPlaces` — a floating point number with a fixed number of places.
-/

import ClauseForest.Decimal.Binary

set_option relaxedAutoImplicit false
set_option autoImplicit false

namespace ClauseForest.Decimal

/-- The natural number nearest to a quotient; of two equally near ones, the even one. -/
def roundHalfEven (num den : Nat) : Nat :=
  let below := num / den
  let rest := num % den
  if 2 * rest < den ∨ (2 * rest = den ∧ below % 2 = 0) then below else below + 1

/-- Digits filled up with zeros in front to a least number of them. -/
def padZeros (count : Nat) (digits : List Char) : List Char :=
  List.replicate (count - digits.length) '0' ++ digits

/-- A magnitude with a positive number of places after the point. -/
def magnitudePlaces (places : Nat) (x : Binary) : List Char :=
  let scaled := roundHalfEven (x.significand * Nat.pow 2 x.exponent.toNat * Nat.pow 10 places)
    (Nat.pow 2 (-x.exponent).toNat)
  let digits := padZeros (places + 1) (Nat.toDigits 10 scaled)
  digits.take (digits.length - places) ++ '.' :: digits.drop (digits.length - places)

/-- A floating point number with a positive number of places after the point. -/
def renderPlaces (places : Nat) (x : Float) : String :=
  match Shape.ofFloat x with
  | .nan => "NaN"
  | .infinite negative => if negative then "-inf" else "inf"
  | .finite negative m =>
    String.ofList (if negative then '-' :: magnitudePlaces places m else magnitudePlaces places m)

end ClauseForest.Decimal
