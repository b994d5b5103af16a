/-
**The value of a floating point number**

A finite number is `± m · 2 ^ q` with natural `m`.  The numbers that are nearest to it lie at a distance
of one unit `2 ^ q` above, and of one unit below, or of half a unit below where the exponent changes.

Main definitions:

* `Decimal.Binary` — the magnitude `m · 2 ^ q`;
* `Decimal.Shape` — not a number, infinite, or finite;
* `Decimal.Shape.ofFloat` — the shape of a floating point number.
-/

set_option relaxedAutoImplicit false
set_option autoImplicit false

namespace ClauseForest.Decimal

/-- The magnitude `significand · 2 ^ exponent`. -/
structure Binary where
  significand : Nat
  exponent : Int
  /-- Whether the next smaller number is only half a unit away. -/
  narrowBelow : Bool
deriving DecidableEq, Repr

/-- What a floating point number stands for. -/
inductive Shape where
  | nan
  | infinite (negative : Bool)
  | finite (negative : Bool) (magnitude : Binary)
deriving DecidableEq, Repr

/-- The magnitude of a finite number with the given fields. -/
def Binary.ofFields (exponent fraction : Nat) : Binary :=
  if exponent = 0 then ⟨fraction, -1074, false⟩
  else ⟨Nat.pow 2 52 + fraction, exponent - 1075, fraction = 0 ∧ 1 < exponent⟩

/-- What the 64 bits of a floating point number stand for. -/
def Shape.ofBits (bits : Nat) : Shape :=
  let negative : Bool := bits / Nat.pow 2 63 = 1
  let exponent := bits / Nat.pow 2 52 % Nat.pow 2 11
  let fraction := bits % Nat.pow 2 52
  if exponent = 2047 then if fraction = 0 then .infinite negative else .nan
  else .finite negative (.ofFields exponent fraction)

/-- What a floating point number stands for. -/
def Shape.ofFloat (x : Float) : Shape := .ofBits x.toBits.toNat

end ClauseForest.Decimal
