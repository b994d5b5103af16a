/-
**The value of a number literal**

What a number literal stands for depends on what is expected.  A count must be a plain natural number
of at most 64 bits.  Any other number is read as a floating point number in the quick way: its digits
are collected into a 64 bit number as long as they fit, digits that no longer fit are dropped, and one
multiplication or division by a power of ten follows.  The result may be off by a unit in the last
place; numbers too large for the range are refused.

Main definitions:

* `Json.count?` — the value of a literal as a count;
* `Json.float?` — the value of a literal as a floating point number.
-/

set_option relaxedAutoImplicit false
set_option autoImplicit false

namespace ClauseForest.Json

/-- The largest number of 64 bits. -/
def maxCount : Nat := Nat.pow 2 64 - 1

/-- The value of a digit. -/
def digitValue (c : Char) : Nat := c.toNat - '0'.toNat

/-- The number after the digits were appended to it as long as it fits into 64 bits, and the digits that
did not fit. -/
def appendDigits (n : Nat) : List Char → Nat × List Char
  | [] => (n, [])
  | c :: rest =>
    let next := 10 * n + digitValue c
    if next ≤ maxCount then appendDigits next rest else (n, c :: rest)

/-- The value of a literal as a count. -/
def count? (literal : List Char) : Option Nat :=
  if literal.all Char.isDigit then
    match appendDigits 0 literal with
    | (n, []) => some n
    | _ => none
  else none

/-- A number times a power of ten, in steps of at most 308.  A number too large is refused. -/
def scale? : Nat → Float → Int → Option Float
  | 0, x, _ => some x
  | steps + 1, x, exponent =>
    if exponent.natAbs ≤ 308 then
      let power := Float.ofScientific 1 false exponent.natAbs
      if exponent < 0 then some (x / power)
      else
        let product := x * power
        if product.isInf then none else some product
    else if x == 0.0 then some x
    else if exponent < 0 then
      scale? steps (x / Float.ofScientific 1 false 308) (exponent + 308)
    else none

/-- The exponent written at the end of a literal.  One beyond 32 bits is cut off there. -/
def writtenExponent : List Char → Int
  | [] => 0
  | _ :: text =>
    let digits := text.dropWhile fun c => c == '+' || c == '-'
    let size : Nat := min (digits.foldl (fun n c => 10 * n + digitValue c) 0) (Nat.pow 2 31)
    if text.head? = some '-' then -size else size

/-- The value of a literal without a sign as a floating point number. -/
def unsignedFloat? (literal : List Char) : Option Float :=
  let whole := literal.takeWhile Char.isDigit
  let rest := literal.dropWhile Char.isDigit
  let fraction := if rest.head? = some '.' then (rest.drop 1).takeWhile Char.isDigit else []
  let (n, left) := appendDigits 0 whole
  let (n, dropped) := appendDigits n fraction
  let exponent := writtenExponent (literal.dropWhile fun c => !(c == 'e' || c == 'E'))
  let place : Int := (left.length : Int) - (fraction.length - dropped.length : Nat)
  scale? 8 (Float.ofNat n) (place + exponent)

/-- The value of a literal as a floating point number. -/
def float? (literal : List Char) : Option Float :=
  match literal with
  | '-' :: unsigned => (unsignedFloat? unsigned).map fun x => -x
  | _ => unsignedFloat? literal

end ClauseForest.Json
