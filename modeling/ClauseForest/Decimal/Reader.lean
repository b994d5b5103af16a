/-
**Reading decimal numbers**

A decimal number is written with an optional sign, digits with an optional point among them, at least
one digit on one of its sides, and an optional exponent; or it is one of the words `inf`, `infinity`
and `nan` in any letter case, with an optional sign.  Nothing else may stand in the text.  The value is
the floating point number nearest to the decimal, which is infinite or zero beyond the range.

Main definitions:

* `Decimal.Literal` — the digits and the exponent of an unsigned decimal, and its value;
* `Decimal.read?` — the value of a text, if it is a decimal number.
-/

set_option relaxedAutoImplicit false
set_option autoImplicit false

namespace ClauseForest.Decimal

/-- An unsigned decimal `coefficient · 10 ^ exponent`. -/
structure Literal where
  coefficient : Nat
  exponent : Int
deriving DecidableEq, Repr

/-- The number that digits stand for. -/
def natOfDigits (digits : List Char) : Nat :=
  digits.foldl (fun n c => 10 * n + (c.toNat - '0'.toNat)) 0

/-- The nearest floating point number.  Magnitudes far outside the range are settled without computing
the power of ten. -/
def Literal.toFloat (l : Literal) : Float :=
  let size : Int := l.exponent + (l.coefficient.log2 * 30103 / 100000 : Nat)
  if l.coefficient = 0 ∨ size < -400 then 0.0
  else if 400 < size then 1.0 / 0.0
  else Float.ofScientific l.coefficient (l.exponent < 0) l.exponent.natAbs

/-- A sign and the text after it. -/
def readSign : List Char → Bool × List Char
  | '-' :: rest => (true, rest)
  | '+' :: rest => (false, rest)
  | text => (false, text)

/-- A whole number with an optional sign and at least one digit. -/
def readInt? (text : List Char) : Option Int :=
  let (negative, digits) := readSign text
  if digits.isEmpty || !digits.all Char.isDigit then none
  else some (if negative then -(natOfDigits digits : Int) else natOfDigits digits)

/-- The exponent written after the digits: none, or a letter `e` and a whole number. -/
def readExponent? : List Char → Option Int
  | [] => some 0
  | c :: rest => if c == 'e' || c == 'E' then readInt? rest else none

/-- The digits after a point, if there is one, and the text after them. -/
def splitFraction : List Char → List Char × List Char
  | '.' :: rest => (rest.takeWhile Char.isDigit, rest.dropWhile Char.isDigit)
  | text => ([], text)

/-- An unsigned decimal. -/
def readLiteral? (text : List Char) : Option Literal :=
  let whole := text.takeWhile Char.isDigit
  let (fraction, rest) := splitFraction (text.dropWhile Char.isDigit)
  if whole.isEmpty && fraction.isEmpty then none
  else (readExponent? rest).map fun e => ⟨natOfDigits (whole ++ fraction), e - fraction.length⟩

/-- An unsigned number: a word or a decimal. -/
def readUnsigned? (text : List Char) : Option Float :=
  let word := text.map Char.toLower
  if word = ['i', 'n', 'f'] ∨ word = ['i', 'n', 'f', 'i', 'n', 'i', 't', 'y'] then some (1.0 / 0.0)
  else if word = ['n', 'a', 'n'] then some (0.0 / 0.0)
  else (readLiteral? text).map Literal.toFloat

/-- The value of a decimal number. -/
def read? (text : List Char) : Option Float :=
  let (negative, unsigned) := readSign text
  (readUnsigned? unsigned).map fun x => if negative then -x else x

end ClauseForest.Decimal
