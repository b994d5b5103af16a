/-
**Leaf records**

A leaf of a learned tree is a clause and the value that it predicts.  It is written as the clause and
the value with a space between them; a clause without a body keeps its neck, as in
`cancer(A):- -0.5`.

Main definitions:

* `Leaf` — a clause and a value;
* `LeafError` — why a text is no leaf record;
* `Leaf.parse`, `Leaf.render` — reading and writing a leaf record.
-/

import ClauseForest.Decimal.Layout
import ClauseForest.Decimal.Reader
import ClauseForest.Logic.Rule
import ClauseForest.Text.Blank

set_option relaxedAutoImplicit false
set_option autoImplicit false

namespace ClauseForest

/-- Why a text is no leaf record. -/
inductive LeafError where
  /-- There is no space between a clause and a value. -/
  | missingValue (text : String)
  /-- What follows the last space is no number. -/
  | invalidValue (text : String)
  /-- What precedes the last space is no clause. -/
  | malformed (error : SyntaxError)
deriving DecidableEq, Repr

/-- The message for a text that is no leaf record. -/
def LeafError.message : LeafError → String
  | .missingValue text => "leaf record " ++ Text.quote text ++ " has no value"
  | .invalidValue text => "invalid leaf value in " ++ Text.quote text
  | .malformed error => error.message

/-- A clause and the value that it predicts. -/
structure Leaf where
  rule : Rule
  value : Float
deriving BEq, Inhabited

namespace Leaf

/-- The number of literals in the body. -/
def specificity (leaf : Leaf) : Nat := leaf.rule.body.length

/-- Whether the leaf applies to every example. -/
def isUnconditional (leaf : Leaf) : Bool := leaf.rule.isFact

/-- The written clause of a leaf, which always has a neck. -/
def renderClause (rule : Rule) : String := rule.head.render ++ ":-" ++ Rule.renderBody rule.body

/-- The leaf record. -/
def render (leaf : Leaf) : String :=
  renderClause leaf.rule ++ " " ++ Decimal.Layout.record.render leaf.value

/-- The parts of a text before and after its last space. -/
def splitLastSpace? (text : List Char) : Option (List Char × List Char) :=
  match text.reverse.dropWhile (· ≠ ' ') with
  | [] => none
  | _ :: before => some (before.reverse, (text.reverse.takeWhile (· ≠ ' ')).reverse)

/-- Reads a leaf record.  The value is looked at before the clause. -/
def parse (text : String) : Except LeafError Leaf :=
  match splitLastSpace? (Text.trim text.toList) with
  | none => .error (.missingValue text)
  | some (clause, value) =>
    match Decimal.read? value with
    | none => .error (.invalidValue text)
    | some value => do
      let rule ← (Rule.parse (String.ofList clause)).mapError .malformed
      return ⟨rule, value⟩

end Leaf

end ClauseForest
