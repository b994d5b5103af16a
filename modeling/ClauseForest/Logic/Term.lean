/-
**Terms**

A term is a predicate name applied to a list of argument tokens, as in `friends(X,bob)`.  Arguments
are plain texts; whether one is a variable is a question of its spelling, answered in
`ClauseForest/Logic/Variable.lean`.

The written form is read back strictly: a term ends with a closing parenthesis and holds exactly one
opening one.  Spaces between the parentheses carry no meaning and are dropped, and an empty argument
list is one empty argument.

Main definitions:

* `Term` — a predicate and its arguments;
* `SyntaxError` — why a text is no term, with the message shown for it;
* `Term.parse`, `Term.render` — reading and writing a term.
-/

import ClauseForest.Text.Pieces
import ClauseForest.Text.Quoted

set_option relaxedAutoImplicit false
set_option autoImplicit false

namespace ClauseForest

/-! ### Faults -/

/-- What keeps a text from being a term. -/
inductive SyntaxFault where
  /-- The text does not end with a closing parenthesis. -/
  | missingClosingParen
  /-- The text falls into `count` fields at its opening parentheses, and not into two. -/
  | fieldCount (count : Nat)
deriving DecidableEq, Repr

/-- A text that is no term, and why. -/
structure SyntaxError where
  /-- The offending text. -/
  text : String
  /-- What is wrong with it. -/
  fault : SyntaxFault
deriving DecidableEq, Repr

/-- The wording of a fault. -/
def SyntaxFault.message : SyntaxFault → String
  | .missingClosingParen => "term should end with ')'"
  | .fieldCount count => "term should be composed of two fields, found " ++ toString count

/-- The message for a text that is no term. -/
def SyntaxError.message (e : SyntaxError) : String :=
  e.fault.message ++ " in " ++ Text.quote e.text

/-! ### Terms and their written form -/

/-- A predicate applied to an ordered list of argument tokens. -/
structure Term where
  /-- The name in front of the argument list. -/
  predicate : String
  /-- The argument tokens, in order. -/
  args : List String
deriving DecidableEq, Repr, Inhabited

namespace Term

/-- The number of arguments. -/
def arity (t : Term) : Nat := t.args.length

/-- The written form `predicate(a,b,…)`. -/
def render (t : Term) : String :=
  t.predicate ++ "(" ++ ",".intercalate t.args ++ ")"

/-- The text before a closing parenthesis at the very end, if there is one. -/
def beforeClosing (text : List Char) : Option (List Char) :=
  if text.getLast? = some ')' then some text.dropLast else none

/-- The arguments written between the parentheses: cut at commas, spaces dropped. -/
def readArgs (text : List Char) : List String :=
  (Text.pieces ',' (text.filter (· ≠ ' '))).map String.ofList

/-- Reads `predicate(a,b,…)`. -/
def parse (text : String) : Except SyntaxError Term :=
  match beforeClosing text.toList with
  | none => .error ⟨text, .missingClosingParen⟩
  | some inner =>
    match Text.pieces '(' inner with
    | [predicate, args] => .ok ⟨String.ofList predicate, readArgs args⟩
    | fields => .error ⟨text, .fieldCount fields.length⟩

/-- An argument list is never read as empty. -/
theorem readArgs_ne_nil (text : List Char) : readArgs text ≠ [] := by
  simp [readArgs, Text.pieces_ne_nil]

end Term

end ClauseForest
