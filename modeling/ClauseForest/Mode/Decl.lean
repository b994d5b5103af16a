/-
**Mode declarations**

Background knowledge says which literals may appear in clauses and how their arguments may be filled.
A declaration such as `friends(+person,-person)` or `drinks(+person,[beer;wine])` names a predicate and
specifies each of its arguments.

Main definitions:

* `Mode` — how a variable argument is chosen;
* `ArgSpec` — the specification of an argument: a variable of a type, or one of several constants;
* `ModeDecl` — a declaration, with `ModeDecl.isLiteral` and its written form `ModeDecl.render`.
-/

set_option relaxedAutoImplicit false
set_option autoImplicit false

namespace ClauseForest

/-- How the variable of an argument is chosen. -/
inductive Mode where
  /-- A variable that already occurs in the clause, if there is one. -/
  | input
  /-- A new variable. -/
  | output
  /-- Chosen like an input. -/
  | ground
deriving DecidableEq, Repr

/-- The sign written before the type of an argument. -/
def Mode.sign : Mode → String
  | .input => "+"
  | .output => "-"
  | .ground => "#"

/-- The specification of one argument. -/
inductive ArgSpec where
  /-- A variable of a type. -/
  | typed (mode : Option Mode) (type : String)
  /-- One of a list of constants. -/
  | oneOf (constants : List String)
deriving DecidableEq, Repr

namespace ArgSpec

/-- The type of a variable argument. -/
def type? : ArgSpec → Option String
  | .typed _ type => some type
  | .oneOf _ => none

/-- Whether the argument has a sign that lets tests be made from its declaration. -/
def isSigned : ArgSpec → Bool
  | .typed (some .input) _ | .typed (some .output) _ => true
  | _ => false

/-- The written form of a specification. -/
def render : ArgSpec → String
  | .typed (some mode) type => mode.sign ++ type
  | .typed none type => type
  | .oneOf constants => "[" ++ ";".intercalate constants ++ "]"

end ArgSpec

/-- A declaration of a predicate. -/
structure ModeDecl where
  /-- The predicate. -/
  name : String
  /-- The specifications of its arguments, in order. -/
  args : List ArgSpec
deriving DecidableEq, Repr

namespace ModeDecl

/-- The number of arguments. -/
def arity (d : ModeDecl) : Nat := d.args.length

/-- Whether literals of the declaration may be tests: some argument is an input or an output.  The
other declarations only give the types of a target. -/
def isLiteral (d : ModeDecl) : Bool := d.args.any ArgSpec.isSigned

/-- The written form of a declaration. -/
def render (d : ModeDecl) : String :=
  d.name ++ "(" ++ ",".intercalate (d.args.map ArgSpec.render) ++ ")"

end ModeDecl

end ClauseForest
