/-
**Rules**

A rule is a head term that holds whenever every term of its body holds; a rule without a body is a
fact.  It is written `head:-b₁;b₂;…`.  The separator of body literals is a conjunction: the comma is
taken by argument lists, but one that directly follows a closing parenthesis separates literals too,
so `p(X):-q(X),r(X)` and `p(X):-q(X);r(X)` are the same rule.

Main definitions:

* `Rule` — a head and a body;
* `Rule.parse`, `Rule.render` — reading and writing a rule;
* `Rule.parseOpen` — reading a rule whose body may still be under construction.
-/

import ClauseForest.Logic.Term

set_option relaxedAutoImplicit false
set_option autoImplicit false

namespace ClauseForest

/-- A Horn clause: the head holds when all of the body does. -/
structure Rule where
  /-- What is concluded. -/
  head : Term
  /-- The conditions, in the order in which they are proved. -/
  body : List Term
deriving DecidableEq, Repr, Inhabited

namespace Rule

/-- A rule that holds unconditionally. -/
def fact (head : Term) : Rule := ⟨head, []⟩

/-- A rule with one more condition at the end of its body. -/
def when (r : Rule) (literal : Term) : Rule := ⟨r.head, r.body ++ [literal]⟩

/-- Whether the rule has no body. -/
def isFact (r : Rule) : Bool := r.body.isEmpty

/-! ### Writing -/

/-- The written body, literals separated by semicolons. -/
def renderBody (body : List Term) : String := ";".intercalate (body.map Term.render)

/-- The written form `head:-b₁;b₂;…`, or the bare head of a fact. -/
def render (r : Rule) : String :=
  if r.isFact then r.head.render else r.head.render ++ ":-" ++ renderBody r.body

/-! ### Reading -/

/-- The texts before and after the first neck `:-`. -/
def splitNeck : List Char → Option (List Char × List Char)
  | [] => none
  | ':' :: '-' :: rest => some ([], rest)
  | c :: rest => (splitNeck rest).map fun (head, body) => (c :: head, body)

/-- A body text in which every comma after a closing parenthesis has become a semicolon. -/
def separateLiterals : List Char → List Char
  | [] => []
  | ')' :: ',' :: rest => ')' :: ';' :: separateLiterals rest
  | c :: rest => c :: separateLiterals rest

/-- The literal texts of a body text. -/
def bodyPieces (body : List Char) : List String :=
  (Text.pieces ';' (separateLiterals body)).map String.ofList

/-- Reads `head:-b₁;b₂;…` or a bare head.  Nothing after the neck means no body. -/
def parse (text : String) : Except SyntaxError Rule :=
  match splitNeck text.toList with
  | none => fact <$> Term.parse text
  | some (head, body) => do
    let head ← Term.parse (String.ofList head)
    if body.isEmpty then
      return fact head
    else
      return ⟨head, ← (bodyPieces body).mapM Term.parse⟩

/-- Reads a rule whose body may be unfinished: empty literals, such as the one after a trailing
separator, are skipped. -/
def parseOpen (text : String) : Except SyntaxError Rule := do
  let (head, body) := (splitNeck text.toList).getD (text.toList, [])
  let head ← Term.parse (String.ofList head)
  return ⟨head, ← ((bodyPieces body).filter (· ≠ "")).mapM Term.parse⟩

end Rule

end ClauseForest
