/-
**Branches of a proof**

A proof in progress is a *branch*: the rule that is being worked through, and the rules that wait for
it, each with the literals of its body that are still open and with bindings of its own.  The query is
the single literal of an outermost rule; once nothing of that rule is open, the query is proved.

One step looks at the first open literal of the innermost rule.  Every rule that may match the literal
and whose head does match opens a branch of its own.  When nothing of the innermost rule is open any
more, the values found for its head are handed to the waiting rule, which goes on with its next
literal.  The hand-over always keeps the waiting rule, whatever the matching says: the head did match
when the rule was entered.

Main definitions:

* `Frame`, `Branch` — a rule being worked through, and a chain of them;
* `Session` — what a query is proved from;
* `Session.candidates` — the rules that a literal may match, facts before the clause;
* `Session.advance` — one step of a branch.
-/

import ClauseForest.Logic.Bindings
import ClauseForest.Logic.RuleBase

set_option relaxedAutoImplicit false
set_option autoImplicit false

namespace ClauseForest

/-! ### Frames and branches -/

/-- A rule that is being worked through. -/
structure Frame where
  /-- The head of the rule. -/
  head : Term
  /-- The literals of the body that are still open. -/
  todo : List Term
  /-- The values found so far for the variables of the rule. -/
  bindings : Bindings
deriving DecidableEq, Repr

/-- A proof in progress. -/
structure Branch where
  /-- The rule being worked through. -/
  top : Frame
  /-- The rules waiting for it, the nearest first. -/
  callers : List Frame
deriving DecidableEq, Repr

/-- The branch with which the proof of a query begins. -/
def Branch.ofQuery (query : Term) : Branch := ⟨⟨⟨"query", []⟩, [query], .empty⟩, []⟩

/-- A waiting rule after its first open literal was settled by a finished rule. -/
def Frame.resume (caller finished : Frame) : Frame :=
  match caller.todo with
  | [] => caller
  | slot :: rest =>
    ⟨caller.head, rest, (unify finished.head finished.bindings slot caller.bindings).bindings⟩

/-- The frame with which a rule is entered for a literal, if its head matches. -/
def Frame.enter? (literal : Term) (bindings : Bindings) (rule : Rule) : Option Frame :=
  let matched := unify literal bindings rule.head .empty
  if matched.agrees then some ⟨rule.head, rule.body, matched.bindings⟩ else none

/-! ### Steps -/

/-- What a query is proved from: a rule base, perhaps one clause more, and perhaps a bound on the
number of steps. -/
structure Session where
  /-- The shared rules. -/
  facts : RuleBase
  /-- The clause under trial. -/
  clause : Option Rule
  /-- How many steps a proof may take. -/
  limit : Option Nat

/-- The rules that a literal may match: those of the rule base in order, then the clause. -/
def Session.candidates (s : Session) (literal : Term) : List Rule :=
  s.facts.matching literal ++ (s.clause.filter fun c => c.head.key = literal.key).toList

/-- What one step makes of a branch. -/
inductive Progress where
  /-- The query is proved. -/
  | proved
  /-- The branch is replaced by others, the one to be followed first at the front. -/
  | branches (next : List Branch)
deriving DecidableEq, Repr

/-- One step of a branch.  Of the candidates for a literal, the last is followed first. -/
def Session.advance (s : Session) (b : Branch) : Progress :=
  match b.top.todo with
  | [] =>
    match b.callers with
    | [] => .proved
    | caller :: callers => .branches [⟨caller.resume b.top, callers⟩]
  | literal :: _ =>
    -- The branches are stacked in the order of the candidates, so the last one comes to lie on top.
    .branches <| (s.candidates literal).reverse.filterMap fun rule =>
      (Frame.enter? literal b.top.bindings rule).map fun frame => ⟨frame, b.top :: b.callers⟩

end ClauseForest
