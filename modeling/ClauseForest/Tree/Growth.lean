/-
**Growing a tree**

A tree is grown from the top down, one level of nodes after another.  Every node holds the examples
that reached it.  A node at the deepest level, a node whose examples have (almost) the same value and a
node without any literal to test becomes a leaf.  Any other node is split by the test that leaves the
least variance: the examples that satisfy the clause of the node extended by the test go left, the
others right, and a side without examples is dropped.

The clause of a node has the tests of the left edges on the way to it, the nearest first.  Tests of
right edges are not negated into it; they only are not tried again below.

Main definitions:

* `Node` — the examples at a place of the tree, and the tests on the way to it;
* `Grower` — what a tree is grown from;
* `Grower.split` — a test and the sides to which it sends the examples;
* `Grower.expand` — what becomes of a node;
* `Grower.grow` — the leaves below the nodes of a level;
* `Dataset.learnTree` — a tree fitted to the current values of a data set.
-/

import ClauseForest.Dataset.Basic
import ClauseForest.Refinement.Candidates
import ClauseForest.Tree.Basic

set_option relaxedAutoImplicit false
set_option autoImplicit false

namespace ClauseForest

/-! ### Nodes -/

/-- A place of the tree. -/
structure Node where
  /-- The examples that reached it, in order. -/
  examples : List String
  /-- The tests of the left edges on the way to it, the nearest first. -/
  lefts : List Term
  /-- The tests of all edges on the way to it, the nearest first. -/
  path : List Term
deriving DecidableEq, Repr

namespace Node

/-- The place at the top of the tree. -/
def root (examples : List String) : Node := ⟨examples, [], []⟩

/-- The number of edges on the way to a node. -/
def level (node : Node) : Nat := node.path.length

/-- The node on the left edge of a test. -/
def left (node : Node) (test : Term) (examples : List String) : Node :=
  ⟨examples, test :: node.lefts, test :: node.path⟩

/-- The node on the right edge of a test. -/
def right (node : Node) (test : Term) (examples : List String) : Node :=
  ⟨examples, node.lefts, test :: node.path⟩

end Node

/-! ### Splits -/

/-- A test and the sides to which it sends examples. -/
structure Split where
  test : Term
  satisfied : List String
  unsatisfied : List String
  /-- The variance that is left, weighted by the sizes of the sides. -/
  score : Float
deriving Inhabited

/-- The first of the splits with the least score. -/
def Split.best : List Split → Option Split
  | [] => none
  | first :: others =>
    some (others.foldl (fun best next => if next.score < best.score then next else best) first)

/-- What a tree is grown from. -/
structure Grower where
  data : Dataset
  facts : RuleBase
  target : Term
  /-- How many steps a proof may take. -/
  limit : Option Nat

namespace Grower

/-- The examples that satisfy the clause of a session, and those that do not. -/
def divide (session : Session) :
    List (String × Term) → Except ProofError (List String × List String)
  | [] => .ok ([], [])
  | (text, query) :: rest => do
    let holds ← session.prove query
    let (satisfied, unsatisfied) ← divide session rest
    return if holds then (text :: satisfied, unsatisfied) else (satisfied, text :: unsatisfied)

/-- The variance left on the sides of a split, weighted by their sizes. -/
def score (data : Dataset) (satisfied unsatisfied : List String) : Float :=
  let count := Float.ofNat (satisfied.length + unsatisfied.length)
  Float.ofNat satisfied.length / count * data.variance satisfied +
    Float.ofNat unsatisfied.length / count * data.variance unsatisfied

/-- Splits examples by whether they satisfy a clause extended by a test. -/
def split (g : Grower) (clause : Rule) (queries : List (String × Term)) (test : String) :
    Except ProofError Split := do
  let test ← ProofError.ofSyntax (Term.parse test)
  let (satisfied, unsatisfied) ← divide ⟨g.facts, some (clause.when test), g.limit⟩ queries
  return ⟨test, satisfied, unsatisfied, score g.data satisfied unsatisfied⟩

/-- The best split of examples by one of several tests, if there are any.  All examples are read as
terms before the first test is looked at. -/
def bestSplit (g : Grower) (clause : Rule) (examples tests : List String) :
    Except ProofError (Option Split) := do
  let queries ← examples.mapM fun text => do
    return (text, ← ProofError.ofSyntax (Term.parse text))
  return Split.best (← tests.mapM (g.split clause queries))

/-! ### Nodes of the tree -/

/-- The clause of a node. -/
def clauseOf (g : Grower) (node : Node) : Rule := ⟨g.target, node.lefts⟩

/-- The written clause of a node, which always has a neck. -/
def clauseText (g : Grower) (node : Node) : String := Leaf.renderClause (g.clauseOf node)

/-- Whether a number is zero when it is rounded to three places. -/
def roundsToZero (x : Float) : Bool := (x * 1000.0).abs < 0.5

/-- Whether the examples of a node have almost the same value. -/
def isPure (g : Grower) (node : Node) : Bool := roundsToZero (g.data.variance node.examples)

/-- The literals that may be tested at a node. -/
def testsAt (g : Grower) (node : Node) : Except SyntaxError (List String) :=
  LanguageBias.candidates ⟨g.data.literals, g.data.variableTypes⟩ (g.clauseText node)
    (node.path.map Term.render)

/-- The nodes on the edges of a split; a side without examples has none. -/
def children (node : Node) (s : Split) : List Node :=
  (if s.satisfied.isEmpty then [] else [node.left s.test s.satisfied]) ++
    if s.unsatisfied.isEmpty then [] else [node.right s.test s.unsatisfied]

/-- What becomes of a node above the deepest level: nothing when it is a leaf, else its children. -/
def expand (g : Grower) (node : Node) : Except ProofError (Option (List Node)) := do
  if g.isPure node then return none
  -- Without a test there is no best split either, and the node is a leaf.
  let tests ← ProofError.ofSyntax (g.testsAt node)
  return (← g.bestSplit (g.clauseOf node) node.examples tests).map (children node)

/-- Expands the nodes of a level from the first to the last.  The result is the leaves among them, and
the nodes of the next level. -/
def expandAll (g : Grower) : List Node → Except ProofError (List Node × List Node)
  | [] => .ok ([], [])
  | node :: nodes => do
    let expanded ← g.expand node
    let (leaves, next) ← g.expandAll nodes
    return match expanded with
      | none => (node :: leaves, next)
      | some below => (leaves, below ++ next)

/-- The leaves below the nodes of a level, those of higher levels first, when so many levels may
follow. -/
def grow (g : Grower) : Nat → List Node → Except ProofError (List Node)
  | _, [] => .ok []
  | 0, nodes => .ok nodes
  | levels + 1, nodes => do
    let (leaves, next) ← g.expandAll nodes
    return leaves ++ (← g.grow levels next)

/-- The leaf of a node, whose value is the mean of its examples. -/
def leafOf (g : Grower) (node : Node) : Leaf := ⟨g.clauseOf node, g.data.mean node.examples⟩

end Grower

/-! ### Learning -/

namespace Dataset

/-- What the trees of a data set are grown from. -/
def grower (d : Dataset) (config : TreeConfig) : Except ProofError Grower := do
  let facts ← ProofError.ofSyntax (RuleBase.parse d.facts)
  let target ← ProofError.ofSyntax (Term.parse d.target)
  return ⟨d, facts, target, config.stepLimit⟩

/-- A tree fitted to the current values of a data set. -/
def learnTree (d : Dataset) (config : TreeConfig) : Except ProofError LearnedTree := do
  let g ← d.grower config
  let nodes ← g.grow config.maxDepth [.root d.examples]
  return .ofLeaves (nodes.map g.leafOf)

/-- The value that a tree gives to an example, with the facts of a data set. -/
def treeValue (d : Dataset) (tree : LearnedTree) (text : String) :
    Except ProofError (Option Float) := do
  let facts ← ProofError.ofSyntax (RuleBase.parse d.facts)
  tree.valueOf facts (← ProofError.ofSyntax (Term.parse text)) none

end Dataset

end ClauseForest
