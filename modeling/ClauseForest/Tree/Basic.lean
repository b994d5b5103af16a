/-
**Learned trees**

A learned tree is kept as the list of its leaves, the most specific first.  An example gets the value
of the first leaf that applies to it: a leaf without conditions applies to every example, any other if
the example is provable from the facts and the clause of the leaf.

Main definitions:

* `TreeConfig` — the parameters of a single tree;
* `LearnedTree` — the leaves of a tree;
* `LearnedTree.ofLeaves` — the tree of leaves in any order;
* `LearnedTree.parse`, `LearnedTree.records` — a tree as leaf records;
* `LearnedTree.valueOf` — the value that a tree gives to an example.
-/

import ClauseForest.Prover.Search
import ClauseForest.Tree.Leaf

set_option relaxedAutoImplicit false
set_option autoImplicit false

namespace ClauseForest

/-- The parameters of a single tree. -/
structure TreeConfig where
  /-- The level at which every node is a leaf. -/
  maxDepth : Nat
  /-- Whether tests may be scored side by side.  It makes no difference to what is learned. -/
  parallel : Bool
  /-- How many steps a proof may take. -/
  stepLimit : Option Nat
deriving DecidableEq, Repr

/-- Two levels of tests, and no limit. -/
def TreeConfig.default : TreeConfig := ⟨2, false, none⟩

/-- The leaves of a tree, in the order in which they are tried. -/
structure LearnedTree where
  leaves : List Leaf
deriving BEq, Inhabited

namespace LearnedTree

/-- The tree of leaves in any order: the most specific come first, and equally specific ones keep their
order. -/
def ofLeaves (leaves : List Leaf) : LearnedTree :=
  ⟨leaves.mergeSort fun a b => b.specificity ≤ a.specificity⟩

/-- The number of leaves. -/
def size (tree : LearnedTree) : Nat := tree.leaves.length

/-- Whether there are no leaves. -/
def isEmpty (tree : LearnedTree) : Bool := tree.leaves.isEmpty

/-- The leaf records of a tree, in order. -/
def records (tree : LearnedTree) : List String := tree.leaves.map Leaf.render

/-- Reads a tree from leaf records, which keep their order. -/
def parse (records : List String) : Except LeafError LearnedTree :=
  LearnedTree.mk <$> records.mapM Leaf.parse

/-- The written form of a tree: a leaf record on each line. -/
def render (tree : LearnedTree) : String :=
  String.join (tree.records.map fun record => record ++ "\n")

/-- Whether a leaf applies to an example. -/
def applies (facts : RuleBase) (query : Term) (limit : Option Nat) (leaf : Leaf) :
    Except ProofError Bool :=
  if leaf.isUnconditional then .ok true
  else Session.prove ⟨facts, some leaf.rule, limit⟩ query

/-- The value of the first leaf of a list that applies to an example. -/
def firstValue (facts : RuleBase) (query : Term) (limit : Option Nat) :
    List Leaf → Except ProofError (Option Float)
  | [] => .ok none
  | leaf :: leaves => do
    if ← applies facts query limit leaf then return some leaf.value
    else firstValue facts query limit leaves

/-- The value that a tree gives to an example, if a leaf applies. -/
def valueOf (tree : LearnedTree) (facts : RuleBase) (query : Term) (limit : Option Nat) :
    Except ProofError (Option Float) :=
  firstValue facts query limit tree.leaves

end LearnedTree

end ClauseForest
