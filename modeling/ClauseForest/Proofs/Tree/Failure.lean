/-
**How growing a tree can fail**

To expand a node its tests are listed, its examples are read, and every test is tried on every example.
Growing a tree does this at every node that it comes to.  So it fails for certain reasons only if all
of this does, at every node of a kind that splits keep.

Main definitions:

* `Grower.FailsOnlyAt` — what is read and proved at a node fails for certain reasons only.

Main results:

* `Grower.FailsOnlyAt.expand` — then so does expanding the node;
* `Grower.failsOnly_grow` — **growing a tree fails only where one of its nodes fails**;
* `LearnedTree.failsOnly_valueOf` — the value of an example fails only where a leaf is tried.
-/

import ClauseForest.Proofs.Prover.Failure
import ClauseForest.Proofs.Tree.Routing

set_option relaxedAutoImplicit false
set_option autoImplicit false

namespace ClauseForest

namespace Grower

variable {g : Grower} {reasons : ProofError → Prop}

theorem failsOnly_divide {s : Session} (hs : ∀ query, FailsOnly reasons (s.prove query))
    (queries : List (String × Term)) : FailsOnly reasons (divide s queries) := by
  induction queries with
  | nil => exact failsOnly_ok _
  | cons q queries ih => exact (hs q.2).bind fun _ _ => ih.map _

/-- What is read and proved at a node fails for certain reasons only: its tests can be listed and its
examples read, and so can each test, which then is proved with the clause of the node. -/
structure FailsOnlyAt (g : Grower) (reasons : ProofError → Prop) (node : Node) : Prop where
  tests : FailsOnly reasons (ProofError.ofSyntax (g.testsAt node))
  examples : ∀ text ∈ node.examples, FailsOnly reasons (ProofError.ofSyntax (Term.parse text))
  test : ∀ tests, g.testsAt node = .ok tests → ∀ text ∈ tests,
    FailsOnly reasons (ProofError.ofSyntax (Term.parse text))
  prove : ∀ tests, g.testsAt node = .ok tests → ∀ text ∈ tests, ∀ test, Term.parse text = .ok test →
    ∀ query, FailsOnly reasons
      (Session.prove ⟨g.facts, some ((g.clauseOf node).when test), g.limit⟩ query)

/-- Expanding a node fails only where something at the node fails. -/
theorem FailsOnlyAt.expand {node : Node} (h : g.FailsOnlyAt reasons node) :
    FailsOnly reasons (g.expand node) := by
  unfold Grower.expand
  split
  · exact failsOnly_ok _
  · refine h.tests.bind fun tests htests => ?_
    have htests' := ProofError.ofSyntax_eq_ok_iff.1 htests
    have hqueries : FailsOnly reasons (readExamples node.examples) :=
      failsOnly_mapM fun text htext => (h.examples text htext).map _
    have hsplit : ∀ queries, ∀ text ∈ tests,
        FailsOnly reasons (g.split (g.clauseOf node) queries text) := by
      intro queries text htext
      refine (h.test tests htests' text htext).bind fun test htest => ?_
      have hprove := h.prove tests htests' text htext test (ProofError.ofSyntax_eq_ok_iff.1 htest)
      exact (failsOnly_divide hprove queries).map _
    have hbest : FailsOnly reasons (g.bestSplit (g.clauseOf node) node.examples tests) :=
      hqueries.bind fun queries _ => (failsOnly_mapM (hsplit queries)).map _
    exact hbest.map _

theorem failsOnly_expandAll {nodes : List Node}
    (hnodes : ∀ node ∈ nodes, FailsOnly reasons (g.expand node)) :
    FailsOnly reasons (g.expandAll nodes) := by
  induction nodes with
  | nil => exact failsOnly_ok _
  | cons node nodes ih =>
      refine (hnodes node (by simp)).bind fun expanded _ => ?_
      exact (ih fun other hother => hnodes other (List.mem_cons_of_mem _ hother)).map _

/-- Growing a tree fails only where one of its nodes fails, all of which are of a kind that splits
keep. -/
theorem failsOnly_grow {P : Node → Prop} (hexpand : ∀ node, P node → g.FailsOnlyAt reasons node)
    (hchild : ∀ node s child, P node → g.Splits node s → child ∈ children node s → P child) {k : Nat}
    {nodes : List Node} (hnodes : ∀ node ∈ nodes, P node) : FailsOnly reasons (g.grow k nodes) := by
  induction k generalizing nodes with
  | zero => cases nodes <;> exact failsOnly_ok _
  | succ k ih =>
      cases nodes with
      | nil => exact failsOnly_ok _
      | cons node nodes =>
          have hlevel := failsOnly_expandAll fun node hnode => (hexpand node (hnodes node hnode)).expand
          refine hlevel.bind fun level hlevel => (ih fun child hmem => ?_).map _
          obtain ⟨node, hnode, s, hs, hside⟩ := (expands_of_expandAll hlevel).exists_of_mem_next hmem
          exact hchild node s child (hnodes node hnode) hs hside

end Grower

/-- The value of an example fails only where a leaf is tried. -/
theorem LearnedTree.failsOnly_valueOf {reasons : ProofError → Prop} {tree : LearnedTree}
    {facts : RuleBase} {query : Term} {limit : Option Nat} (hleaves : ∀ leaf ∈ tree.leaves,
      FailsOnly reasons (Session.prove ⟨facts, some leaf.rule, limit⟩ query)) :
    FailsOnly reasons (tree.valueOf facts query limit) := by
  obtain ⟨leaves⟩ := tree
  unfold valueOf
  induction leaves with
  | nil => exact failsOnly_ok _
  | cons leaf leaves ih =>
      have happlies : FailsOnly reasons (applies facts query limit leaf) := by
        unfold applies
        split
        · exact failsOnly_ok _
        · exact hleaves leaf (by simp)
      refine happlies.bind fun answer _ => ?_
      cases answer with
      | true => exact failsOnly_ok _
      | false => exact ih fun other hother => hleaves other (List.mem_cons_of_mem _ hother)

end ClauseForest
