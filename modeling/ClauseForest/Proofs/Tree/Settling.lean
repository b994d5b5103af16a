/-
**Trees that settle**

Facts without conditions call nothing, and the tests of a clause never call its target.  So every
proof on the way to a tree ends without a limit, whatever the depth of the tree, and a tree is learned
unless some text is malformed.  The clauses of its leaves do not call themselves either; every proof
that is made to find the value of an example ends as well, also over the facts of another data set.

Main definitions:

* `Dataset.HasBareFacts` — the facts of a data set have no conditions;
* `Grower.OverBare` — a tree is grown over such facts, and no test calls the target;
* `LearnedTree.CallsOthers` — no clause of a tree calls itself.

Main results:

* `Grower.OverBare.settles_grow` — **growing a tree settles**;
* `Dataset.settles_learnTree`, `LearnedTree.CallsOthers.settles_valueOf` — so does learning a tree,
  and so do the values that it gives.
-/

import ClauseForest.Proofs.Prover.Settling
import ClauseForest.Proofs.Tree.Clauses
import ClauseForest.Proofs.Tree.Failure

set_option relaxedAutoImplicit false
set_option autoImplicit false

namespace ClauseForest

/-! ### Facts without conditions -/

/-- The facts have no conditions. -/
def Dataset.HasBareFacts (d : Dataset) : Prop :=
  ∀ text ∈ d.facts, ∀ rule, Rule.parse text = .ok rule → rule.body = []

theorem Dataset.HasFacts.hasBareFacts {d : Dataset} (h : d.HasFacts) : d.HasBareFacts :=
  fun text htext rule hparse => (h text htext rule hparse).1

theorem Dataset.hasBareFacts_of_mapM {d : Dataset} {rules : List Rule}
    (h : d.facts.mapM Rule.parse = .ok rules) (hrules : ∀ rule ∈ rules, rule.body = []) :
    d.HasBareFacts := forall_of_mapM h hrules

theorem RuleBase.isBare_of_parse {d : Dataset} (h : d.HasBareFacts) {base : RuleBase}
    (hbase : RuleBase.parse d.facts = .ok base) : base.IsBare := by
  obtain ⟨rules, hrules, rfl⟩ := map_eq_ok_iff.1 hbase
  refine ⟨rules, rfl, fun rule hrule => ?_⟩
  obtain ⟨text, htext, hparse⟩ := exists_of_mem_mapM hrules hrule
  exact h text htext rule hparse

namespace Grower

variable {g : Grower}

/-- A tree is grown over facts without conditions, without a limit, and no test calls the target. -/
structure OverBare (g : Grower) : Prop where
  facts : g.facts.IsBare
  limit : g.limit = none
  testsOthers : g.TestsOthers

theorem overBare_of_grower {d : Dataset} {config : TreeConfig} (hfacts : d.HasBareFacts)
    (hbackground : d.HasBackground) (hlimit : config.stepLimit = none)
    (hg : d.grower config = .ok g) : g.OverBare := by
  obtain ⟨rules, target, hrules, htarget, rfl⟩ := Dataset.grower_eq_ok_iff.1 hg
  refine ⟨RuleBase.isBare_of_parse hfacts (map_eq_ok_iff.2 ⟨rules, hrules, rfl⟩), hlimit, ?_⟩
  intro node tests htests text htext test htest
  exact hbackground.predicate_ne htarget htests htext htest

theorem Avoids.callsOthers {body : List Term} (h : g.Avoids body) :
    Rule.CallsOthers ⟨g.target, body⟩ :=
  fun literal hliteral hkey => h literal hliteral (congrArg Prod.fst hkey)

/-! ### Growing -/

namespace OverBare

/-- At a node whose clause does not call the target every proof ends. -/
theorem failsOnlyAt (h : g.OverBare) {node : Node} (hnode : g.Avoids node.lefts) :
    g.FailsOnlyAt ProofError.IsMalformed node where
  tests := failsOnly_isMalformed_ofSyntax _
  examples _ _ := failsOnly_isMalformed_ofSyntax _
  test _ _ _ _ := failsOnly_isMalformed_ofSyntax _
  prove := by
    intro tests htests text htext test htest query
    have htests' := h.testsOthers node tests htests text htext test htest
    -- the clause of a split calls the tests on the left edges and the new one, none of them the target
    have havoids : g.Avoids (node.lefts ++ [test]) := by
      intro literal hliteral
      rcases List.mem_append.1 hliteral with hliteral | hliteral
      · exact hnode literal hliteral
      · exact List.mem_singleton.1 hliteral ▸ htests'
    rw [h.limit]
    exact settles_true_iff.1 (Session.settles_prove h.facts havoids.callsOthers query)

/-- Growing a tree settles, and no clause of a leaf calls the target. -/
theorem settles_grow (h : g.OverBare) {k : Nat} {nodes : List Node}
    (hnodes : ∀ node ∈ nodes, g.Avoids node.lefts) :
    Settles (g.grow k nodes) fun leaves => ∀ leaf ∈ leaves, g.Avoids leaf.lefts := by
  refine settles_iff.2 ⟨failsOnly_grow (fun _ => h.failsOnlyAt) ?_ hnodes, fun leaves hleaves => ?_⟩
  · exact fun node s child hnode hs hchild => h.testsOthers.avoids_child hs hchild hnode
  · exact h.testsOthers.avoids_of_grows (grows_of_grow hleaves) hnodes

end OverBare

end Grower

/-! ### Learned trees -/

/-- No clause of a tree calls itself. -/
def LearnedTree.CallsOthers (tree : LearnedTree) : Prop :=
  ∀ leaf ∈ tree.leaves, leaf.rule.CallsOthers

/-- Learning a tree settles, and no clause of the tree calls itself. -/
theorem Dataset.settles_learnTree {d : Dataset} {config : TreeConfig} (hfacts : d.HasBareFacts)
    (hbackground : d.HasBackground) (hlimit : config.stepLimit = none) :
    Settles (d.learnTree config) LearnedTree.CallsOthers := by
  have hgrow : ∀ g, d.grower config = .ok g →
      Settles (g.grow config.maxDepth [.root d.examples]) fun leaves =>
        ∀ leaf ∈ leaves, g.Avoids leaf.lefts := by
    intro g hg
    have hbare := Grower.overBare_of_grower hfacts hbackground hlimit hg
    exact hbare.settles_grow (by simp [Node.root, Grower.Avoids])
  have hgrower : FailsOnly ProofError.IsMalformed (d.grower config) :=
    (failsOnly_isMalformed_ofSyntax _).bind fun _ _ => (failsOnly_isMalformed_ofSyntax _).map _
  refine settles_iff.2 ⟨?_, fun tree htree leaf hleaf => ?_⟩
  · exact hgrower.bind fun g hg => (settles_iff.1 (hgrow g hg)).1.map _
  · obtain ⟨g, hg, htree⟩ := bind_eq_ok_iff.1 htree
    obtain ⟨nodes, hnodes, htree⟩ := bind_eq_ok_iff.1 htree
    cases htree
    obtain ⟨node, hnode, rfl⟩ := List.mem_map.1 (LearnedTree.mem_ofLeaves.1 hleaf)
    exact ((settles_iff.1 (hgrow g hg)).2 nodes hnodes node hnode).callsOthers

/-- The value that a tree gives to an example settles, over any facts without conditions. -/
theorem LearnedTree.CallsOthers.settles_valueOf {tree : LearnedTree} (h : tree.CallsOthers)
    {facts : RuleBase} (hfacts : facts.IsBare) (query : Term) :
    Settles (tree.valueOf facts query none) fun _ => True :=
  settles_true_iff.2 (LearnedTree.failsOnly_valueOf fun leaf hleaf =>
    settles_true_iff.1 (Session.settles_prove hfacts (h leaf hleaf) query))

end ClauseForest
