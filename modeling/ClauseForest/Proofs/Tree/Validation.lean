/-
**Trees that are learned from checked data**

A tree is learned from texts: the facts, the target, the examples, and the clause of every node, which
is written down and read again to find the literals that may be tested.  Examples are never changed, so
they are read below a node if they are read above it; and clauses are built of names, so they are read
back, and so are the tests that are offered for them.  If the facts and the examples can be read, then
learning a tree can fail in one way only, that some proof runs out of steps.

Main definitions:

* `Grower.ReadsNode` — a node with readable examples and a clause that is built of names.

Main results:

* `Grower.OfNames.failsOnlyAt`, `Grower.OfNames.readsNode_child` — such a node only runs out of steps,
  and its children are such nodes again;
* `Dataset.onlyRunsOut_learnTree` — **so does learning a tree**.
-/

import ClauseForest.Proofs.Dataset.Validation
import ClauseForest.Proofs.Tree.Failure
import ClauseForest.Proofs.Tree.Named

set_option relaxedAutoImplicit false
set_option autoImplicit false

namespace ClauseForest

namespace Grower

variable {g : Grower}

/-- The examples of a node are read, and its clause is built of names. -/
structure ReadsNode (node : Node) : Prop where
  examples : ∀ text ∈ node.examples, ∃ query, Term.parse text = .ok query
  lefts : ∀ test ∈ node.lefts, test.Named

namespace OfNames

variable {node : Node}

/-- The clause of such a node is read back, and so are the tests that are offered for it. -/
theorem failsOnlyAt (h : g.OfNames) (hnode : ReadsNode node) :
    g.FailsOnlyAt (· = .outOf g.limit) node where
  tests := failsOnly_ofSyntax
    (LanguageBias.exists_candidates _ (h.named_clauseOf hnode.lefts).parseOpen_renderClause _)
  examples text htext := failsOnly_ofSyntax (hnode.examples text htext)
  test := by
    intro tests htests text htext
    obtain ⟨test, hnamed, rfl⟩ :=
      LanguageBias.named_of_mem_candidates h.literals (h.named_clauseOf hnode.lefts) htests htext
    exact failsOnly_ofSyntax ⟨test, hnamed.parse_render⟩
  prove _ _ _ _ test _ query :=
    Session.onlyRunsOut_prove ⟨g.facts, some ((g.clauseOf node).when test), g.limit⟩ query

/-- The children of such a node are such nodes again. -/
theorem readsNode_child (h : g.OfNames) {child : Node} {s : Split} (hnode : ReadsNode node)
    (hs : g.Splits node s) (hchild : child ∈ children node s) : ReadsNode child where
  examples text htext := hnode.examples text ((hs.examples_sublist hchild).subset htext)
  lefts := h.named_child hnode.lefts hs hchild

end OfNames

end Grower

/-- Learning a tree from readable data with a declared background only runs out of steps. -/
theorem Dataset.onlyRunsOut_learnTree {d : Dataset} (h : d.Readable) (hd : d.HasBackground)
    (config : TreeConfig) : OnlyRunsOut config.stepLimit (d.learnTree config) := by
  obtain ⟨rules, hrules⟩ := exists_mapM_iff.2 h.facts
  obtain ⟨decl, hdecl, heq, -⟩ := hd.exists_decl
  have htarget : Term.parse d.target = .ok (targetTerm decl) := by
    rw [heq, (named_targetTerm hdecl).parse_render]
  have hgrower : d.grower config = .ok ⟨d, .ofList rules, targetTerm decl, config.stepLimit⟩ :=
    grower_eq_ok_iff.2 ⟨rules, _, hrules, htarget, rfl⟩
  have hnames := Grower.ofNames_of_grower hgrower hd
  have hroot : ∀ node ∈ [Node.root d.examples], Grower.ReadsNode node := by
    intro node hnode
    rw [List.mem_singleton.1 hnode]
    exact ⟨h.examples, nofun⟩
  unfold learnTree
  rw [hgrower]
  exact (Grower.failsOnly_grow (fun _ => hnames.failsOnlyAt)
    (fun _ _ _ => hnames.readsNode_child) hroot).map _

end ClauseForest
