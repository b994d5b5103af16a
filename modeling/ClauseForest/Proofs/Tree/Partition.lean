/-
**Leaves partition the examples**

Every split sends each example of a node to one side, so the leaves of a tree share its examples: none
is lost, none is doubled, and one that is listed twice is also shared out twice.  No leaf but that of a
tree without examples is empty; there are at most as many leaves as examples.

Main definitions:

* `Grower.SharesOut` — nodes share the examples that a tree is grown from.

Main results:

* `Grower.sharesOut_of_grow` — the leaves share the examples;
* `Dataset.sharesOut_of_learnTree` — **a learned tree has the leaves of a partition of the examples of
  its data set**.
-/

import Mathlib.Algebra.Order.BigOperators.Group.List
import Mathlib.Control.Monad.Basic
import ClauseForest.Proofs.Tree.Coverage
import ClauseForest.Proofs.Tree.Visits

set_option relaxedAutoImplicit false
set_option autoImplicit false

namespace ClauseForest

namespace Grower

variable {g : Grower} {depth : Nat} {examples : List String} {leaves : List Node}

/-- The leaves of a tree share the examples that it is grown from. -/
structure SharesOut (g : Grower) (depth : Nat) (examples : List String) (leaves : List Node) :
    Prop where
  /-- No example is lost, and none is doubled. -/
  perm : (leaves.flatMap Node.examples).Perm examples
  /-- The examples of a leaf keep their order. -/
  sublist : ∀ leaf ∈ leaves, leaf.examples.Sublist examples
  /-- The leaves are nodes of the tree, and not too deep. -/
  visits : ∀ leaf ∈ leaves, ∃ k, g.Visits depth (.root examples) k leaf ∧ leaf.level + k = depth
  /-- Every node below the top has examples. -/
  examples_ne_nil : ∀ k node, g.Visits depth (.root examples) k node → node ≠ .root examples →
    node.examples ≠ []
  /-- Where the best split is searched there are examples, which the sides of every split share. -/
  searches : ∀ node, g.Searches depth (.root examples) node → node.examples ≠ [] ∧
    ∀ s, g.Scored node s → s.satisfied.length + s.unsatisfied.length = node.examples.length
  /-- There is a leaf. -/
  pos : 1 ≤ leaves.length
  /-- There are at most as many leaves as examples. -/
  length_le : leaves.length ≤ max 1 examples.length

/-- Without examples the top is the only leaf. -/
theorem grow_root_nil (g : Grower) (depth : Nat) : g.grow depth [.root []] = .ok [.root []] := by
  cases depth with
  | zero => rfl
  | succ k =>
      have hexpand : g.expand (.root []) = .ok none := expand_of_isPure (isPure_of_examples_eq_nil rfl)
      simp only [grow, expandAll, hexpand]
      cases k <;> rfl

theorem length_le_of_perm (hperm : (leaves.flatMap Node.examples).Perm examples)
    (hleaves : ∀ leaf ∈ leaves, leaf.examples ≠ []) : leaves.length ≤ examples.length := by
  rw [← hperm.length_eq, List.length_flatMap]
  have hle := List.length_le_sum_of_one_le (leaves.map fun leaf => leaf.examples.length) ?_
  · rwa [List.length_map] at hle
  · intro count hcount
    obtain ⟨leaf, hleaf, rfl⟩ := List.mem_map.1 hcount
    exact List.length_pos_iff.2 (hleaves leaf hleaf)

/-- The leaves share the examples. -/
theorem sharesOut_of_grow (h : g.grow depth [.root examples] = .ok leaves) :
    g.SharesOut depth examples leaves := by
  have hgrows := grows_of_grow h
  have hperm : (leaves.flatMap Node.examples).Perm examples := by
    simpa [Node.root] using hgrows.perm
  have hvisits : ∀ leaf ∈ leaves, ∃ k, g.Visits depth (.root examples) k leaf :=
    visits_of_grow h (by simpa using Visits.top)
  have hlength : 1 ≤ leaves.length ∧ leaves.length ≤ max 1 examples.length := by
    -- a leaf without examples would count for nothing; only the top of an empty tree is one
    cases examples with
    | nil =>
        rw [grow_root_nil] at h
        cases h
        exact ⟨Nat.le_refl 1, Nat.le_refl 1⟩
    | cons text rest =>
        have hne : ∀ leaf ∈ leaves, leaf.examples ≠ [] := by
          intro leaf hleaf
          obtain ⟨k, hleaf⟩ := hvisits leaf hleaf
          rcases hleaf.eq_top_or_examples_ne_nil with rfl | hne
          · exact List.cons_ne_nil text rest
          · exact hne
        have hle := length_le_of_perm hperm hne
        refine ⟨List.length_pos_iff.2 ?_, hle.trans (Nat.le_max_right 1 _)⟩
        rintro rfl
        exact List.cons_ne_nil text rest hperm.symm.eq_nil
  exact {
    perm := hperm
    sublist := hgrows.examples_sublist (by simp [Node.root])
    visits := fun leaf hleaf => by
      obtain ⟨k, hleaf⟩ := hvisits leaf hleaf
      exact ⟨k, hleaf, by simpa [Node.root, Node.level] using hleaf.level_add⟩
    examples_ne_nil := fun k node hnode hne => hnode.eq_top_or_examples_ne_nil.resolve_left hne
    searches := fun node hnode => ⟨hnode.examples_ne_nil, fun s hs => by
      rw [← List.length_append]
      exact hs.splits.perm.length_eq⟩
    pos := hlength.1
    length_le := hlength.2 }

end Grower

namespace Dataset

variable {d : Dataset} {config : TreeConfig} {tree : LearnedTree}

/-- **A partition of the examples.**  The leaves of a learned tree are those of nodes that share the
examples of the data set, each with the mean of its own examples; there is at least one, and there are
at most as many as there are examples. -/
theorem sharesOut_of_learnTree (h : d.learnTree config = .ok tree) :
    ∃ g nodes, d.grower config = .ok g ∧ g.grow config.maxDepth [.root d.examples] = .ok nodes ∧
      g.SharesOut config.maxDepth d.examples nodes ∧
      tree = .ofLeaves (nodes.map fun node => ⟨g.clauseOf node, d.mean node.examples⟩) ∧
      1 ≤ tree.size ∧ tree.size ≤ max 1 d.examples.length := by
  obtain ⟨g, hg, h⟩ := bind_eq_ok_iff.1 h
  obtain ⟨nodes, hnodes, h⟩ := bind_eq_ok_iff.1 h
  cases h
  have hshares := Grower.sharesOut_of_grow hnodes
  have hsize : (LearnedTree.ofLeaves (nodes.map g.leafOf)).size = nodes.length := by
    unfold LearnedTree.size
    rw [(LearnedTree.perm_ofLeaves _).length_eq, List.length_map]
  refine ⟨g, nodes, hg, hnodes, hshares, ?_, hsize ▸ hshares.pos, hsize ▸ hshares.length_le⟩
  have hdata : g.data = d := data_of_grower hg
  rw [← hdata]
  rfl

/-- A problem in which one person is a positive and a negative example. -/
def doubledData : Dataset :=
  cancerData ["friends(ann,bob)", "likes(ann,bob)"] ["cancer(ann)", "cancer(dan)"]
    ["cancer(ann)", "cancer(fay)"]

/-- What the tree of this problem is grown from. -/
def doubledGrower : Grower :=
  ⟨doubledData, .ofList [.fact ⟨"friends", ["ann", "bob"]⟩, .fact ⟨"likes", ["ann", "bob"]⟩],
    ⟨"cancer", ["A"]⟩, none⟩

/-- The leaves of the tree of this problem.  The second one is below a split with one side only. -/
def doubledLeaves : List Node :=
  let near : Term := ⟨"friends", ["A", "B"]⟩
  [⟨["cancer(ann)", "cancer(ann)"], [near], [near]⟩,
    ⟨["cancer(dan)", "cancer(fay)"], [], [⟨"likes", ["A", "A"]⟩, near]⟩]

theorem sharesOut_of_learnTree_doubled :
    (doubledData.examples.count "cancer(ann)" = 2 ∧ doubledData.learnTree .default =
      .ok (.ofLeaves (doubledLeaves.map doubledGrower.leafOf))) ∧
    ∃ g nodes, doubledData.grower .default = .ok g ∧
      g.grow TreeConfig.default.maxDepth [.root doubledData.examples] = .ok nodes ∧
      g.SharesOut TreeConfig.default.maxDepth doubledData.examples nodes ∧
      LearnedTree.ofLeaves (doubledLeaves.map doubledGrower.leafOf) =
        .ofLeaves (nodes.map fun node => ⟨g.clauseOf node, doubledData.mean node.examples⟩) ∧
      1 ≤ (LearnedTree.ofLeaves (doubledLeaves.map doubledGrower.leafOf)).size ∧
      (LearnedTree.ofLeaves (doubledLeaves.map doubledGrower.leafOf)).size ≤
        max 1 doubledData.examples.length := by
  have hrules : doubledData.facts.mapM Rule.parse =
      .ok [.fact ⟨"friends", ["ann", "bob"]⟩, .fact ⟨"likes", ["ann", "bob"]⟩] := by decide +kernel
  have hgrow : { doubledGrower with limit := some 100 }.grow 2 [.root doubledData.examples] =
      .ok doubledLeaves := by decide +kernel
  have hgrower : doubledData.grower .default = .ok doubledGrower := grower_cancerData hrules
  have hlearn := learnTree_eq hgrower (Grower.grow_of_limited rfl hgrow)
  exact ⟨⟨by decide +kernel, hlearn⟩, sharesOut_of_learnTree hlearn⟩

end Dataset

end ClauseForest
