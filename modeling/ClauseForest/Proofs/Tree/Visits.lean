/-
**The nodes of a tree**

A tree is grown from its top, and the nodes on the way down are those that the expansion of a node above
gives.  The number of edges on the way to a node and the number of levels that may still follow make
up the depth.  A side without examples is dropped, so every node below the top has examples; and a
node without examples is pure.  No test is ever tried on no examples, and the weights of a score are
never divided by zero.

Main definitions:

* `Grower.Visits` — the nodes of the tree that is grown from its top;
* `Grower.Searches` — the best split of a node is searched.

Main results:

* `Grower.Visits.of_edges` — what is passed on along the edges holds of all nodes;
* `Grower.Visits.eq_top_or_examples_ne_nil` — **nodes below the top have examples**;
* `Grower.Searches.examples_ne_nil` — so have nodes whose best split is searched;
* `Grower.visits_of_grow` — the leaves are nodes of the tree.
-/

import ClauseForest.Proofs.Tree.Routing

set_option relaxedAutoImplicit false
set_option autoImplicit false

namespace ClauseForest.Grower

variable {g : Grower}

/-! ### Expansion -/

theorem expand_of_isPure {node : Node} (h : g.isPure node = true) : g.expand node = .ok none := by
  unfold expand
  rw [if_pos h]
  rfl

/-- No examples have the variance zero. -/
theorem isPure_of_examples_eq_nil {node : Node} (h : node.examples = []) : g.isPure node = true := by
  have hzero : roundsToZero 0.0 = true := by decide +kernel
  have hvariance : g.data.variance [] = 0.0 := rfl
  unfold isPure
  rw [h, hvariance, hzero]

theorem level_of_mem_children {node child : Node} {s : Split} (h : child ∈ children node s) :
    child.level = node.level + 1 := by
  rcases mem_children_iff.1 h with ⟨-, rfl⟩ | ⟨-, rfl⟩ <;> rfl

/-! ### Nodes -/

/-- The nodes of the tree that is grown from its top, and the number of levels that may follow. -/
inductive Visits (g : Grower) (depth : Nat) (top : Node) : Nat → Node → Prop
  | top : Visits g depth top depth top
  | child {k : Nat} {node child : Node} {below : List Node} (h : Visits g depth top (k + 1) node)
      (hexpand : g.expand node = .ok (some below)) (hchild : child ∈ below) : Visits g depth top k child

/-- The best split of a node is searched: the node is above the deepest level and not pure, and its
tests are known. -/
structure Searches (g : Grower) (depth : Nat) (top node : Node) : Prop where
  visits : ∃ k, g.Visits depth top (k + 1) node
  mixed : g.isPure node = false
  tests : ∃ tests, g.testsAt node = .ok tests

theorem Searches.examples_ne_nil {depth : Nat} {top node : Node} (h : g.Searches depth top node) :
    node.examples ≠ [] := by
  intro hnil
  have hmixed := h.mixed
  rw [isPure_of_examples_eq_nil hnil] at hmixed
  cases hmixed

namespace Visits

variable {depth k : Nat} {top node : Node}

theorem level_add (h : g.Visits depth top k node) : node.level + k = top.level + depth := by
  induction h with
  | top => rfl
  | @child k node child below _ hexpand hchild ih =>
      obtain ⟨s, -, rfl⟩ := exists_scored_of_expand hexpand
      have hlevel := level_of_mem_children hchild
      omega

/-- What is passed on along the edges of a tree holds of all of its nodes. -/
theorem of_edges {P : Node → Prop} (h : g.Visits depth top k node) (htop : P top)
    (hedge : ∀ node s child, P node → g.Splits node s → child ∈ children node s → P child) :
    P node := by
  induction h with
  | top => exact htop
  | @child k node child below _ hexpand hchild ih =>
      obtain ⟨s, hs, rfl⟩ := exists_scored_of_expand hexpand
      exact hedge node s child ih hs.splits hchild

/-- Nodes below the top have examples. -/
theorem eq_top_or_examples_ne_nil (h : g.Visits depth top k node) :
    node = top ∨ node.examples ≠ [] := by
  cases h with
  | top => exact .inl rfl
  | child _ hexpand hchild =>
      obtain ⟨s, -, rfl⟩ := exists_scored_of_expand hexpand
      rcases mem_children_iff.1 hchild with ⟨hside, rfl⟩ | ⟨hside, rfl⟩ <;> exact .inr hside

end Visits

/-! ### Leaves -/

/-- The nodes on the next level are children of nodes of the tree. -/
theorem visits_of_expandAll {depth k : Nat} {top : Node} {nodes leaves next : List Node}
    (h : g.expandAll nodes = .ok (leaves, next))
    (hnodes : ∀ node ∈ nodes, g.Visits depth top (k + 1) node) :
    (∀ leaf ∈ leaves, g.Visits depth top (k + 1) leaf) ∧ ∀ child ∈ next, g.Visits depth top k child := by
  induction nodes generalizing leaves next with
  | nil =>
      cases h
      exact ⟨nofun, nofun⟩
  | cons node nodes ih =>
      obtain ⟨expanded, hexpanded, h⟩ := bind_eq_ok_iff.1 h
      obtain ⟨⟨leaves', next'⟩, hrest, h⟩ := bind_eq_ok_iff.1 h
      have hnode := hnodes node (by simp)
      obtain ⟨hleaves, hnext⟩ := ih hrest fun other hother => hnodes other (List.mem_cons_of_mem _ hother)
      cases expanded with
      | none =>
          cases h
          exact ⟨List.forall_mem_cons.2 ⟨hnode, hleaves⟩, hnext⟩
      | some below =>
          cases h
          refine ⟨hleaves, fun child hchild => ?_⟩
          rcases List.mem_append.1 hchild with hchild | hchild
          · exact .child hnode hexpanded hchild
          · exact hnext child hchild

/-- The leaves are nodes of the tree. -/
theorem visits_of_grow {depth k : Nat} {top : Node} {nodes leaves : List Node}
    (h : g.grow k nodes = .ok leaves) (hnodes : ∀ node ∈ nodes, g.Visits depth top k node) :
    ∀ leaf ∈ leaves, ∃ k, g.Visits depth top k leaf := by
  induction k generalizing nodes leaves with
  | zero => cases nodes <;> cases h <;> exact fun leaf hleaf => ⟨0, hnodes leaf hleaf⟩
  | succ k ih =>
      cases nodes with
      | nil =>
          cases h
          exact nofun
      | cons node nodes =>
          obtain ⟨⟨found, next⟩, hexpand, h⟩ := bind_eq_ok_iff.1 h
          obtain ⟨below, hbelow, h⟩ := bind_eq_ok_iff.1 h
          cases h
          obtain ⟨hfound, hnext⟩ := visits_of_expandAll hexpand hnodes
          intro leaf hleaf
          rcases List.mem_append.1 hleaf with hleaf | hleaf
          · exact ⟨_, hfound leaf hleaf⟩
          · exact ih hbelow hnext leaf hleaf

end ClauseForest.Grower
