/-
**Learned trees as leaf records**

A tree is learned from a declared background: its target is made of a declared name and new variables, and
its tests are made of declared names and constants, of variables of the clause and of new ones.  So along
every path all tests are built of names.  Every clause that can be learned is then written without
ambiguity, and the tree is read back from its leaf records.

Main definitions:

* `Grower.OfNames` — what a tree is grown from is built of names.

Main results:

* `Grower.OfNames.named_of_grows` — **every test on the way to a leaf is built of names**;
* `Dataset.named_of_learnTree` — so is every clause of a learned tree;
* `Dataset.parse_records_of_learnTree` — a learned tree is read back from its leaf records;
* `Dataset.parse_records_learnTree` — as an equal tree, if its values are numbers.
-/

import ClauseForest.Proofs.Boosting.StepLimit
import ClauseForest.Proofs.Refinement.Names
import ClauseForest.Proofs.Tree.Records

set_option relaxedAutoImplicit false
set_option autoImplicit false

namespace ClauseForest

/-! ### Paths -/

namespace Grower

variable {g : Grower}

/-- What a tree is grown from is built of names. -/
structure OfNames (g : Grower) : Prop where
  target : g.target.Named
  literals : ∀ decl ∈ g.data.literals, decl.WellFormed

/-- Trees of data sets with a background are grown from names. -/
theorem ofNames_of_grower {d : Dataset} {config : TreeConfig} (hg : d.grower config = .ok g)
    (hd : d.HasBackground) : g.OfNames := by
  obtain ⟨rules, target, -, htarget, rfl⟩ := Dataset.grower_eq_ok_iff.1 hg
  obtain ⟨decl, hdecl, heq, hliterals⟩ := hd.exists_decl
  have hnamed := Dataset.named_targetTerm hdecl
  rw [heq, hnamed.parse_render] at htarget
  cases htarget
  exact ⟨hnamed, fun literal hliteral => (hliterals literal hliteral).1⟩

namespace OfNames

theorem named_clauseOf (h : g.OfNames) {node : Node} (hnode : ∀ test ∈ node.lefts, test.Named) :
    (g.clauseOf node).Named := ⟨h.target, hnode⟩

/-- A test at a node whose clause is built of names is built of names. -/
theorem named_of_splits (h : g.OfNames) {node : Node} {s : Split}
    (hnode : ∀ test ∈ node.lefts, test.Named) (hs : g.Splits node s) : s.test.Named := by
  obtain ⟨tests, htests, text, htext, htest⟩ := hs.test
  obtain ⟨test, hnamed, rfl⟩ :=
    LanguageBias.named_of_mem_candidates h.literals (h.named_clauseOf hnode) htests htext
  rw [hnamed.parse_render] at htest
  cases htest
  exact hnamed

/-- The children of a node whose clause is built of names have such clauses. -/
theorem named_child (h : g.OfNames) {node child : Node} {s : Split}
    (hnode : ∀ test ∈ node.lefts, test.Named) (hs : g.Splits node s)
    (hchild : child ∈ children node s) : ∀ test ∈ child.lefts, test.Named := by
  rcases mem_children_iff.1 hchild with ⟨-, rfl⟩ | ⟨-, rfl⟩
  · intro test htest
    rcases List.mem_cons.1 htest with rfl | htest
    · exact h.named_of_splits hnode hs
    · exact hnode test htest
  · exact hnode

/-- Every test on the way to a leaf is built of names. -/
theorem named_of_grows (h : g.OfNames) {k : Nat} {nodes leaves : List Node}
    (hgrows : g.Grows k nodes leaves)
    (hnodes : ∀ node ∈ nodes, ∀ test ∈ node.lefts, test.Named) :
    ∀ leaf ∈ leaves, ∀ test ∈ leaf.lefts, test.Named :=
  hgrows.forall_leaves (P := fun _ node => ∀ test ∈ node.lefts, test.Named)
    (fun _ _ _ _ hnode hs hchild => h.named_child hnode hs hchild) (fun _ _ => id) hnodes

end OfNames

end Grower

/-! ### Leaf records -/

theorem isBlank_of_continuesName {c : Char} (h : Lexeme.continuesName c = true) :
    Text.isBlank c = false := by
  refine Text.isBlank_of_toNat ?_
  have hcases : (c.isUpper || c.isLower || c.isDigit || c == '_' || c == '\'') = true := h
  simp only [Bool.or_eq_true, beq_iff_eq] at hcases
  rcases hcases with (((h | h) | h) | rfl) | rfl
  · have hupper : 65 ≤ c.toNat ∧ c.toNat ≤ 90 := of_decide_eq_true h
    omega
  · have hlower : 97 ≤ c.toNat ∧ c.toNat ≤ 122 :=
      (Bool.and_eq_true_iff.1 h).imp of_decide_eq_true of_decide_eq_true
    omega
  · have hdigit : 48 ≤ c.toNat ∧ c.toNat ≤ 57 := Char.isDigit_iff_toNat.1 h
    omega
  · decide
  · decide

namespace Leaf

variable {leaf : Leaf}

/-- The record of a clause that is built of names does not begin with a blank. -/
theorem start_of_named (h : leaf.rule.Named) :
    leaf.render.toList.head?.any Text.isBlank = false := by
  obtain ⟨rest, hrest⟩ := toList_renderClause leaf.rule
  rw [render, String.toList_append, String.toList_append, hrest]
  cases hname : leaf.rule.head.predicate.toList with
  | nil => rfl
  | cons c name =>
      have hc := isBlank_of_continuesName (h.head.predicate c (by simp [hname]))
      simpa using hc

/-- A leaf whose clause is built of names is read back. -/
theorem parse_render_of_named (h : leaf.rule.Named) (hreads : Decimal.ReadsBack leaf.value) :
    parse leaf.render = .ok leaf :=
  parse_render h.parse_render (start_of_named h) hreads

end Leaf

/-! ### Learned trees -/

namespace Dataset

variable {d : Dataset} {config : TreeConfig} {tree : LearnedTree}

/-- Every clause of a learned tree is built of names. -/
theorem named_of_learnTree (hd : d.HasBackground) (h : d.learnTree config = .ok tree) :
    ∀ leaf ∈ tree.leaves, leaf.rule.Named := by
  obtain ⟨g, hg, hgrow⟩ := bind_eq_ok_iff.1 h
  obtain ⟨nodes, hnodes, htree⟩ := bind_eq_ok_iff.1 hgrow
  cases htree
  have hnames := Grower.ofNames_of_grower hg hd
  have hlefts := hnames.named_of_grows (Grower.grows_of_grow hnodes) (by simp [Node.root])
  intro leaf hleaf
  obtain ⟨node, hnode, rfl⟩ := List.mem_map.1 (LearnedTree.mem_ofLeaves.1 hleaf)
  exact hnames.named_clauseOf (hlefts node hnode)

/-- A learned tree is read back from its leaf records. -/
theorem parse_records_of_learnTree (hd : d.HasBackground) (h : d.learnTree config = .ok tree)
    (hreads : ∀ leaf ∈ tree.leaves, Decimal.ReadsBack leaf.value) :
    LearnedTree.parse tree.records = .ok tree :=
  LearnedTree.parse_records fun leaf hleaf =>
    Leaf.parse_render_of_named (named_of_learnTree hd h leaf hleaf) (hreads leaf hleaf)

/-- **Every learned tree is exactly representable as leaf records.**  Whatever the facts, the examples, their
values and the parameters, a tree that is learned for a declared background is read back from its leaf
records: with the same rules, the same values and in the same order.  If its values are numbers, the tree
that is read is equal to it. -/
theorem parse_records_learnTree (d : Dataset) (hd : d.HasBackground) (config : TreeConfig)
    (tree : LearnedTree) (h : d.learnTree config = .ok tree)
    (hnumbers : ∀ leaf ∈ tree.leaves, leaf.value.isNaN = false)
    (hreads : ∀ leaf ∈ tree.leaves, Decimal.ReadsBack leaf.value) :
    LearnedTree.parse tree.records = .ok tree ∧ (tree == tree) = true := by
  refine ⟨parse_records_of_learnTree hd h hreads, LearnedTree.beq_iff.2 (List.forall₂_same.2 ?_)⟩
  intro leaf hleaf
  exact Leaf.beq_iff.2 ⟨rfl, Decimal.beq_self_iff.2 (hnumbers leaf hleaf)⟩

theorem hasBackground_sizeData : sizeData.HasBackground := by
  refine ⟨_, "size", _, ?_, rfl, rfl, rfl, rfl⟩
  intro decl hdecl
  rcases List.mem_pair.1 hdecl with rfl | rfl
  · exact ⟨"tall(+person)", .inl (by decide +kernel)⟩
  · exact ⟨"size(+person)", .inl (by decide +kernel)⟩

/-- The theorem for the tree of the sizes of two persons. -/
theorem parse_records_learnTree_sizes :
    sizeData.HasBackground ∧ sizeData.learnTree (sizeConfig.tree.withLimit (some 20)) = .ok sizeTree ∧
      LearnedTree.parse sizeTree.records = .ok sizeTree ∧ (sizeTree == sizeTree) = true :=
  ⟨hasBackground_sizeData, learnTree_sizeData,
    parse_records_learnTree sizeData hasBackground_sizeData _ _ learnTree_sizeData
      (by decide +kernel) (by decide +kernel)⟩

end Dataset

end ClauseForest
