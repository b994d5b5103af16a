/-
**The clauses of a tree are different**

The tests on the way to a node are excluded from those that may be tested there, whichever edges
were taken.  They are excluded by their written forms, and a test that is built of names is the only
term with its written form.  So no test stands twice on a path, and none twice in a clause.

Any two leaves part at a node: one is on its left edge and has its test in the clause, the other is
on its right edge.  There the test is excluded from then on, so it is not in the other clause, and
the clauses have different sets of tests.  In particular at most one of them has no tests at all,
and it is sorted to the end.

Main definitions:

* `Grower.TestsOnce` — the tests on the way to a node are different ones;
* `Grower.Apart` — two nodes part at a test;
* `LearnedTree.Distinct` — the clauses of a tree are different.

Main results:

* `Grower.OfNames.not_mem_path` — **no test is chosen twice on a path**;
* `Grower.OfNames.pairwise_apart` — any two leaves part at a test;
* `Dataset.distinct_of_learnTree` — **the clauses of a learned tree are different**.
-/

import ClauseForest.Proofs.Tree.Agreement
import ClauseForest.Proofs.Tree.Named

set_option relaxedAutoImplicit false
set_option autoImplicit false

namespace ClauseForest

/-! ### Paths -/

namespace Grower

variable {g : Grower}

/-- The tests on the way to a node are different ones, built of names, and the clause of the node
has some of them; so many levels may follow. -/
structure TestsOnce (depth k : Nat) (node : Node) : Prop where
  named : ∀ test ∈ node.lefts, test.Named
  sublist : node.lefts.Sublist node.path
  nodup : node.path.Nodup
  level_add : node.level + k ≤ depth

theorem testsOnce_root (depth : Nat) (examples : List String) :
    TestsOnce depth depth (.root examples) where
  named := by simp [Node.root]
  sublist := .slnil
  nodup := .nil
  level_add := by simp [Node.root, Node.level]

theorem TestsOnce.succ {depth k : Nat} {node : Node} (h : TestsOnce depth (k + 1) node) :
    TestsOnce depth k node where
  named := h.named
  sublist := h.sublist
  nodup := h.nodup
  level_add := by
    have hlevel := h.level_add
    omega

namespace OfNames

/-- No test is chosen twice on a path. -/
theorem not_mem_path (h : g.OfNames) {node : Node} {s : Split}
    (hnode : ∀ test ∈ node.lefts, test.Named) (hs : g.Splits node s) : s.test ∉ node.path := by
  obtain ⟨tests, htests, text, htext, htest⟩ := hs.test
  obtain ⟨test, hnamed, rfl⟩ :=
    LanguageBias.named_of_mem_candidates h.literals (h.named_clauseOf hnode) htests htext
  rw [hnamed.parse_render] at htest
  cases htest
  intro hpath
  exact LanguageBias.not_mem_of_mem_candidates htests htext (List.mem_map_of_mem hpath)

theorem testsOnce_child (h : g.OfNames) {depth k : Nat} {node child : Node} {s : Split}
    (hnode : TestsOnce depth (k + 1) node) (hs : g.Splits node s) (hchild : child ∈ children node s) :
    TestsOnce depth k child := by
  have hnamed := h.named_child hnode.named hs hchild
  have hnodup : (s.test :: node.path).Nodup :=
    List.nodup_cons.2 ⟨h.not_mem_path hnode.named hs, hnode.nodup⟩
  have hlevel := hnode.level_add
  rcases mem_children_iff.1 hchild with ⟨-, rfl⟩ | ⟨-, rfl⟩
  · refine ⟨hnamed, hnode.sublist.cons_cons s.test, hnodup, ?_⟩
    simp only [Node.level, Node.left, List.length_cons] at hlevel ⊢
    omega
  · refine ⟨hnamed, hnode.sublist.cons s.test, hnodup, ?_⟩
    simp only [Node.level, Node.right, List.length_cons] at hlevel ⊢
    omega

/-- The tests on the way to a leaf are different ones. -/
theorem testsOnce_of_grows (h : g.OfNames) {depth k : Nat} {nodes leaves : List Node}
    (hgrows : g.Grows k nodes leaves) (hnodes : ∀ node ∈ nodes, TestsOnce depth k node) :
    ∀ leaf ∈ leaves, TestsOnce depth 0 leaf :=
  hgrows.forall_leaves (fun _ _ _ _ hnode hs hchild => h.testsOnce_child hnode hs hchild)
    (fun _ _ hnode => hnode.succ) hnodes

end OfNames

/-! ### Where two leaves part -/

/-- A test is in the clause of a node, and was chosen on the way to the other without getting into
its clause. -/
def PartsAt (test : Term) (node other : Node) : Prop :=
  test ∈ node.lefts ∧ test ∈ other.path ∧ test ∉ other.lefts

/-- Two nodes part at a test. -/
def Apart (node other : Node) : Prop :=
  ∃ test, PartsAt test node other ∨ PartsAt test other node

theorem Apart.symm {node other : Node} (h : Apart node other) : Apart other node := by
  obtain ⟨test, h⟩ := h
  exact ⟨test, h.symm⟩

theorem lefts_subset_of_mem_children {node child : Node} {s : Split}
    (hchild : child ∈ children node s) :
    node.lefts ⊆ child.lefts ∧ child.path = s.test :: node.path ∧
      child.lefts ⊆ s.test :: node.lefts := by
  rcases mem_children_iff.1 hchild with ⟨-, rfl⟩ | ⟨-, rfl⟩
  · exact ⟨List.subset_cons_self _ _, rfl, List.Subset.refl _⟩
  · exact ⟨List.Subset.refl _, rfl, List.subset_cons_self _ _⟩

/-- Below a node the test is not chosen again, so the sides of the node are apart from the other as
well. -/
theorem OfNames.apart_child (h : g.OfNames) {node child other : Node} {s : Split}
    (hnode : ∀ test ∈ node.lefts, test.Named) (hs : g.Splits node s) (hchild : child ∈ children node s)
    (hapart : Apart node other) : Apart child other := by
  obtain ⟨hlefts, hpath, hnew⟩ := lefts_subset_of_mem_children hchild
  obtain ⟨test, ⟨hmem, hother, hfree⟩ | ⟨hmem, hnodePath, hfree⟩⟩ := hapart
  · exact ⟨test, .inl ⟨hlefts hmem, hother, hfree⟩⟩
  · refine ⟨test, .inr ⟨hmem, hpath ▸ List.mem_cons_of_mem _ hnodePath, fun hchildLefts => ?_⟩⟩
    rcases List.mem_cons.1 (hnew hchildLefts) with rfl | hold
    · exact h.not_mem_path hnode hs hnodePath
    · exact hfree hold

/-- The sides of a split part at its test. -/
theorem OfNames.apart_sides (h : g.OfNames) {depth k : Nat} {node : Node} {s : Split}
    (hnode : TestsOnce depth k node) (hs : g.Splits node s) : (children node s).Pairwise Apart := by
  have hsides : Apart (node.left s.test s.satisfied) (node.right s.test s.unsatisfied) := by
    refine ⟨s.test, .inl ⟨by simp [Node.left], by simp [Node.right], fun hmem => ?_⟩⟩
    exact h.not_mem_path hnode.named hs (hnode.sublist.subset hmem)
  unfold children
  split <;> split <;> simp [hsides]

/-- Any two leaves part at a test. -/
theorem OfNames.pairwise_apart (h : g.OfNames) {depth k : Nat} {nodes leaves : List Node}
    (hgrows : g.Grows k nodes leaves) (hnodes : ∀ node ∈ nodes, TestsOnce depth k node)
    (hpairs : nodes.Pairwise Apart) : leaves.Pairwise Apart :=
  hgrows.pairwise (P := TestsOnce depth) Apart.symm
    (fun _ _ _ _ hnode hs hchild => h.testsOnce_child hnode hs hchild)
    (fun _ _ hnode => hnode.succ)
    (fun _ _ _ _ _ hnode hs hchild hapart => h.apart_child hnode.named hs hchild hapart)
    (fun _ _ _ hnode hs => h.apart_sides hnode hs) hnodes hpairs

theorem Apart.toFinset_ne {node other : Node} (h : Apart node other) :
    node.lefts.toFinset ≠ other.lefts.toFinset := by
  intro heq
  have hsame : ∀ test, test ∈ node.lefts ↔ test ∈ other.lefts := by
    intro test
    rw [← List.mem_toFinset, heq, List.mem_toFinset]
  obtain ⟨test, ⟨hmem, -, hfree⟩ | ⟨hmem, -, hfree⟩⟩ := h
  · exact hfree ((hsame test).1 hmem)
  · exact hfree ((hsame test).2 hmem)

end Grower

/-! ### Learned trees -/

/-- The clauses of a tree of some depth are different, and come in the order of their lengths. -/
structure LearnedTree.Distinct (depth : Nat) (tree : LearnedTree) : Prop where
  /-- No clause has a test twice. -/
  nodup : ∀ leaf ∈ tree.leaves, leaf.rule.body.Nodup
  /-- No two clauses have the same set of tests. -/
  differ : tree.leaves.Pairwise fun leaf other => leaf.rule.body.toFinset ≠ other.rule.body.toFinset
  /-- No clause is longer than one before it. -/
  sorted : tree.leaves.Pairwise fun leaf other => other.rule.body.length ≤ leaf.rule.body.length
  /-- No clause is longer than the tree is deep. -/
  length_le : ∀ leaf ∈ tree.leaves, leaf.rule.body.length ≤ depth
  /-- At most one clause is unconditional. -/
  countP_le : tree.leaves.countP Leaf.isUnconditional ≤ 1
  /-- A clause that is unconditional is the last one. -/
  last : ∀ before leaf after, tree.leaves = before ++ leaf :: after → leaf.isUnconditional = true →
    after = []

namespace LearnedTree

/-- Among clauses that are different at most one is unconditional. -/
theorem countP_isUnconditional_le {leaves : List Leaf}
    (h : leaves.Pairwise fun leaf other => leaf.rule.body.toFinset ≠ other.rule.body.toFinset) :
    leaves.countP Leaf.isUnconditional ≤ 1 := by
  have hpairs := h.filter Leaf.isUnconditional
  have hbodies : ∀ leaf ∈ leaves.filter Leaf.isUnconditional, leaf.rule.body = [] :=
    fun leaf hleaf => List.isEmpty_iff.1 (List.mem_filter.1 hleaf).2
  rw [List.countP_eq_length_filter]
  match hfound : leaves.filter Leaf.isUnconditional with
  | [] => simp
  | [leaf] => simp
  | leaf :: other :: rest =>
      rw [hfound] at hpairs hbodies
      refine absurd ?_ (List.rel_of_pairwise_cons hpairs (List.mem_cons_self ..))
      rw [hbodies leaf (by simp), hbodies other (by simp)]

/-- Different clauses are sorted to a tree whose clauses are different. -/
theorem distinct_ofLeaves {depth : Nat} {leaves : List Leaf}
    (hnodup : ∀ leaf ∈ leaves, leaf.rule.body.Nodup)
    (hdiffer : leaves.Pairwise fun leaf other => leaf.rule.body.toFinset ≠ other.rule.body.toFinset)
    (hlength : ∀ leaf ∈ leaves, leaf.rule.body.length ≤ depth) :
    (ofLeaves leaves).Distinct depth := by
  have hpairs : (ofLeaves leaves).leaves.Pairwise
      fun leaf other => leaf.rule.body.toFinset ≠ other.rule.body.toFinset :=
    ((perm_ofLeaves leaves).pairwise_iff Ne.symm).2 hdiffer
  refine ⟨fun leaf hleaf => hnodup leaf (mem_ofLeaves.1 hleaf), hpairs, pairwise_ofLeaves leaves,
    fun leaf hleaf => hlength leaf (mem_ofLeaves.1 hleaf), countP_isUnconditional_le hpairs, ?_⟩
  intro before leaf after heq hleaf
  have hempty : leaf.rule.body = [] := List.isEmpty_iff.1 hleaf
  -- a clause after it would be no longer, hence unconditional as well
  refine List.eq_nil_iff_forall_not_mem.2 fun other hother => ?_
  have hsorted := pairwise_ofLeaves leaves
  rw [heq] at hsorted hpairs
  have hle := List.rel_of_pairwise_cons (List.pairwise_append.1 hsorted).2.1 hother
  have hne := List.rel_of_pairwise_cons (List.pairwise_append.1 hpairs).2.1 hother
  have hother : other.rule.body = [] := by
    refine List.length_eq_zero_iff.1 (Nat.le_zero.1 ?_)
    simpa [Leaf.specificity, hempty] using hle
  exact hne (by rw [hempty, hother])

end LearnedTree

namespace Dataset

/-- **The clauses of a learned tree are different.**  Whatever the facts, the examples, their values
and the parameters, no clause of a tree that is learned for a declared background has a test twice,
and no two clauses have the same set of tests.  The clauses are no longer than the tree may be deep,
and come in the order of their lengths, the longest first.  At most one is unconditional, and it is
the last. -/
theorem distinct_of_learnTree (d : Dataset) (hd : d.HasBackground) (config : TreeConfig)
    (tree : LearnedTree) (h : d.learnTree config = .ok tree) : tree.Distinct config.maxDepth := by
  obtain ⟨g, hg, hgrow⟩ := bind_eq_ok_iff.1 h
  obtain ⟨nodes, hnodes, htree⟩ := bind_eq_ok_iff.1 hgrow
  cases htree
  have hnames := Grower.ofNames_of_grower hg hd
  have hgrows := Grower.grows_of_grow hnodes
  have hroot : ∀ node ∈ [Node.root d.examples],
      Grower.TestsOnce config.maxDepth config.maxDepth node := by
    simpa using Grower.testsOnce_root config.maxDepth d.examples
  have honce := hnames.testsOnce_of_grows hgrows hroot
  have hapart := hnames.pairwise_apart hgrows hroot (List.pairwise_singleton ..)
  refine LearnedTree.distinct_ofLeaves ?_ ?_ ?_
  · intro leaf hleaf
    obtain ⟨node, hnode, rfl⟩ := List.mem_map.1 hleaf
    exact (honce node hnode).sublist.nodup (honce node hnode).nodup
  · exact List.pairwise_map.2 (hapart.imp fun hpair => hpair.toFinset_ne)
  · intro leaf hleaf
    obtain ⟨node, hnode, rfl⟩ := List.mem_map.1 hleaf
    exact (honce node hnode).sublist.length_le.trans ((honce node hnode).level_add)

/-- The theorem for the tree of a problem whose clauses have two tests, one test and none. -/
theorem distinct_of_learnTree_likes :
    (likesData.HasBackground ∧
      likesData.learnTree .default = .ok (.ofLeaves (likesLeaves.map likesGrower.leafOf))) ∧
      (LearnedTree.ofLeaves (likesLeaves.map likesGrower.leafOf)).Distinct 2 := by
  have hlearn := learnTree_eq grower_likesData grow_likesGrower
  exact ⟨⟨hasBackground_cancerData _ _ _, hlearn⟩,
    distinct_of_learnTree likesData (hasBackground_cancerData _ _ _) .default _ hlearn⟩

end Dataset

end ClauseForest
