/-
**Which leaf answers in a tree of two levels**

Every example has a leaf of its own, the one that it was sent to while the tree was grown.  The
value of the tree comes from the first leaf that applies, which may be another one: leaves record
tests in another order than the one in which examples are sent along, and leave out the tests at
which an example went to the right.

In a tree of at most two levels neither makes a difference by itself.  Of two nodes one is to the
left of the other.  The right one has at most one test, and no more than the left one; and its
examples do not satisfy the tests of the left one, in the order in which they are proved.  So an
example is answered by its own leaf exactly if every leaf applies to it in the recorded order of the
tests just when it does in the order in which they are proved.  This is so if no test repeats a
variable that the target does not have.

Main definitions:

* `Grower.Reaches` — the tests of a node are satisfied in the order in which they are proved;
* `Grower.Leftward` — a node is to the left of another, with so many levels to follow;
* `Grower.OrderFree` — the order of the tests of leaves makes no difference to an example.

Main results:

* `Grower.OverFacts.pairwise_parted` — the order of the leaves goes with their places in the tree;
* `Dataset.answering_iff_orderFree` — **an example is answered by its own leaf if and only if the
  order of tests makes no difference to it**;
* `Dataset.not_forall_valueOf_eq_mean` — the order of tests does make a difference to some examples.
-/

import ClauseForest.Proofs.Tree.Coverage

set_option relaxedAutoImplicit false
set_option autoImplicit false

namespace ClauseForest

namespace Grower

variable {g : Grower} {rules : List Rule}

/-! ### Places in the tree -/

/-- The tests of a node are satisfied, from the one at the top to the nearest. -/
def Reaches (g : Grower) (node : Node) (text : String) : Prop :=
  node.lefts = [] ∨ g.satisfies node.lefts.reverse text = true

/-- A node is to the left of another, and so many levels may follow. -/
structure Leftward (g : Grower) (k : Nat) (node other : Node) : Prop where
  apart : ∀ text ∈ other.examples, ¬ g.Reaches node text
  few : other.lefts.length + k ≤ 1
  fewer : other.lefts.length + k ≤ node.lefts.length

theorem Leftward.succ {k : Nat} {node other : Node} (h : g.Leftward (k + 1) node other) :
    g.Leftward k node other := by
  have hfew := h.few
  have hfewer := h.fewer
  exact ⟨h.apart, by omega, by omega⟩

/-- A node of a tree of two levels, when so many levels may follow. -/
structure Fits (g : Grower) (k : Nat) (node : Node) : Prop where
  avoids : g.Avoids node.lefts
  room : node.lefts.length + k ≤ 2

theorem Fits.succ {k : Nat} {node : Node} (h : g.Fits (k + 1) node) : g.Fits k node := by
  have hroom := h.room
  exact ⟨h.avoids, by omega⟩

/-- Up to one test, the order in which tests are recorded is the one in which they are proved. -/
theorem reverse_lefts {node : Node} (h : node.lefts.length ≤ 1) :
    node.lefts.reverse = node.lefts := by
  match hlefts : node.lefts with
  | [] => rfl
  | [_] => rfl
  | _ :: _ :: _ => simp [hlefts] at h

/-- The examples that are routed to a node reach it. -/
theorem Fits.reaches {k : Nat} {node : Node} (h : g.Fits k node) (hrouted : g.Routed node) :
    ∀ text ∈ node.examples, g.Reaches node text := by
  intro text htext
  have hroom := h.room
  unfold Reaches
  match hlefts : node.lefts with
  | [] => exact .inl rfl
  | [test] => exact .inr (hrouted test [] hlefts text htext)
  | [test, first] => exact .inr (hrouted test [first] hlefts text htext)
  | _ :: _ :: _ :: _ =>
      simp only [hlefts, List.length_cons] at hroom
      omega

theorem length_lefts_le {node child : Node} {s : Split} (hchild : child ∈ children node s) :
    node.lefts.length ≤ child.lefts.length ∧ child.lefts.length ≤ node.lefts.length + 1 := by
  rcases mem_children_iff.1 hchild with ⟨-, rfl⟩ | ⟨-, rfl⟩
  · simp [Node.left]
  · simp [Node.right]

/-- Whoever reaches a side of a split reaches the node that is split. -/
theorem OverFacts.reaches_of_child (h : g.OverFacts rules) {node child : Node} {s : Split}
    (hs : g.Splits node s) (hchild : child ∈ children node s) (hnode : g.Avoids node.lefts)
    {text : String} (hreaches : g.Reaches child text) : g.Reaches node text := by
  rcases mem_children_iff.1 hchild with ⟨-, rfl⟩ | ⟨-, rfl⟩
  · rcases hreaches with hnil | hsat
    · cases hnil
    · have havoids := h.testsOthers.avoids_cons hs hnode
      have hboth : g.satisfies (node.lefts.reverse ++ [s.test]) text = true := by
        simpa [Node.left] using hsat
      refine .inr (h.satisfies_of_append (fun literal hliteral => ?_) hboth)
      exact havoids literal (by simpa [or_comm] using hliteral)
  · exact hreaches

theorem OverFacts.fits_child (h : g.OverFacts rules) {k : Nat} {node child : Node} {s : Split}
    (hs : g.Splits node s) (hchild : child ∈ children node s) (hnode : g.Fits (k + 1) node) :
    g.Fits k child := by
  have hroom := hnode.room
  have hlength := length_lefts_le hchild
  exact ⟨h.testsOthers.avoids_child hs hchild hnode.avoids, by omega⟩

/-! ### From level to level -/

/-- The sides of a node to the left are to the left of a node that is a leaf. -/
theorem OverFacts.leftward_child (h : g.OverFacts rules) {k : Nat} {node child other : Node}
    {s : Split} (hs : g.Splits node s) (hchild : child ∈ children node s)
    (hnode : g.Avoids node.lefts) (hleft : g.Leftward k node other) : g.Leftward k child other := by
  have hfewer := hleft.fewer
  have hlength := length_lefts_le hchild
  refine ⟨fun text htext hreaches => ?_, hleft.few, by omega⟩
  exact hleft.apart text htext (h.reaches_of_child hs hchild hnode hreaches)

/-- The sides of a node to the right are to the right. -/
theorem Leftward.child {k : Nat} {node other child : Node} {s : Split}
    (hleft : g.Leftward (k + 1) node other) (hs : g.Splits other s)
    (hchild : child ∈ children other s) : g.Leftward k node child := by
  have hfew := hleft.few
  have hfewer := hleft.fewer
  have hlength := length_lefts_le hchild
  refine ⟨fun text htext => ?_, by omega, by omega⟩
  exact hleft.apart text ((hs.examples_sublist hchild).subset htext)

theorem Fits.leftward_children {k : Nat} {node : Node} {s : Split}
    (hnode : g.Fits (k + 1) node) (hs : g.Splits node s) :
    (children node s).Pairwise (g.Leftward k) := by
  have hroom := hnode.room
  have hsides : g.Leftward k (node.left s.test s.satisfied) (node.right s.test s.unsatisfied) := by
    refine ⟨fun text htext hreaches => ?_, ?_, ?_⟩
    · have hnot := (hs.mem_unsatisfied_iff.1 htext).2
      rcases hreaches with hnil | hsat
      · cases hnil
      · have hreverse : node.lefts.reverse = node.lefts := reverse_lefts (by omega)
        simp only [Node.left, List.reverse_cons, hreverse] at hsat
        simp [hsat] at hnot
    · simp only [Node.right]
      omega
    · simp only [Node.left, Node.right, List.length_cons]
      omega
  unfold children
  split <;> split <;> simp [hsides]

/-- A leaf and a node of a lower level: the one is to the left of the other. -/
def Parted (g : Grower) (k : Nat) (leaf node : Node) : Prop :=
  g.Leftward k leaf node ∨ g.Leftward 0 node leaf ∧ leaf.lefts.length < node.lefts.length

theorem Leftward.zero {k : Nat} {node other : Node} (h : g.Leftward k node other) :
    g.Leftward 0 node other := by
  have hfew := h.few
  have hfewer := h.fewer
  exact ⟨h.apart, by omega, by omega⟩

theorem OverFacts.parted_child (h : g.OverFacts rules) {k : Nat} {leaf node child : Node}
    {s : Split} (hs : g.Splits node s) (hchild : child ∈ children node s)
    (hnode : g.Avoids node.lefts) (hparted : g.Parted (k + 1) leaf node) :
    g.Parted k leaf child := by
  have hlength := length_lefts_le hchild
  rcases hparted with hleft | ⟨hright, hlt⟩
  · exact .inl (hleft.child hs hchild)
  · exact .inr ⟨h.leftward_child hs hchild hnode hright, by omega⟩

/-- The nodes of the next level keep the order of the level above, and the leaves of a level have
their places among them. -/
theorem OverFacts.pairwise_expands (h : g.OverFacts rules) {k : Nat}
    {nodes leaves next : List Node} (hexpands : g.Expands nodes leaves next)
    (hnodes : ∀ node ∈ nodes, g.Fits (k + 1) node)
    (hpairs : nodes.Pairwise (g.Leftward (k + 1))) :
    leaves.Pairwise (g.Leftward (k + 1)) ∧ next.Pairwise (g.Leftward k) ∧
      ∀ leaf ∈ leaves, ∀ child ∈ next, g.Parted k leaf child := by
  induction hexpands with
  | nil => exact ⟨.nil, .nil, by simp⟩
  | @leaf node nodes leaves next hexpands ih =>
      obtain ⟨hfirst, hrest⟩ := List.pairwise_cons.1 hpairs
      obtain ⟨hleaves, hnext, hparted⟩ :=
        ih (fun other hother => hnodes other (List.mem_cons_of_mem _ hother)) hrest
      refine ⟨List.pairwise_cons.2 ⟨fun leaf hleaf => ?_, hleaves⟩, hnext, ?_⟩
      · exact hfirst leaf (hexpands.mem_leaves hleaf)
      · intro leaf hleaf child hchild
        rcases List.mem_cons.1 hleaf with rfl | hleaf
        · obtain ⟨other, hother, s, hs, hmem⟩ := hexpands.exists_of_mem_next hchild
          exact .inl ((hfirst other hother).child hs hmem)
        · exact hparted leaf hleaf child hchild
  | @split node s nodes leaves next hs hexpands ih =>
      obtain ⟨hfirst, hrest⟩ := List.pairwise_cons.1 hpairs
      obtain ⟨hleaves, hnext, hparted⟩ :=
        ih (fun other hother => hnodes other (List.mem_cons_of_mem _ hother)) hrest
      have hnode := hnodes node (by simp)
      refine ⟨hleaves, List.pairwise_append.2 ⟨hnode.leftward_children hs, hnext, ?_⟩, ?_⟩
      · intro child hchild below hbelow
        obtain ⟨other, hother, s', hs', hmem⟩ := hexpands.exists_of_mem_next hbelow
        exact h.leftward_child hs hchild hnode.avoids ((hfirst other hother).child hs' hmem)
      · intro leaf hleaf child hchild
        rcases List.mem_append.1 hchild with hchild | hchild
        · -- the leaf is to the right, and has fewer tests than any node to the left of it
          have hright := hfirst leaf (hexpands.mem_leaves hleaf)
          have hfewer := hright.fewer
          have hlength := length_lefts_le hchild
          exact .inr ⟨h.leftward_child hs hchild hnode.avoids hright.zero, by omega⟩
        · exact hparted leaf hleaf child hchild

/-- The order of the leaves goes with their places in the tree. -/
theorem OverFacts.pairwise_parted (h : g.OverFacts rules) {k : Nat} {nodes leaves : List Node}
    (hgrows : g.Grows k nodes leaves) (hnodes : ∀ node ∈ nodes, g.Fits k node)
    (hpairs : nodes.Pairwise (g.Leftward k)) : leaves.Pairwise (g.Parted 0) := by
  induction hgrows with
  | done nodes => exact hpairs.imp .inl
  | @level k nodes leaves next below hexpands hbelow ih =>
      obtain ⟨hleaves, hnext, hparted⟩ := h.pairwise_expands hexpands hnodes hpairs
      have hfits : ∀ child ∈ next, g.Fits k child := by
        intro child hchild
        obtain ⟨node, hnode, s, hs, hmem⟩ := hexpands.exists_of_mem_next hchild
        exact h.fits_child hs hmem (hnodes node hnode)
      refine List.pairwise_append.2 ⟨hleaves.imp fun hleft => .inl hleft.zero, ih hfits hnext, ?_⟩
      intro leaf hleaf
      have hedges := hbelow.forall_leaves
        (P := fun k node => g.Fits k node ∧ g.Parted k leaf node) ?_ ?_
        fun child hchild => ⟨hfits child hchild, hparted leaf hleaf child hchild⟩
      · exact fun other hother => (hedges other hother).2
      · rintro k node s child ⟨hnode, hpart⟩ hs hmem
        exact ⟨h.fits_child hs hmem hnode, h.parted_child hs hmem hnode.avoids hpart⟩
      · rintro k node ⟨hnode, hpart⟩
        exact ⟨hnode.succ, hpart.imp (·.succ) id⟩

/-! ### The leaf of an example -/

/-- The order in which the tests of leaves are proved makes no difference to an example. -/
def OrderFree (g : Grower) (leaves : List Node) (query : Term) : Prop :=
  ∀ leaf ∈ leaves, Session.prove ⟨g.facts, some ⟨g.target, leaf.lefts⟩, none⟩ query =
    Session.prove ⟨g.facts, some ⟨g.target, leaf.lefts.reverse⟩, none⟩ query

section

variable {leaves : List Node} {leaf : Node} {text : String} {query : Term}

theorem OverFacts.orderFree_iff (h : g.OverFacts rules)
    (hleaves : ∀ leaf ∈ leaves, g.Avoids leaf.lefts) (hquery : Term.parse text = .ok query) :
    g.OrderFree leaves query ↔
      ∀ leaf ∈ leaves, g.satisfies leaf.lefts text = g.satisfies leaf.lefts.reverse text := by
  refine forall₂_congr fun leaf hleaf => ?_
  have havoids := hleaves leaf hleaf
  obtain ⟨answer, hanswer⟩ := h.exists_prove havoids query
  have havoids' : g.Avoids leaf.lefts.reverse :=
    fun literal hliteral => havoids literal (List.mem_reverse.1 hliteral)
  obtain ⟨answer', hanswer'⟩ := h.exists_prove havoids' query
  rw [satisfies_of_parse hquery, satisfies_of_parse hquery, Session.proves_of_prove hanswer,
    Session.proves_of_prove hanswer']
  rw [h.limit] at hanswer hanswer'
  rw [hanswer, hanswer', Except.ok.injEq]

/-- Of two leaves, one is to the left of the other. -/
theorem leftward_or_of_ne (hpairs : leaves.Pairwise (g.Parted 0)) (hleaf : leaf ∈ leaves)
    {other : Node} (hother : other ∈ leaves) (hne : other ≠ leaf) :
    g.Leftward 0 other leaf ∨ g.Leftward 0 leaf other := by
  obtain ⟨before, after, rfl⟩ := List.append_of_mem hleaf
  obtain ⟨-, hafter, hbefore⟩ := List.pairwise_append.1 hpairs
  rcases List.mem_append.1 hother with hother | hother
  · exact (hbefore other hother leaf (by simp)).imp id And.left
  · have hmem := (List.mem_cons.1 hother).resolve_left hne
    exact ((List.rel_of_pairwise_cons hafter hmem).imp id And.left).symm

theorem covers_iff_reaches (h : g.satisfies leaf.lefts text = g.satisfies leaf.lefts.reverse text) :
    g.covers leaf text = true ↔ g.Reaches leaf text := by
  unfold covers Reaches
  rw [h, Bool.or_eq_true, List.isEmpty_iff]

/-- An example that does not depend on the order of tests is answered by its own leaf. -/
theorem OverFacts.answering_of_order (h : g.OverFacts rules)
    (hleaves : ∀ leaf ∈ leaves, g.Fits 0 leaf) (hrouted : ∀ leaf ∈ leaves, g.Routed leaf)
    (hpairs : leaves.Pairwise (g.Parted 0)) (hleaf : leaf ∈ leaves) (htext : text ∈ leaf.examples)
    (hquery : Term.parse text = .ok query)
    (horder : ∀ other ∈ leaves,
      g.satisfies other.lefts text = g.satisfies other.lefts.reverse text) :
    (LearnedTree.ofLeaves (leaves.map g.leafOf)).answering g.facts query none =
      some (g.leafOf leaf) := by
  have hcovers : ∀ other ∈ leaves,
      LearnedTree.applies g.facts query none (g.leafOf other) = .ok true →
        g.Reaches other text := by
    intro other hother happlies
    rw [h.applies_leafOf (hleaves other hother).avoids hquery] at happlies
    exact (covers_iff_reaches (horder other hother)).1 (Except.ok.inj happlies)
  have hreaches := (hleaves leaf hleaf).reaches (hrouted leaf hleaf) text htext
  have hown : LearnedTree.applies g.facts query none (g.leafOf leaf) = .ok true := by
    rw [h.applies_leafOf (hleaves leaf hleaf).avoids hquery,
      (covers_iff_reaches (horder leaf hleaf)).2 hreaches]
  obtain ⟨before, after, rfl⟩ := List.append_of_mem hleaf
  obtain ⟨-, hafter, hbefore⟩ := List.pairwise_append.1 hpairs
  refine LearnedTree.answering_ofLeaves_eq_some_iff.2
    ⟨hown, before.map g.leafOf, after.map g.leafOf, by simp, ?_, ?_⟩
  · intro found hfound happlies
    obtain ⟨other, hother, rfl⟩ := List.mem_map.1 hfound
    have hother' := hcovers other (List.mem_append_left _ hother) happlies
    rcases hbefore other hother leaf (by simp) with hleft | ⟨-, hlt⟩
    · exact absurd hother' (hleft.apart text htext)
    · exact hlt
  · intro found hfound happlies
    obtain ⟨other, hother, rfl⟩ := List.mem_map.1 hfound
    have hother' := hcovers other (by simp [hother]) happlies
    rcases List.rel_of_pairwise_cons hafter hother with hleft | ⟨hleft, -⟩
    · exact hleft.fewer
    · exact absurd hother' (hleft.apart text htext)

/-- An example that is answered by its own leaf does not depend on the order of tests. -/
theorem OverFacts.order_of_answering (h : g.OverFacts rules)
    (hleaves : ∀ leaf ∈ leaves, g.Fits 0 leaf) (hrouted : ∀ leaf ∈ leaves, g.Routed leaf)
    (hpairs : leaves.Pairwise (g.Parted 0)) (hleaf : leaf ∈ leaves) (htext : text ∈ leaf.examples)
    (hquery : Term.parse text = .ok query)
    (hanswering : (LearnedTree.ofLeaves (leaves.map g.leafOf)).answering g.facts query none =
      some (g.leafOf leaf)) :
    ∀ other ∈ leaves, g.satisfies other.lefts text = g.satisfies other.lefts.reverse text := by
  intro other hother
  have happlies := fun node hnode => h.applies_leafOf (hleaves node hnode).avoids hquery
  by_cases hshort : other.lefts.length ≤ 1
  · rw [reverse_lefts hshort]
  have hlefts : other.lefts ≠ [] := by
    intro hnil
    simp [hnil] at hshort
  by_cases heq : other = leaf
  · -- the own leaf applies in both orders
    subst heq
    have hcovers : g.covers other text = true := by
      have hfound := LearnedTree.applies_of_answering hanswering
      rw [happlies other hother] at hfound
      exact Except.ok.inj hfound
    have hreaches :=
      ((hleaves other hother).reaches (hrouted other hother) text htext).resolve_left hlefts
    rw [hreaches]
    simpa [covers, hlefts] using hcovers
  · -- any other leaf with two tests is to the left, and applies in neither order
    have hleft : g.Leftward 0 other leaf := by
      rcases leftward_or_of_ne hpairs hleaf hother heq with hleft | hright
      · exact hleft
      · have hfew := hright.few
        omega
    have hreaches : g.satisfies other.lefts.reverse text = false := by
      rw [← Bool.not_eq_true]
      exact fun hsat => hleft.apart text htext (.inr hsat)
    have hcovers : g.satisfies other.lefts text = false := by
      rw [← Bool.not_eq_true]
      intro hsat
      have hle : other.lefts.length ≤ leaf.lefts.length :=
        LearnedTree.specificity_le_of_answering hanswering (List.mem_map_of_mem hother)
          (by simp [happlies other hother, covers, hsat])
      have hfew := hleft.few
      omega
    rw [hreaches, hcovers]

end

end Grower

/-! ### Data sets -/

namespace Dataset

variable {d : Dataset} {config : TreeConfig} {g : Grower} {nodes : List Node}

/-- In a tree of at most two levels, an example is answered by its own leaf if and only if the order
of tests makes no difference to it; then it has the mean of the examples of the leaf as its value.
The order makes no difference if no test repeats a variable that the target does not have. -/
theorem answering_iff_orderFree (hfacts : d.HasFacts) (hexamples : d.HasExamples)
    (hbackground : d.HasBackground) (hdepth : config.maxDepth ≤ 2)
    (hlimit : config.stepLimit = none) (hg : d.grower config = .ok g)
    (hnodes : g.grow config.maxDepth [.root d.examples] = .ok nodes) :
    d.learnTree config = .ok (.ofLeaves (nodes.map g.leafOf)) ∧
      (∀ text ∈ d.examples, ∃ node ∈ nodes, text ∈ node.examples) ∧
      ∀ node ∈ nodes, ∀ text ∈ node.examples, ∀ query, Term.parse text = .ok query →
        ((LearnedTree.ofLeaves (nodes.map g.leafOf)).answering g.facts query none =
          some (g.leafOf node) ↔ g.OrderFree nodes query) ∧
        (g.OrderFree nodes query →
          (LearnedTree.ofLeaves (nodes.map g.leafOf)).valueOf g.facts query none =
            .ok (some (d.mean node.examples))) ∧
        ((∀ other ∈ nodes, ∀ test ∈ other.lefts, test.RepeatsOnly g.target.args) →
          g.OrderFree nodes query) := by
  obtain ⟨rules, hover⟩ := Grower.exists_overFacts hg hfacts hbackground hlimit
  have hgrows := Grower.grows_of_grow hnodes
  have hroot : ∀ node ∈ [Node.root d.examples], g.Fits config.maxDepth node := by
    intro node hnode
    rw [List.mem_singleton.1 hnode]
    exact ⟨by simp [Node.root, Grower.Avoids], by simpa [Node.root] using hdepth⟩
  have hfits : ∀ node ∈ nodes, g.Fits 0 node :=
    hgrows.forall_leaves (fun _ _ _ _ hnode hs hmem => hover.fits_child hs hmem hnode)
      (fun _ _ => (·.succ)) hroot
  have hrouted := Grower.routed_of_grows hgrows (by simp [Node.root, Grower.Routed])
  have hpairs := hover.pairwise_parted hgrows hroot (List.pairwise_singleton _ _)
  have havoids : ∀ node ∈ nodes, g.Avoids node.lefts := fun node hnode => (hfits node hnode).avoids
  have hsubset : ∀ node ∈ nodes, ∀ text ∈ node.examples, text ∈ d.examples :=
    hgrows.examples_subset (by simp [Node.root])
  refine ⟨learnTree_eq hg hnodes, fun text htext => ?_, ?_⟩
  · exact hgrows.exists_leaf ⟨_, List.mem_singleton.2 rfl, htext⟩
  intro node hnode text htext query hquery
  have horder := hover.orderFree_iff havoids hquery
  have hiff : (LearnedTree.ofLeaves (nodes.map g.leafOf)).answering g.facts query none =
      some (g.leafOf node) ↔ g.OrderFree nodes query := by
    rw [horder]
    exact ⟨hover.order_of_answering hfits hrouted hpairs hnode htext hquery,
      hover.answering_of_order hfits hrouted hpairs hnode htext hquery⟩
  refine ⟨hiff, fun hfree => ?_, fun hrepeats => horder.2 fun other hother => ?_⟩
  · rw [hover.valueOf_ofLeaves havoids hquery, hiff.2 hfree, ← data_of_grower hg]
    rfl
  · exact hover.satisfies_perm other.lefts.reverse_perm.symm (havoids other hother)
      (hrepeats other hother) hquery
      (hexamples text (hsubset node hnode text htext) query hquery)

/-! ### An example with the value of another leaf -/

/-- A problem whose best tests ask for a friend who likes himself.  Of the two persons with a
friend, only one has such a friend. -/
def likesData : Dataset :=
  cancerData ["friends(ann,bob)", "likes(bob,bob)", "friends(dan,eve)", "likes(eve,kim)"]
    ["cancer(ann)"] ["cancer(dan)", "cancer(fay)"]

/-- The facts of this problem. -/
def likesRules : List Rule :=
  [.fact ⟨"friends", ["ann", "bob"]⟩, .fact ⟨"likes", ["bob", "bob"]⟩,
    .fact ⟨"friends", ["dan", "eve"]⟩, .fact ⟨"likes", ["eve", "kim"]⟩]

/-- What the tree of this problem is grown from. -/
def likesGrower : Grower := ⟨likesData, .ofList likesRules, ⟨"cancer", ["A"]⟩, none⟩

/-- The leaves of the tree of this problem. -/
def likesLeaves : List Node :=
  let friends : Term := ⟨"friends", ["A", "B"]⟩
  let likes : Term := ⟨"likes", ["B", "B"]⟩
  [⟨["cancer(fay)"], [], [friends]⟩, ⟨["cancer(ann)"], [likes, friends], [likes, friends]⟩,
    ⟨["cancer(dan)"], [friends], [likes, friends]⟩]

theorem hasFacts_likesData : likesData.HasFacts := by
  have hrules : likesData.facts.mapM Rule.parse = .ok likesRules := by decide +kernel
  exact hasFacts_of_mapM hrules (by decide)

theorem hasExamples_likesData : likesData.HasExamples := by
  have hqueries : likesData.examples.mapM Term.parse =
      .ok [⟨"cancer", ["ann"]⟩, ⟨"cancer", ["dan"]⟩, ⟨"cancer", ["fay"]⟩] := by decide +kernel
  exact hasExamples_of_mapM hqueries (by decide)

theorem grower_likesData : likesData.grower .default = .ok likesGrower := by
  have hrules : likesData.facts.mapM Rule.parse = .ok likesRules := by decide +kernel
  exact grower_cancerData hrules

theorem grow_likesGrower : likesGrower.grow 2 [.root likesData.examples] = .ok likesLeaves := by
  have hgrow : { likesGrower with limit := some 100 }.grow 2 [.root likesData.examples] =
      .ok likesLeaves := by decide +kernel
  exact Grower.grow_of_limited rfl hgrow

theorem answering_iff_orderFree_likes :
    (likesData.HasFacts ∧ likesData.HasExamples ∧ likesData.HasBackground) ∧
      likesData.learnTree .default = .ok (.ofLeaves (likesLeaves.map likesGrower.leafOf)) ∧
      (∀ text ∈ likesData.examples, ∃ node ∈ likesLeaves, text ∈ node.examples) ∧
      ∀ node ∈ likesLeaves, ∀ text ∈ node.examples, ∀ query, Term.parse text = .ok query →
        ((LearnedTree.ofLeaves (likesLeaves.map likesGrower.leafOf)).answering likesGrower.facts
          query none = some (likesGrower.leafOf node) ↔ likesGrower.OrderFree likesLeaves query) ∧
        (likesGrower.OrderFree likesLeaves query →
          (LearnedTree.ofLeaves (likesLeaves.map likesGrower.leafOf)).valueOf likesGrower.facts
            query none = .ok (some (likesData.mean node.examples))) ∧
        ((∀ other ∈ likesLeaves, ∀ test ∈ other.lefts, test.RepeatsOnly likesGrower.target.args) →
          likesGrower.OrderFree likesLeaves query) :=
  ⟨⟨hasFacts_likesData, hasExamples_likesData, hasBackground_cancerData _ _ _⟩,
    answering_iff_orderFree hasFacts_likesData hasExamples_likesData
      (hasBackground_cancerData _ _ _) (Nat.le_refl 2) rfl grower_likesData grow_likesGrower⟩

/-- Every friend seems to like himself, if this is asked before the friend is known. -/
theorem valueOf_likesLeaves :
    (LearnedTree.ofLeaves (likesLeaves.map likesGrower.leafOf)).valueOf likesGrower.facts
      ⟨"cancer", ["dan"]⟩ none = .ok (some (likesData.mean ["cancer(ann)"])) := by
  have hprove : Session.prove ⟨likesGrower.facts,
      some ⟨likesGrower.target, [⟨"likes", ["B", "B"]⟩, ⟨"friends", ["A", "B"]⟩]⟩, some 100⟩
        ⟨"cancer", ["dan"]⟩ = .ok true := by decide +kernel
  have hle : LimitLE (some 100) none := trivial
  obtain ⟨rules, hover⟩ := Grower.exists_overFacts grower_likesData hasFacts_likesData
    (hasBackground_cancerData _ _ _) rfl
  have havoids : ∀ leaf ∈ likesLeaves, likesGrower.Avoids leaf.lefts := by
    unfold Grower.Avoids
    decide
  have hquery : Term.parse "cancer(dan)" = .ok ⟨"cancer", ["dan"]⟩ := by decide +kernel
  -- the leaf with both tests applies, and no other leaf has as many
  have happlies : LearnedTree.applies likesGrower.facts ⟨"cancer", ["dan"]⟩ none
      (likesGrower.leafOf ⟨["cancer(ann)"], [⟨"likes", ["B", "B"]⟩, ⟨"friends", ["A", "B"]⟩],
        [⟨"likes", ["B", "B"]⟩, ⟨"friends", ["A", "B"]⟩]⟩) = .ok true :=
    Session.prove_mono hle hprove
  have hanswering : (LearnedTree.ofLeaves (likesLeaves.map likesGrower.leafOf)).answering
      likesGrower.facts ⟨"cancer", ["dan"]⟩ none = some (likesGrower.leafOf ⟨["cancer(ann)"],
        [⟨"likes", ["B", "B"]⟩, ⟨"friends", ["A", "B"]⟩],
        [⟨"likes", ["B", "B"]⟩, ⟨"friends", ["A", "B"]⟩]⟩) := by
    refine LearnedTree.answering_ofLeaves_eq_some_iff.2 ⟨happlies, [_], [_], rfl, ?_, ?_⟩
    · intro other hother _
      rw [List.mem_singleton.1 hother]
      exact Nat.zero_lt_succ 1
    · intro other hother _
      rw [List.mem_singleton.1 hother]
      exact Nat.le_succ 1
  rw [hover.valueOf_ofLeaves havoids hquery, hanswering]
  rfl

/-- Not every example is given the value of its own leaf. -/
theorem not_forall_valueOf_eq_mean :
    ¬ ∀ (d : Dataset) (config : TreeConfig) (g : Grower) (nodes : List Node), d.HasFacts →
      d.HasExamples → d.HasBackground → config.maxDepth ≤ 2 → config.stepLimit = none →
      d.grower config = .ok g → g.grow config.maxDepth [.root d.examples] = .ok nodes →
      ∀ node ∈ nodes, ∀ text ∈ node.examples, ∀ query, Term.parse text = .ok query →
        (LearnedTree.ofLeaves (nodes.map g.leafOf)).valueOf g.facts query none =
          .ok (some (d.mean node.examples)) := by
  intro h
  have hquery : Term.parse "cancer(dan)" = .ok ⟨"cancer", ["dan"]⟩ := by decide +kernel
  have hown := h likesData .default likesGrower likesLeaves hasFacts_likesData
    hasExamples_likesData (hasBackground_cancerData _ _ _) (Nat.le_refl 2) rfl grower_likesData
    grow_likesGrower ⟨["cancer(dan)"], [⟨"friends", ["A", "B"]⟩],
      [⟨"likes", ["B", "B"]⟩, ⟨"friends", ["A", "B"]⟩]⟩ (by decide) "cancer(dan)" (by decide)
      ⟨"cancer", ["dan"]⟩ hquery
  rw [valueOf_likesLeaves, Except.ok.injEq, Option.some.injEq] at hown
  have hdiffer : likesData.mean ["cancer(ann)"] ≠ likesData.mean ["cancer(dan)"] := by
    decide +kernel
  exact hdiffer hown

end Dataset

end ClauseForest
