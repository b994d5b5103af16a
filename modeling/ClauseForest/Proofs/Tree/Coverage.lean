/-
**A tree covers the examples it is grown from**

An example is sent to the left of a test because it satisfies the tests on the way in the order in
which they are proved there, the new test last.  The leaf records the same tests in another order,
the new test first.  So an example is covered by its leaf if the order of the tests makes no
difference, which is so when no test repeats a variable that the target does not have.  A tree that
covers every example gives every example a value.

Main definitions:

* `Grower.Routed` — the examples of a node satisfy the tests on the way to it, the nearest test
  last.

Main results:

* `Grower.routed_of_grows` — the examples of a leaf are routed to it;
* `Dataset.covers_examples` — **every example satisfies the clause of its leaf**, and has a value.
-/

import ClauseForest.Proofs.Tree.Answering
import ClauseForest.Proofs.Tree.Clauses
import ClauseForest.Proofs.Tree.StepLimit
import Mathlib.Control.Monad.Basic

set_option relaxedAutoImplicit false
set_option autoImplicit false

namespace ClauseForest

namespace Grower

variable {g : Grower}

/-- The examples of a node with tests satisfy these tests, the nearest test last. -/
def Routed (g : Grower) (node : Node) : Prop :=
  ∀ test rest, node.lefts = test :: rest →
    ∀ text ∈ node.examples, g.satisfies (rest ++ [test]) text = true

theorem Splits.routed {node child : Node} {s : Split} (hs : g.Splits node s)
    (hchild : child ∈ children node s) (hnode : g.Routed node) : g.Routed child := by
  intro test rest hlefts text htext
  rcases mem_children_iff.1 hchild with ⟨-, rfl⟩ | ⟨-, rfl⟩
  · obtain ⟨rfl, rfl⟩ := List.cons.inj hlefts
    exact (hs.mem_satisfied_iff.1 htext).2
  · exact hnode test rest hlefts text (hs.mem_unsatisfied_iff.1 htext).1

/-- The examples of a leaf are routed to it. -/
theorem routed_of_grows {k : Nat} {nodes leaves : List Node} (h : g.Grows k nodes leaves)
    (hnodes : ∀ node ∈ nodes, g.Routed node) : ∀ leaf ∈ leaves, g.Routed leaf :=
  h.forall_leaves (P := fun _ => g.Routed) (fun _ _ _ _ hnode hs hchild => hs.routed hchild hnode)
    (fun _ _ => id) hnodes

/-- A leaf covers the examples that are routed to it, if its tests may be taken in any order. -/
theorem OverFacts.covers_of_routed {rules : List Rule} (h : g.OverFacts rules) {leaf : Node}
    (hleaf : g.Avoids leaf.lefts) (hrouted : g.Routed leaf)
    (hrepeats : ∀ test ∈ leaf.lefts, test.RepeatsOnly g.target.args) {text : String}
    (htext : text ∈ leaf.examples) {query : Term} (hquery : Term.parse text = .ok query)
    (hground : query.IsGround) : g.covers leaf text = true := by
  unfold covers
  cases hlefts : leaf.lefts with
  | nil => rfl
  | cons test rest =>
      rw [hlefts] at hleaf hrepeats
      -- the recorded tests are the proved ones, with the last test moved to the front
      have hperm : (test :: rest).Perm (rest ++ [test]) :=
        (List.perm_append_singleton test rest).symm
      rw [h.satisfies_perm hperm hleaf hrepeats hquery hground]
      simp [hrouted test rest hlefts text htext]

end Grower

namespace Dataset

variable {d : Dataset} {config : TreeConfig} {g : Grower} {nodes : List Node}

theorem learnTree_eq (hg : d.grower config = .ok g)
    (hnodes : g.grow config.maxDepth [.root d.examples] = .ok nodes) :
    d.learnTree config = .ok (.ofLeaves (nodes.map g.leafOf)) :=
  bind_eq_ok_iff.2 ⟨g, hg, bind_eq_ok_iff.2 ⟨nodes, hnodes, rfl⟩⟩

/-! ### A small data set -/

/-- Declarations of the friends and the likings of a person, and of the target. -/
def cancerModes : List ModeDecl :=
  [⟨"friends", [.typed (some .input) "person", .typed (some .output) "person"]⟩,
    ⟨"likes", [.typed (some .input) "person", .typed (some .input) "person"]⟩,
    ⟨"cancer", [.typed (some .input) "person"]⟩]

/-- A problem with these declarations. -/
def cancerData (facts positives negatives : List String) : Dataset :=
  (((((empty .default).setFacts facts).addPositives "cancer" positives).addNegatives "cancer"
    negatives).setBackground "cancer" cancerModes).1

theorem hasBackground_cancerData (facts positives negatives : List String) :
    (cancerData facts positives negatives).HasBackground := by
  refine ⟨_, "cancer", cancerModes, fun decl hdecl => ?_, rfl, rfl, rfl, rfl⟩
  have hread : ModeDecl.parseAll "friends(+person,-person) likes(+person,+person) cancer(+person)" =
      .ok cancerModes := by decide +kernel
  exact ⟨_, .inr ⟨cancerModes, hread, hdecl⟩⟩

/-- The grower of a problem with these declarations. -/
theorem grower_cancerData {facts positives negatives : List String} {rules : List Rule}
    (h : facts.mapM Rule.parse = .ok rules) {config : TreeConfig} :
    (cancerData facts positives negatives).grower config =
      .ok ⟨cancerData facts positives negatives, .ofList rules, ⟨"cancer", ["A"]⟩,
        config.stepLimit⟩ := by
  have htarget : Term.parse "cancer(A)" = .ok ⟨"cancer", ["A"]⟩ := by decide +kernel
  exact grower_eq_ok_iff.2 ⟨rules, _, h, htarget, rfl⟩

/-! ### Covered examples -/

/-- Every example satisfies the clause of its leaf, and has a value, if no test in a clause repeats
a variable that the target does not have. -/
theorem covers_examples (hfacts : d.HasFacts) (hexamples : d.HasExamples)
    (hbackground : d.HasBackground) (hlimit : config.stepLimit = none)
    (hg : d.grower config = .ok g)
    (hnodes : g.grow config.maxDepth [.root d.examples] = .ok nodes)
    (htests : ∀ node ∈ nodes, ∀ test ∈ node.lefts, test.RepeatsOnly g.target.args) :
    d.learnTree config = .ok (.ofLeaves (nodes.map g.leafOf)) ∧
      (∀ node ∈ nodes, ∀ text ∈ node.examples, ∀ query, Term.parse text = .ok query →
        (g.leafOf node).isUnconditional = true ∨
          Session.prove ⟨g.facts, some (g.leafOf node).rule, none⟩ query = .ok true) ∧
      ∀ text ∈ d.examples, ∀ query, Term.parse text = .ok query →
        ∃ value, (LearnedTree.ofLeaves (nodes.map g.leafOf)).valueOf g.facts query none =
          .ok (some value) := by
  obtain ⟨rules, hover⟩ := Grower.exists_overFacts hg hfacts hbackground hlimit
  have hgrows := Grower.grows_of_grow hnodes
  have havoids := hover.avoids_of_grows hgrows (by simp [Node.root, Grower.Avoids])
  have hrouted := Grower.routed_of_grows hgrows (by simp [Node.root, Grower.Routed])
  have hsubset : ∀ node ∈ nodes, ∀ text ∈ node.examples, text ∈ d.examples :=
    hgrows.examples_subset (by simp [Node.root])
  have hcovers : ∀ node ∈ nodes, ∀ text ∈ node.examples, ∀ query, Term.parse text = .ok query →
      g.covers node text = true := by
    intro node hnode text htext query hquery
    exact hover.covers_of_routed (havoids node hnode) (hrouted node hnode) (htests node hnode) htext
      hquery (hexamples text (hsubset node hnode text htext) query hquery)
  refine ⟨learnTree_eq hg hnodes, ?_, ?_⟩
  · intro node hnode text htext query hquery
    have happlies := hover.applies_leafOf (havoids node hnode) hquery
    rw [hcovers node hnode text htext query hquery, LearnedTree.applies] at happlies
    split at happlies
    · rename_i hunconditional
      exact .inl hunconditional
    · exact .inr happlies
  · intro text htext query hquery
    obtain ⟨leaf, hleaf, hmem⟩ := hgrows.exists_leaf ⟨_, List.mem_singleton.2 rfl, htext⟩
    have happlies := hover.applies_leafOf (havoids leaf hleaf) hquery
    rw [hcovers leaf hleaf text hmem query hquery] at happlies
    obtain ⟨found, hfound⟩ := LearnedTree.exists_answering
      (LearnedTree.mem_ofLeaves.2 (List.mem_map_of_mem hleaf)) happlies
    refine ⟨found.value, ?_⟩
    rw [hover.valueOf_ofLeaves havoids hquery, hfound]
    rfl

/-- A problem whose best tests ask for a friend who has a friend. -/
def friendsData : Dataset :=
  cancerData ["friends(ann,bob)", "friends(bob,cid)", "friends(dan,eve)"] ["cancer(ann)"]
    ["cancer(dan)", "cancer(fay)"]

/-- The facts of this problem. -/
def friendsRules : List Rule :=
  [.fact ⟨"friends", ["ann", "bob"]⟩, .fact ⟨"friends", ["bob", "cid"]⟩,
    .fact ⟨"friends", ["dan", "eve"]⟩]

/-- What the tree of this problem is grown from. -/
def friendsGrower : Grower := ⟨friendsData, .ofList friendsRules, ⟨"cancer", ["A"]⟩, none⟩

/-- The leaves of the tree of this problem.  The one with two tests records them in another order
than the one in which they were proved. -/
def friendsLeaves : List Node :=
  let near : Term := ⟨"friends", ["A", "B"]⟩
  let far : Term := ⟨"friends", ["B", "C"]⟩
  [⟨["cancer(fay)"], [], [near]⟩, ⟨["cancer(ann)"], [far, near], [far, near]⟩,
    ⟨["cancer(dan)"], [near], [far, near]⟩]

theorem covers_examples_friends :
    (friendsData.HasFacts ∧ friendsData.HasExamples ∧ friendsData.HasBackground) ∧
      friendsData.learnTree .default =
        .ok (.ofLeaves (friendsLeaves.map friendsGrower.leafOf)) ∧
      (∀ node ∈ friendsLeaves, ∀ text ∈ node.examples, ∀ query, Term.parse text = .ok query →
        (friendsGrower.leafOf node).isUnconditional = true ∨
          Session.prove ⟨friendsGrower.facts, some (friendsGrower.leafOf node).rule, none⟩ query =
            .ok true) ∧
      ∀ text ∈ friendsData.examples, ∀ query, Term.parse text = .ok query →
        ∃ value, (LearnedTree.ofLeaves (friendsLeaves.map friendsGrower.leafOf)).valueOf
          friendsGrower.facts query none = .ok (some value) := by
  have hrules : friendsData.facts.mapM Rule.parse = .ok friendsRules := by decide +kernel
  have hqueries : friendsData.examples.mapM Term.parse =
      .ok [⟨"cancer", ["ann"]⟩, ⟨"cancer", ["dan"]⟩, ⟨"cancer", ["fay"]⟩] := by decide +kernel
  have hgrow : { friendsGrower with limit := some 100 }.grow 2 [.root friendsData.examples] =
      .ok friendsLeaves := by decide +kernel
  have hgrower : friendsData.grower .default = .ok friendsGrower := grower_cancerData hrules
  have hfacts : friendsData.HasFacts := hasFacts_of_mapM hrules (by decide)
  have hexamples : friendsData.HasExamples := hasExamples_of_mapM hqueries (by decide)
  have hbackground : friendsData.HasBackground := hasBackground_cancerData _ _ _
  exact ⟨⟨hfacts, hexamples, hbackground⟩, covers_examples hfacts hexamples hbackground rfl hgrower
    (Grower.grow_of_limited rfl hgrow) (by decide)⟩

end Dataset

end ClauseForest
