/-
**The clause text of a node**

To find the literals that may be tested at a node, its clause is written down and read again, by the
reading that allows a body under construction.  The prover never sees this text: it is given the clause
itself.  So the literals are sought for the variables of the right clause only if the text is read as the
clause of which it was made, whatever path leads to the node.

It is, since all tests on the way are built of names.  And the other reading, by which rules are read
elsewhere, gives the same clause, as the two differ only on texts that the other one refuses.

Main results:

* `Grower.OfNames.named_of_visits` — every test on the way to a node is built of names;
* `Builder.Reaches.named_clauseAt` — so is the clause of every node that a builder makes;
* `parse_iff_parseOpen_and_clauseText` — **the two readings of a clause agree, and the clauses of nodes
  are read back by both**.
-/

import ClauseForest.Proofs.Logic.OpenRule
import ClauseForest.Proofs.Tree.Induction
import ClauseForest.Proofs.Tree.Named
import ClauseForest.Proofs.Tree.Reached

set_option relaxedAutoImplicit false
set_option autoImplicit false

namespace ClauseForest

variable {g : Grower} {depth : Nat}

/-! ### Paths -/

/-- Every test on the left edges of the way to a node is built of names. -/
theorem Grower.OfNames.named_of_visits (h : g.OfNames) {k : Nat} {node : Node} {examples : List String}
    (hnode : g.Visits depth (.root examples) k node) : ∀ test ∈ node.lefts, test.Named :=
  hnode.of_edges (P := fun node => ∀ test ∈ node.lefts, test.Named) nofun
    fun _ _ _ hlefts hs hchild => h.named_child hlefts hs hchild

namespace Builder

variable {b : Builder} {id : Nat} {slot : Slot}

/-- The clause of a node that a builder makes is built of names. -/
theorem Reaches.named_clauseAt (h : Reaches g depth b) (hg : g.OfNames)
    (hslot : b.arena.slots[id]? = some slot) : (g.clauseOf (b.arena.nodeAt id)).Named := by
  obtain ⟨k, hvisits⟩ := h.makesNodes id slot hslot
  exact hg.named_clauseOf (hg.named_of_visits hvisits)

end Builder

/-! ### Texts -/

/-- A clause that is built of names is read back as a finished rule. -/
theorem Rule.Named.parse_renderClause {r : Rule} (h : r.Named) :
    Rule.parse (Leaf.renderClause r) = .ok r := (Rule.parse_renderClause_iff r).2 h.parse_render

/-- **The two readings of a clause agree, and the clauses of nodes are read back.**  A text is a finished
rule exactly if it is an open one whose body is empty or has no empty literal, and then both readings
give the same rule.  If a tree is built from a data set with a declared background, then at every moment
of the construction the clause text of every node of the arena, that is the target, a neck and the
tests on the left edges of the way to the node, is read as the target and these tests. -/
theorem parse_iff_parseOpen_and_clauseText :
    (∀ (text : String) (r : Rule), Rule.parse text = .ok r ↔ Rule.parseOpen text = .ok r ∧
      (Rule.bodyText text = [] ∨ "" ∉ Rule.bodyPieces (Rule.bodyText text))) ∧
    ∀ d : Dataset, d.HasBackground → ∀ (config : TreeConfig) (g : Grower), d.grower config = .ok g →
      ∀ b : Builder, Builder.Reaches g config.maxDepth b →
        ∀ (id : Nat) (slot : Slot), b.arena.slots[id]? = some slot →
          Rule.parseOpen (g.clauseText (b.arena.nodeAt id)) = .ok ⟨g.target, (b.arena.pathTests id).1⟩ ∧
            Rule.parse (g.clauseText (b.arena.nodeAt id)) = .ok ⟨g.target, (b.arena.pathTests id).1⟩ := by
  refine ⟨fun text r => Rule.parse_eq_ok_iff_parseOpen, ?_⟩
  intro d hd config g hg b hb id slot hslot
  have hnamed := hb.named_clauseAt (Grower.ofNames_of_grower hg hd) hslot
  exact ⟨hnamed.parseOpen_renderClause, hnamed.parse_renderClause⟩

namespace Dataset

/-- The builder of the tree of friends after its first step, when the top is split. -/
def friendsTop : Builder :=
  (Builder.next limitedGrower 2 (.start friendsData)).getLeft (by decide +kernel)

/-- The builder after its second step, when the left side of the top is split as well. -/
def friendsBelow : Builder := (Builder.next limitedGrower 2 friendsTop).getLeft (by decide +kernel)

theorem reaches_friendsBelow : Builder.Reaches limitedGrower 2 friendsBelow :=
  .step (.step .start (Sum.inl_getLeft _ _).symm) (Sum.inl_getLeft _ _).symm

/-- The theorem for the text of a clause with two tests, the nearest one first. -/
theorem parse_iff_parseOpen_and_clauseText_friends :
    (friendsData.HasBackground ∧ friendsData.grower limitedConfig = .ok limitedGrower ∧
      Builder.Reaches limitedGrower limitedConfig.maxDepth friendsBelow ∧
      limitedGrower.clauseText (friendsBelow.arena.nodeAt 3) = "cancer(A):-friends(B,C);friends(A,B)") ∧
    Rule.parseOpen (limitedGrower.clauseText (friendsBelow.arena.nodeAt 3)) =
        .ok ⟨⟨"cancer", ["A"]⟩, [⟨"friends", ["B", "C"]⟩, ⟨"friends", ["A", "B"]⟩]⟩ ∧
      Rule.parse (limitedGrower.clauseText (friendsBelow.arena.nodeAt 3)) =
        .ok ⟨⟨"cancer", ["A"]⟩, [⟨"friends", ["B", "C"]⟩, ⟨"friends", ["A", "B"]⟩]⟩ := by
  have hbackground : friendsData.HasBackground := hasBackground_cancerData _ _ _
  have hrules : friendsData.facts.mapM Rule.parse = .ok friendsRules := by decide +kernel
  have hgrower : friendsData.grower limitedConfig = .ok limitedGrower := grower_cancerData hrules
  have hlength : 3 < friendsBelow.arena.slots.length := by decide +kernel
  have hpath : (friendsBelow.arena.pathTests 3).1 =
      [⟨"friends", ["B", "C"]⟩, ⟨"friends", ["A", "B"]⟩] := by decide +kernel
  have hread := parse_iff_parseOpen_and_clauseText.2 friendsData hbackground limitedConfig
    limitedGrower hgrower friendsBelow reaches_friendsBelow 3 _ (List.getElem?_eq_getElem hlength)
  exact ⟨⟨hbackground, hgrower, reaches_friendsBelow, by decide +kernel⟩, hpath ▸ hread⟩

end Dataset

end ClauseForest
